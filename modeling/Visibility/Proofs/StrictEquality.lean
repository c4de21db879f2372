import Visibility.Proofs.Comparison
import Visibility.Proofs.NearestDouble

/-!
# What strict equality tells apart

Strict equality compares numbers of all representations by value and objects by identity.  It is as
fine as every other operation on values: what is strictly equal has one type, counts alike as true or
false, compares alike with everything else and is written alike.  The one thing that is not equal to
itself is a NaN.

* `strictEquals_comm`, `Same.trans`, `same_self_iff` — the laws of an equality, as far as they hold
* `Interchangeable` — no operation tells two values apart
* `interchangeable_of_value` — numbers of one value are interchangeable
* `strictEquals_congruence` — so are strictly equal values
-/

namespace Visibility

namespace Value

variable {a b c : Value}

/-! ## §1 The laws of an equality -/

/-- The value is a NaN, of whatever kind. -/
def IsNaN (a : Value) : Prop := ∃ x : Number, a = .number x ∧ x.value? = none

/-- The value is a NaN that refuses to be compared. -/
def IsSignaling (a : Value) : Prop := ∃ x : Number, a = .number x ∧ x.exact.isSignaling = true

/-- When two values are strictly equal: without identity, by type and value; as numbers, by their
exact value; as objects, if they are one. -/
inductive Same : Value → Value → Prop where
  | undefined : Same .undefined .undefined
  | null : Same .null .null
  | bool (t : Bool) : Same (.bool t) (.bool t)
  | string (s : String) : Same (.string s) (.string s)
  | number {x y : Number} {v : ExactValue} :
      x.value? = some v → y.value? = some v → Same (.number x) (.number y)
  | object {a b : Value} {id : Identity} :
      a.identity? = some id → b.identity? = some id → Same a b

theorem strictEquals_eq_true_iff : a.strictEquals b = .ok true ↔ Same a b := by
  constructor
  · intro equal
    unfold strictEquals at equal
    split at equal
    · exact .undefined
    · exact .null
    · rename_i t u
      obtain rfl : t = u := by simpa using equal
      exact .bool t
    · obtain ⟨v, left, right⟩ := Number.equals_eq_true_iff.mp equal
      exact .number left right
    · rename_i s t
      obtain rfl : s = t := by simpa using equal
      exact .string s
    · -- Of two different kinds nothing is equal; two objects are compared by their identities.
      have both : a.kind = .object ∧ a.identity? = b.identity? := by simpa using equal
      obtain ⟨object, one⟩ := both
      have identified : ∃ id, a.identity? = some id := by
        cases a <;> first | exact ⟨_, rfl⟩ | cases object
      obtain ⟨id, left⟩ := identified
      exact .object left (one.symm.trans left)
  · intro same
    cases same with
    | undefined => rfl
    | null => rfl
    | bool t => exact congrArg Except.ok (beq_self_eq_true t)
    | string s => exact congrArg Except.ok (beq_self_eq_true s)
    | number left right => exact Number.equals_of_value left right
    | object left right =>
      cases a <;> cases left
      all_goals
        cases b <;> cases right
        all_goals exact congrArg Except.ok (beq_self_eq_true _)

theorem strictEquals_comm (a b : Value) : a.strictEquals b = b.strictEquals a := by
  cases a <;> cases b <;> first
    | rfl
    | exact Number.equals_comm _ _
    | exact congrArg Except.ok Bool.beq_comm

/-- An object equals the value with its identity and no other. -/
theorem strictEquals_of_object (object : a.kind = .object ∨ b.kind = .object) :
    a.strictEquals b = .ok (a.identity? == b.identity?) := by
  have left {a b : Value} (object : a.kind = .object) :
      a.strictEquals b = .ok (a.identity? == b.identity?) := by
    cases a <;> first | rfl | cases object
  rcases object with object | object
  · exact left object
  · rw [strictEquals_comm, left object, Bool.beq_comm]

theorem Same.trans (first : Same a b) (second : Same b c) : Same a c := by
  cases first with
  | undefined => exact second
  | null => exact second
  | bool t => exact second
  | string s => exact second
  | number left middle =>
    cases second with
    | number middle' right =>
      -- The value in the middle is one, so that the outer ones are the same.
      obtain rfl := Option.some.inj (middle.symm.trans middle')
      exact .number left right
    | object one _ => cases one
  | object left middle =>
    cases second with
    | object middle' right =>
      obtain rfl := Option.some.inj (middle.symm.trans middle')
      exact .object left right
    | _ => cases middle

/-- Everything but a NaN is equal to itself. -/
theorem same_self_iff : Same a a ↔ ¬a.IsNaN := by
  constructor
  · intro same nan
    obtain ⟨x, rfl, none⟩ := nan
    cases same with
    | number left _ =>
      rw [none] at left
      cases left
    | object one _ => cases one
  · intro valued
    cases a with
    | undefined => exact .undefined
    | null => exact .null
    | bool t => exact .bool t
    | string s => exact .string s
    | number x =>
      cases value : x.value? with
      | none => exact absurd ⟨x, rfl, value⟩ valued
      | some v => exact .number value value
    | list id items => exact .object rfl rfl
    | tuple id items => exact .object rfl rfl
    | map id entries => exact .object rfl rfl
    | foreign id thing => exact .object rfl rfl

/-- A value that cannot be compared with itself is a signaling NaN. -/
theorem strictEquals_self_eq_error {cause : CoercionError} :
    a.strictEquals a = .error cause ↔ a.IsSignaling ∧ cause = .signalingNaN := by
  unfold IsSignaling
  cases a with
  | number x =>
    have refused : (number x).strictEquals (number x) = .error cause ↔ _ := Number.equals_eq_error
    rw [or_self] at refused
    simpa using refused
  | _ => simp [strictEquals]

/-- Only signaling NaNs refuse a strict comparison. -/
theorem eq_signalingNaN_of_strictEquals {cause : CoercionError}
    (h : a.strictEquals b = .error cause) :
    cause = .signalingNaN := by
  unfold strictEquals at h
  split at h
  · cases h
  · cases h
  · cases h
  · exact (Number.equals_eq_error.mp h).2
  · cases h
  · cases h

/-! ## §2 Values that no operation tells apart -/

/-- Two values have one type, count alike as true or false, are told apart by no comparison with a
third value, and are written alike, unless neither of them can be written. -/
structure Interchangeable (a b : Value) : Prop where
  kind : a.kind = b.kind
  isTruthy : a.isTruthy = b.isTruthy
  strictEquals (c : Value) :
    a.strictEquals c = b.strictEquals c ∧ c.strictEquals a = c.strictEquals b
  looseEquals (c : Value) : a.looseEquals c = b.looseEquals c ∧ c.looseEquals a = c.looseEquals b
  relate (operator : Operator) (c : Value) :
    a.relate operator c = b.relate operator c ∧ c.relate operator a = c.relate operator b
  text : a.text.toOption = b.text.toOption

theorem Interchangeable.refl (a : Value) : Interchangeable a a :=
  ⟨rfl, rfl, fun _ => ⟨rfl, rfl⟩, fun _ => ⟨rfl, rfl⟩, fun _ _ => ⟨rfl, rfl⟩, rfl⟩

/-! ## §3 Numbers of one value -/

section Numbers

variable {x y : Number} {v : ExactValue}

theorem strictEquals_congr (hx : x.value? = some v) (hy : y.value? = some v) (c : Value) :
    (number x).strictEquals c = (number y).strictEquals c ∧
      c.strictEquals (number x) = c.strictEquals (number y) := by
  cases c with
  | number z => exact Number.equals_congr hx hy z
  | _ => exact ⟨rfl, rfl⟩

/-- What the order of primitive values is for a number on one side. -/
theorem primitiveOrder_number (x : Number) (c : Value) :
    (number x).primitiveOrder c = (c.toNumber >>= fun z => x.order? z) ∧
      c.primitiveOrder (number x) = (c.toNumber >>= fun z => z.order? x) := by
  cases c <;> exact ⟨rfl, rfl⟩

theorem coercedOrder_congr (hx : x.value? = some v) (hy : y.value? = some v) (c : Value) :
    (number x).coercedOrder c = (number y).coercedOrder c ∧
      c.coercedOrder (number x) = c.coercedOrder (number y) := by
  have same (z : Number) := Number.order?_congr hx hy z
  constructor
  · show (c.toPrimitive >>= fun c => (number x).primitiveOrder c) =
      (c.toPrimitive >>= fun c => (number y).primitiveOrder c)
    simp only [primitiveOrder_number, (same _).1]
  · show (c.toPrimitive >>= fun c => c.primitiveOrder (number x)) =
      (c.toPrimitive >>= fun c => c.primitiveOrder (number y))
    simp only [primitiveOrder_number, (same _).2]

theorem looseEquals_congr (hx : x.value? = some v) (hy : y.value? = some v) (c : Value) :
    (number x).looseEquals c = (number y).looseEquals c ∧
      c.looseEquals (number x) = c.looseEquals (number y) := by
  have noObject (z : Number) : (number z).kind ≠ .object := nofun
  cases absent : c.isAbsent with
  | true =>
    -- No number equals an absent value.
    cases c <;> first | exact ⟨rfl, rfl⟩ | cases absent
  | false =>
    obtain ⟨left, right⟩ := coercedOrder_congr hx hy c
    rw [looseEquals_eq_coercedOrder rfl absent fun both => noObject x both.1,
      looseEquals_eq_coercedOrder rfl absent fun both => noObject y both.1,
      looseEquals_eq_coercedOrder absent rfl fun both => noObject x both.2,
      looseEquals_eq_coercedOrder absent rfl fun both => noObject y both.2, left, right]
    exact ⟨rfl, rfl⟩

/-- A relational operator on numbers. -/
def relateNumbers (operator : Operator) (x y : Number) : Except CoercionError Bool := do
  if ← x.isNaN then return false
  match ← x.order? y with
  | none => return false
  | some order => operator.holds? order

/-- With a number on one side, the other side is read as a number. -/
theorem relate_number (operator : Operator) (x : Number) (c : Value) :
    (number x).relate operator c =
        (c.toPrimitive >>= fun c => c.toNumber >>= fun z => relateNumbers operator x z) ∧
      c.relate operator (number x) =
        (c.toPrimitive >>= fun c => c.toNumber >>= fun z => relateNumbers operator z x) := by
  unfold relate
  cases c.toPrimitive with
  | error cause => exact ⟨rfl, rfl⟩
  | ok primitive => cases primitive <;> exact ⟨rfl, rfl⟩

theorem relate_congr (hx : x.value? = some v) (hy : y.value? = some v) (operator : Operator)
    (c : Value) :
    (number x).relate operator c = (number y).relate operator c ∧
      c.relate operator (number x) = c.relate operator (number y) := by
  have left (z : Number) : relateNumbers operator x z = relateNumbers operator y z := by
    unfold relateNumbers
    rw [Number.isNaN_of_value hx, Number.isNaN_of_value hy, (Number.order?_congr hx hy z).1]
  have right (z : Number) : relateNumbers operator z x = relateNumbers operator z y := by
    unfold relateNumbers
    rw [(Number.order?_congr hx hy z).2]
  simp only [relate_number, left, right, and_self]

/-- No operation tells numbers of one value apart. -/
theorem interchangeable_of_value (hx : x.value? = some v) (hy : y.value? = some v) :
    Interchangeable (number x) (number y) where
  kind := rfl
  isTruthy := Number.isTruthy_congr hx hy
  strictEquals := strictEquals_congr hx hy
  looseEquals := looseEquals_congr hx hy
  relate := relate_congr hx hy
  text := Number.toOption_text_congr hx hy

end Numbers

/-! ## §4 Strictly equal values -/

/-- The values belong to one store of objects: an identity that both have is that of one object. -/
def Coherent (a b : Value) : Prop :=
  ∀ id, a.identity? = some id → b.identity? = some id → a = b

theorem Same.interchangeable (same : Same a b) (coherent : Coherent a b) : Interchangeable a b := by
  cases same with
  | undefined => exact .refl _
  | null => exact .refl _
  | bool t => exact .refl _
  | string s => exact .refl _
  | number left right => exact interchangeable_of_value left right
  | object left right =>
    obtain rfl := coherent _ left right
    exact .refl _

/-- **Strict equality is a congruence.**  It is symmetric, also in what it refuses, and transitive;
everything is equal to itself but a NaN, which is refused if it is a signaling one.  And values of
one store that are strictly equal are interchangeable in every operation. -/
theorem strictEquals_congruence (a b c : Value) :
    a.strictEquals b = b.strictEquals a ∧
    (a.strictEquals b = .ok true → b.strictEquals c = .ok true → a.strictEquals c = .ok true) ∧
    (a.strictEquals a = .ok true ↔ ¬a.IsNaN) ∧
    (∀ cause, a.strictEquals a = .error cause ↔ a.IsSignaling ∧ cause = .signalingNaN) ∧
    (Coherent a b → a.strictEquals b = .ok true → Interchangeable a b) := by
  refine ⟨strictEquals_comm a b, ?_, ?_, fun cause => strictEquals_self_eq_error, ?_⟩
  · intro first second
    rw [strictEquals_eq_true_iff] at first second ⊢
    exact first.trans second
  · rw [strictEquals_eq_true_iff]
    exact same_self_iff
  · intro coherent equal
    exact (strictEquals_eq_true_iff.mp equal).interchangeable coherent

/-- A whole number that is no double, and two decimals of the same value. -/
theorem strictEquals_congruence_large :
    let a := Value.int 9007199254740993
    let b := Value.number (.decimal (.finite ⟨false, 90071992547409930, -1⟩))
    let c := Value.number (.decimal (.finite ⟨false, 900719925474099300, -2⟩))
    a.strictEquals b = .ok true ∧ b.strictEquals c = .ok true ∧ a.strictEquals c = .ok true ∧
      Interchangeable a b := by
  intro a b c
  have first : a.strictEquals b = .ok true := by cbv
  have second : b.strictEquals c = .ok true := by cbv
  have noObjects : Coherent a b := by
    intro id identified
    cases identified
  obtain ⟨_, transitive, _, _, congruent⟩ := strictEquals_congruence a b c
  exact ⟨first, second, transitive first second, congruent noObjects first⟩

end Value

end Visibility
