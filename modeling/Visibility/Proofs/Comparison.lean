import Visibility.Proofs.ExactValue

/-!
# Loose equality and order

Loose equality and the relational operators convert their operands in different orders: one turns
booleans into numbers first and objects into texts later, the other makes both sides primitive and
looks at their types only then.  Both come to one comparison, `Value.coercedOrder`: two texts are
compared by their characters and everything else as numbers.

* `looseEqualsWithin_plain`, `looseEqualsWithin_object_left`, `looseEqualsWithin_bool_left` — what the
  steps of loose equality come to, for each class of operands
* `looseEquals_eq_coercedOrder` — so loose equality is equality in that order
* `relate_of_coercedOrder` — the relational operators read the same order
* `looseEquals_iff_relate` — two values are loosely equal exactly if each is at most the other
-/

namespace Visibility

namespace Value

/-! ## §1 One comparison behind both -/

/-- How two primitive values compare: two strings by their characters, everything else as numbers.
Where a number is NaN there is no order. -/
def primitiveOrder (a b : Value) : Except CoercionError (Option Ordering) :=
  match a, b with
  | .string s, .string t => .ok (some (compare s t))
  | _, _ => a.toNumber >>= fun x => b.toNumber >>= fun y => x.order? y

/-- How two values compare after objects have become texts. -/
def coercedOrder (a b : Value) : Except CoercionError (Option Ordering) :=
  a.toPrimitive >>= fun a => b.toPrimitive >>= fun b => a.primitiveOrder b

/-- Whether an order, if there is one, is that of equal things. -/
def isEqual (order : Option Ordering) : Bool := order == some .eq

variable {a b : Value}

theorem isEqual_compare (s t : String) : isEqual (some (compare s t)) = (s == t) := by
  unfold isEqual
  rw [Bool.eq_iff_iff]
  simp

theorem toPrimitive_object (h : a.kind = .object) : a.toPrimitive = a.text.map .string :=
  if_pos h

/-- An object is converted to a number by way of its text. -/
theorem toNumber_object (object : a.kind = .object) :
    a.toNumber = a.text >>= fun s => (string s).toNumber := by
  have viaText : (do return Number.double (← Numeral.stringValue (← a.text))) =
      a.text >>= fun s => (string s).toNumber := by
    cases a.text with
    | error cause => rfl
    | ok s =>
      show (Numeral.stringValue s >>= _) = (Numeral.stringValue s).map Number.double
      cases Numeral.stringValue s <;> rfl
  cases a with
  | list id items | tuple id items | map id entries | foreign id thing => exact viaText
  | _ => cases object

/-! ## §2 Loose equality -/

/-- A step that answers ends the comparison. -/
theorem looseEqualsWithin_answer {x : Except CoercionError Bool}
    (h : a.looseStep b = x >>= fun equal => pure (.answer equal)) (steps : Nat) :
    looseEqualsWithin (steps + 1) a b = x := by
  rw [looseEqualsWithin, h]
  cases x <;> rfl

/-- A step that converts the left operand leaves it to the steps after it. -/
theorem looseEqualsWithin_convert_left {x : Except CoercionError Value}
    (h : a.looseStep b = x >>= fun c => pure (.convert c b)) (steps : Nat) :
    looseEqualsWithin (steps + 1) a b = x >>= fun c => looseEqualsWithin steps c b := by
  rw [looseEqualsWithin, h]
  cases x <;> rfl

/-- The same for the right operand. -/
theorem looseEqualsWithin_convert_right {x : Except CoercionError Value}
    (h : a.looseStep b = x >>= fun c => pure (.convert a c)) (steps : Nat) :
    looseEqualsWithin (steps + 1) a b = x >>= fun c => looseEqualsWithin steps a c := by
  rw [looseEqualsWithin, h]
  cases x <;> rfl

/-- Numbers and strings are compared at once, everything else is converted to one of them first. -/
inductive IsPlain : Value → Prop where
  | number (x : Number) : IsPlain (.number x)
  | string (s : String) : IsPlain (.string s)

theorem IsPlain.toPrimitive (plain : a.IsPlain) : a.toPrimitive = .ok a := by
  cases plain <;> rfl

theorem coercedOrder_plain (plainA : a.IsPlain) (plainB : b.IsPlain) :
    a.coercedOrder b = a.primitiveOrder b := by
  unfold coercedOrder
  rw [plainA.toPrimitive, plainB.toPrimitive]
  rfl

/-- A number and a string are compared in one step, as numbers. -/
theorem looseStep_number_string (x : Number) (s : String) :
    looseStep (.number x) (.string s) =
      (((string s).toNumber >>= fun y => x.equals y) >>= fun equal => pure (.answer equal)) := by
  rw [bind_assoc]
  rfl

theorem looseStep_string_number (s : String) (x : Number) :
    looseStep (.string s) (.number x) =
      (((string s).toNumber >>= fun y => y.equals x) >>= fun equal => pure (.answer equal)) := by
  rw [bind_assoc]
  rfl

theorem looseEqualsWithin_plain (plainA : a.IsPlain) (plainB : b.IsPlain) (steps : Nat) :
    looseEqualsWithin (steps + 1) a b = (a.primitiveOrder b).map isEqual := by
  cases plainA with
  | number x =>
    cases plainB with
    | number y =>
      have step : looseStep (.number x) (.number y) =
          x.equals y >>= fun equal => pure (.answer equal) := rfl
      rw [looseEqualsWithin_answer step]
      rfl
    | string t =>
      rw [looseEqualsWithin_answer (looseStep_number_string x t)]
      show _ = Except.map isEqual ((string t).toNumber >>= fun y => x.order? y)
      cases (string t).toNumber <;> rfl
  | string s =>
    cases plainB with
    | number y =>
      rw [looseEqualsWithin_answer (looseStep_string_number s y)]
      show _ = Except.map isEqual ((string s).toNumber >>= fun x => x.order? y)
      cases (string s).toNumber <;> rfl
    | string t =>
      have step : looseStep (.string s) (.string t) =
          (Except.ok (s == t)) >>= fun equal => pure (.answer equal) := rfl
      rw [looseEqualsWithin_answer step, ← isEqual_compare]
      rfl

/-- An object becomes its text before it is compared. -/
theorem looseEqualsWithin_object_left (object : a.kind = .object) (plain : b.IsPlain) (steps : Nat) :
    looseEqualsWithin (steps + 2) a b = (a.coercedOrder b).map isEqual := by
  have step : a.looseStep b = a.toPrimitive >>= fun c => pure (.convert c b) := by
    cases plain <;> cases a <;> first | rfl | cases object
  rw [looseEqualsWithin_convert_left step, coercedOrder, plain.toPrimitive,
    toPrimitive_object object]
  cases a.text with
  | error cause => rfl
  | ok s => exact looseEqualsWithin_plain (.string s) plain steps

theorem looseEqualsWithin_object_right (plain : a.IsPlain) (object : b.kind = .object) (steps : Nat) :
    looseEqualsWithin (steps + 2) a b = (a.coercedOrder b).map isEqual := by
  have step : a.looseStep b = b.toPrimitive >>= fun c => pure (.convert a c) := by
    cases plain <;> cases b <;> first | rfl | cases object
  rw [looseEqualsWithin_convert_right step, coercedOrder, plain.toPrimitive,
    toPrimitive_object object]
  cases b.text with
  | error cause => rfl
  | ok t => exact looseEqualsWithin_plain plain (.string t) steps

/-- The number of a boolean. -/
def boolNumber (t : Bool) : Value := .number (.int (if t then 1 else 0))

theorem isPlain_boolNumber (t : Bool) : (boolNumber t).IsPlain := .number _

/-- A boolean compares as its number does. -/
theorem coercedOrder_boolNumber (t : Bool) (b : Value) :
    (boolNumber t).coercedOrder b = (bool t).coercedOrder b ∧
      b.coercedOrder (boolNumber t) = b.coercedOrder (bool t) := by
  have left (c : Value) : (boolNumber t).primitiveOrder c = (bool t).primitiveOrder c := by
    cases c <;> rfl
  have right (c : Value) : c.primitiveOrder (boolNumber t) = c.primitiveOrder (bool t) := by
    cases c <;> rfl
  constructor
  · show (b.toPrimitive >>= fun c => (boolNumber t).primitiveOrder c) = _
    simp only [left]
    rfl
  · show (b.toPrimitive >>= fun c => c.primitiveOrder (boolNumber t)) = _
    simp only [right]
    rfl

theorem coercedOrder_bool (t u : Bool) :
    (bool t).coercedOrder (bool u) = .ok (some (cmp (t.toNat : Int) u.toNat)) := by
  have order : (bool t).coercedOrder (bool u) =
      (Number.int (if t then 1 else 0)).order? (.int (if u then 1 else 0)) := rfl
  rw [order, Number.order?_int]
  cases t <;> cases u <;> rfl

theorem looseEqualsWithin_bool (t u : Bool) (steps : Nat) :
    looseEqualsWithin (steps + 1) (bool t) (bool u) =
      ((bool t).coercedOrder (bool u)).map isEqual := by
  have step : looseStep (bool t) (bool u) =
      (Except.ok (t == u)) >>= fun equal => pure (.answer equal) := rfl
  rw [looseEqualsWithin_answer step, coercedOrder_bool]
  cases t <;> cases u <;> rfl

/-- A value that is present is a boolean, a number or a string, or an object. -/
theorem present_cases (present : a.isAbsent = false) :
    (∃ t, a = .bool t) ∨ a.IsPlain ∨ a.kind = .object := by
  cases a with
  | undefined => cases present
  | null => cases present
  | bool t => exact .inl ⟨t, rfl⟩
  | number x => exact .inr (.inl (.number x))
  | string s => exact .inr (.inl (.string s))
  | list id items => exact .inr (.inr rfl)
  | tuple id items => exact .inr (.inr rfl)
  | map id entries => exact .inr (.inr rfl)
  | foreign id thing => exact .inr (.inr rfl)

/-- A boolean is replaced by its number before anything else is converted. -/
theorem looseEqualsWithin_bool_left (t : Bool) (other : b.IsPlain ∨ b.kind = .object) (steps : Nat) :
    looseEqualsWithin (steps + 3) (bool t) b = ((bool t).coercedOrder b).map isEqual := by
  have step : looseStep (bool t) b =
      (Except.ok (boolNumber t)) >>= fun c => pure (.convert c b) := by
    rcases other with plain | object
    · cases plain <;> rfl
    · cases b <;> first | rfl | cases object
  rw [looseEqualsWithin_convert_left step, ← (coercedOrder_boolNumber t b).1]
  show looseEqualsWithin (steps + 2) (boolNumber t) b = _
  rcases other with plain | object
  · rw [looseEqualsWithin_plain (isPlain_boolNumber t) plain,
      coercedOrder_plain (isPlain_boolNumber t) plain]
  · exact looseEqualsWithin_object_right (isPlain_boolNumber t) object steps

theorem looseEqualsWithin_bool_right (other : a.IsPlain ∨ a.kind = .object) (t : Bool)
    (steps : Nat) :
    looseEqualsWithin (steps + 3) a (bool t) = (a.coercedOrder (bool t)).map isEqual := by
  have step : a.looseStep (bool t) =
      (Except.ok (boolNumber t)) >>= fun c => pure (.convert a c) := by
    rcases other with plain | object
    · cases plain <;> rfl
    · cases a <;> first | rfl | cases object
  rw [looseEqualsWithin_convert_right step, ← (coercedOrder_boolNumber t a).2]
  show looseEqualsWithin (steps + 2) a (boolNumber t) = _
  rcases other with plain | object
  · rw [looseEqualsWithin_plain plain (isPlain_boolNumber t),
      coercedOrder_plain plain (isPlain_boolNumber t)]
  · exact looseEqualsWithin_object_left object (isPlain_boolNumber t) steps

/-- Two values that are present and not both objects are loosely equal exactly if they compare as
equal once they are converted, and the comparison is refused for the same reason. -/
theorem looseEquals_eq_coercedOrder (presentA : a.isAbsent = false) (presentB : b.isAbsent = false)
    (notBoth : ¬(a.kind = .object ∧ b.kind = .object)) :
    a.looseEquals b = (a.coercedOrder b).map isEqual := by
  unfold looseEquals
  rcases present_cases presentA with ⟨t, rfl⟩ | plainA | objectA
  · rcases present_cases presentB with ⟨u, rfl⟩ | plainB | objectB
    · exact looseEqualsWithin_bool t u 2
    · exact looseEqualsWithin_bool_left t (.inl plainB) 0
    · exact looseEqualsWithin_bool_left t (.inr objectB) 0
  · rcases present_cases presentB with ⟨u, rfl⟩ | plainB | objectB
    · exact looseEqualsWithin_bool_right (.inl plainA) u 0
    · rw [looseEqualsWithin_plain plainA plainB, coercedOrder_plain plainA plainB]
    · exact looseEqualsWithin_object_right plainA objectB 1
  · rcases present_cases presentB with ⟨u, rfl⟩ | plainB | objectB
    · exact looseEqualsWithin_bool_right (.inr objectA) u 0
    · exact looseEqualsWithin_object_left objectA plainB 1
    · exact absurd ⟨objectA, objectB⟩ notBoth

/-! ## §3 The relational operators -/

/-- A number that compares with another one can be tested for NaN, and as NaN it has no order. -/
theorem isNaN_of_order? {x y : Number} {order : Option Ordering} (h : x.order? y = .ok order) :
    x.isNaN = .ok false ∨ x.isNaN = .ok true ∧ order = none := by
  obtain ⟨quietX, _, rfl⟩ := Number.order?_eq_ok_iff.mp h
  unfold Number.isNaN Number.equals
  cases value : x.value? with
  | some v =>
    rw [Number.order?_of_value value value, cmp_self_eq_eq]
    exact .inl rfl
  | none =>
    have unordered (e : Decimal) : x.exact.order? e = none :=
      Decimal.order?_of_no_value (.inl value)
    have self : x.order? x = .ok none :=
      Number.order?_eq_ok_iff.mpr ⟨quietX, quietX, (unordered _).symm⟩
    rw [self]
    exact .inr ⟨rfl, unordered _⟩

/-- Where two values compare, the relational operators look at how they do. -/
theorem relate_of_coercedOrder {order : Option Ordering} (h : a.coercedOrder b = .ok order)
    (operator : Operator) : a.relate operator b = order.elim (.ok false) operator.holds? := by
  obtain ⟨a', primitiveA, h⟩ := Except.bind_eq_ok.mp h
  obtain ⟨b', primitiveB, h⟩ := Except.bind_eq_ok.mp h
  unfold primitiveOrder at h
  unfold relate
  rw [primitiveA, primitiveB]
  show (match a', b' with | .string s, .string t => _ | _, _ => _) = _
  split at h
  · -- Two texts always have an order.
    cases h
    rfl
  · rename_i notTexts
    obtain ⟨x, readA, h⟩ := Except.bind_eq_ok.mp h
    obtain ⟨y, readB, h⟩ := Except.bind_eq_ok.mp h
    rw [readA, readB]
    -- The test for NaN comes first; a NaN has no order either way.
    show (x.isNaN >>= _) = _
    rcases isNaN_of_order? h with ordered | ⟨unordered, rfl⟩
    · rw [ordered]
      show (x.order? y >>= _) = _
      rw [h]
      cases order <;> rfl
    · rw [unordered]
      rfl

/-- **Loose equality and order agree.**  Whenever two values that are present and not both objects
are compared by loose equality, both relations answer as well, and the values are equal exactly if
each is at most the other. -/
theorem looseEquals_iff_relate {equal : Bool} (presentA : a.isAbsent = false)
    (presentB : b.isAbsent = false) (notBoth : ¬(a.kind = .object ∧ b.kind = .object))
    (h : a.looseEquals b = .ok equal) :
    ∃ atMost atLeast, a.relate .lessEqual b = .ok atMost ∧ a.relate .greaterEqual b = .ok atLeast ∧
      (equal = true ↔ atMost = true ∧ atLeast = true) := by
  rw [looseEquals_eq_coercedOrder presentA presentB notBoth] at h
  obtain ⟨order, compared, rfl⟩ := Except.map_eq_ok.mp h
  rw [relate_of_coercedOrder compared, relate_of_coercedOrder compared]
  cases order with
  | none => exact ⟨false, false, rfl, rfl, by simp [isEqual]⟩
  | some o => exact ⟨o != .gt, o != .lt, rfl, rfl, by cases o <;> simp [isEqual]⟩

/-- The text of an array is that of its elements joined by a comma. -/
theorem looseEquals_iff_relate_array :
    let a := Value.list (.given 0) [.string "a", .string "b"]
    a.looseEquals (.string "a,b") = .ok true ∧
      a.relate .lessEqual (.string "a,b") = .ok true ∧
      a.relate .greaterEqual (.string "a,b") = .ok true := by
  intro a
  have equal : a.looseEquals (.string "a,b") = .ok true := by cbv
  obtain ⟨atMost, atLeast, below, above, both⟩ :=
    looseEquals_iff_relate rfl rfl (by decide) equal
  obtain ⟨rfl, rfl⟩ := both.mp rfl
  exact ⟨equal, below, above⟩

end Value

end Visibility
