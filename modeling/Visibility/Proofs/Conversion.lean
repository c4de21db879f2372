import Visibility.Proofs.Overflow
import Visibility.Value.Equality
import Visibility.Value.Order

/-!
# Conversions that are refused

Which numbers have no text and which strings have no number, and why.  A number cannot be written if
it rounds to an infinity, a string cannot be read if it is a radix numeral that does, and a signaling
NaN can be neither written nor compared.

* `Number.text_eq_error`, `Number.isTruthy_eq_error` — numbers that cannot be written or compared
* `Number.isNumeric_text`, `isNumeric_json` — the characters that texts of numbers are made of
* `Number.noRadix_text` — the text of a number is never a radix numeral
* `Numeral.stringValue_eq_error` — strings without a number
-/

namespace Visibility

/-! ## §1 Sequences of conversions -/

namespace Except

variable {α β ε : Type} {cause : ε}

theorem bind_eq_error {x : Except ε α} {f : α → Except ε β} :
    (x >>= f) = .error cause ↔ x = .error cause ∨ ∃ a, x = .ok a ∧ f a = .error cause := by
  cases x with
  | error other =>
    show Except.error other = .error cause ↔ _
    simp
  | ok a =>
    show f a = .error cause ↔ _
    simp

theorem bind_eq_ok {x : Except ε α} {f : α → Except ε β} {b : β} :
    (x >>= f) = .ok b ↔ ∃ a, x = .ok a ∧ f a = .ok b := by
  cases x with
  | error other =>
    show Except.error other = .ok b ↔ _
    simp
  | ok a =>
    show f a = .ok b ↔ _
    simp

theorem map_eq_error {x : Except ε α} {f : α → β} :
    x.map f = .error cause ↔ x = .error cause := by
  cases x <;> simp [Except.map]

theorem map_eq_ok {x : Except ε α} {f : α → β} {b : β} :
    x.map f = .ok b ↔ ∃ a, x = .ok a ∧ f a = b := by
  cases x <;> simp [Except.map]

/-- What is done next with a changed result is changed in the same way as what was done before. -/
theorem map_bind_of_map {γ δ : Type} {x : Except ε α} {r : α → β} {s : γ → δ} {f : α → Except ε γ}
    {g : β → Except ε δ} (next : ∀ a, g (r a) = (f a).map s) :
    (x.map r >>= g) = (x >>= f).map s := by
  cases x with
  | error other => rfl
  | ok a => exact next a

theorem bind_of_map {γ δ : Type} {x : Except ε α} {s : γ → δ} {f : α → Except ε γ}
    {g : α → Except ε δ} (next : ∀ a, g a = (f a).map s) : (x >>= g) = (x >>= f).map s := by
  cases x with
  | error other => rfl
  | ok a => exact next a

/-- A list of conversions fails at the first one that does. -/
theorem mapM_eq_error {f : α → Except ε β} {as : List α} :
    as.mapM f = .error cause ↔ ∃ before a after, as = before ++ a :: after ∧
      (∀ b ∈ before, ∃ c, f b = .ok c) ∧ f a = .error cause := by
  induction as with
  | nil =>
    rw [List.mapM_nil]
    constructor
    · intro h
      cases h
    · rintro ⟨before, a, after, same, _⟩
      simp at same
  | cons a as ih =>
    rw [List.mapM_cons, bind_eq_error]
    constructor
    · -- The first conversion fails, or it does not and the others do.
      rintro (first | ⟨c, converted, rest⟩)
      · exact ⟨[], a, as, rfl, by simp, first⟩
      · rw [bind_eq_error, ih] at rest
        rcases rest with ⟨before, b, after, rfl, all, failed⟩ | ⟨_, _, impossible⟩
        · refine ⟨a :: before, b, after, rfl, ?_, failed⟩
          exact List.forall_mem_cons.mpr ⟨⟨c, converted⟩, all⟩
        · cases impossible
    · rintro ⟨before, b, after, same, all, failed⟩
      cases before with
      | nil =>
        obtain ⟨rfl, rfl⟩ := List.cons.inj same
        exact .inl failed
      | cons b' before =>
        obtain ⟨rfl, rfl⟩ := List.cons.inj same
        have ⟨⟨c, converted⟩, others⟩ := List.forall_mem_cons.mp all
        refine .inr ⟨c, converted, ?_⟩
        rw [bind_eq_error, ih]
        exact .inl ⟨before, b, after, rfl, others, failed⟩

theorem mapM_cons_eq_ok {f : α → Except ε β} {a : α} {as : List α} {bs : List β} :
    (a :: as).mapM f = .ok bs ↔ ∃ b cs, f a = .ok b ∧ as.mapM f = .ok cs ∧ b :: cs = bs := by
  rw [List.mapM_cons, bind_eq_ok]
  constructor
  · rintro ⟨b, first, rest⟩
    obtain ⟨cs, others, same⟩ := bind_eq_ok.mp rest
    exact ⟨b, cs, first, others, Except.ok.inj same⟩
  · rintro ⟨b, cs, first, others, rfl⟩
    exact ⟨b, first, bind_eq_ok.mpr ⟨cs, others, rfl⟩⟩

/-- If a list of conversions has a result, each of them has one. -/
theorem exists_of_mapM {f : α → Except ε β} {as : List α} {bs : List β}
    (h : as.mapM f = .ok bs) : ∀ a ∈ as, ∃ b, f a = .ok b := by
  induction as generalizing bs with
  | nil => exact List.forall_mem_nil _
  | cons a as ih =>
    obtain ⟨b, cs, first, others, -⟩ := mapM_cons_eq_ok.mp h
    exact List.forall_mem_cons.mpr ⟨⟨b, first⟩, ih others⟩

/-- The results of a list of conversions are results of its elements. -/
theorem of_mem_mapM {f : α → Except ε β} {as : List α} {bs : List β}
    (h : as.mapM f = .ok bs) : ∀ b ∈ bs, ∃ a ∈ as, f a = .ok b := by
  induction as generalizing bs with
  | nil =>
    cases h
    exact List.forall_mem_nil _
  | cons a as ih =>
    obtain ⟨b, cs, first, others, rfl⟩ := mapM_cons_eq_ok.mp h
    refine List.forall_mem_cons.mpr ⟨⟨a, List.mem_cons_self, first⟩, fun c mem => ?_⟩
    obtain ⟨d, inside, converted⟩ := ih others c mem
    exact ⟨d, List.mem_cons_of_mem _ inside, converted⟩

/-- There are as many results as conversions. -/
theorem length_of_mapM {f : α → Except ε β} {as : List α} {bs : List β}
    (h : as.mapM f = .ok bs) :
    bs.length = as.length := by
  induction as generalizing bs with
  | nil =>
    cases h
    rfl
  | cons a as ih =>
    obtain ⟨b, cs, -, others, rfl⟩ := mapM_cons_eq_ok.mp h
    rw [List.length_cons, List.length_cons, ih others]

/-- Conversions of several lists give the lists of results. -/
theorem mapM_flatMap {γ : Type} (f : β → Except ε γ) (g : α → List β) (as : List α) :
    (as.flatMap g).mapM f = (as.mapM fun a => (g a).mapM f).map List.flatten := by
  induction as with
  | nil => rfl
  | cons a as ih =>
    rw [List.flatMap_cons, List.mapM_append, List.mapM_cons, ih]
    cases (g a).mapM f with
    | error cause => rfl
    | ok bs =>
      show (Except.map List.flatten (as.mapM fun a => (g a).mapM f) >>= _) = _
      cases as.mapM fun a => (g a).mapM f <;> rfl

end Except

/-! ## §2 Numbers -/

namespace Number

/-- A number without a text, and why. -/
inductive Unwritable : Number → CoercionError → Prop where
  | int {n : Int} : Double.overflowStart ≤ n.natAbs → Unwritable (.int n) .integerTooLarge
  | decimal {x : Scientific} : x.Overflows → Unwritable (.decimal (.finite x)) .decimalTooLarge
  | signaling {negative : Bool} {payload : Nat} :
      Unwritable (.decimal (.nan negative true payload)) .signalingNaN

variable {x y : Number} {cause : CoercionError}

theorem text_eq_error : x.text = .error cause ↔ x.Unwritable cause := by
  cases x with
  | double x => exact ⟨nofun, nofun⟩
  | int n =>
    rw [text, Except.bind_eq_error, Double.refuseInfinite_eq_error, Double.isInfinite_ofInt]
    constructor
    · rintro (⟨large, rfl⟩ | ⟨_, _, impossible⟩)
      · exact .int large
      · cases impossible
    · rintro (large | _)
      exact .inl ⟨large, rfl⟩
  | decimal d =>
    cases d with
    | infinite negative => exact ⟨nofun, nofun⟩
    | nan negative signaling payload =>
      cases signaling with
      | false => exact ⟨nofun, nofun⟩
      | true =>
        constructor
        · intro h
          cases h
          exact .signaling
        · intro h
          cases h
          rfl
    | finite value =>
      rw [text]
      -- Zero is written as it stands; other decimals are rounded before.
      split
      · rename_i zeroed
        refine ⟨nofun, fun h => ?_⟩
        cases h with
        | decimal large => exact absurd zeroed large.nonzero
      · rw [Except.bind_eq_error, Double.refuseInfinite_eq_error, Double.isInfinite_ofScientific]
        constructor
        · rintro (⟨large, rfl⟩ | ⟨_, _, impossible⟩)
          · exact .decimal large
          · split at impossible <;> cases impossible
        · intro h
          cases h with
          | decimal large => exact .inl ⟨large, rfl⟩

theorem order?_eq_error :
    x.order? y = .error cause ↔
      (x.exact.isSignaling ∨ y.exact.isSignaling) ∧ cause = .signalingNaN := by
  rw [order?, ← Bool.or_eq_true]
  split
  · rename_i signaling
    rw [Except.error.injEq, and_iff_right signaling, eq_comm]
  · rename_i quiet
    simp only [reduceCtorEq, quiet, false_and]

theorem equals_eq_error :
    x.equals y = .error cause ↔
      (x.exact.isSignaling ∨ y.exact.isSignaling) ∧ cause = .signalingNaN := by
  rw [equals, Except.map_eq_error, order?_eq_error]

theorem isNaN_eq_error :
    x.isNaN = .error cause ↔ x.exact.isSignaling ∧ cause = .signalingNaN := by
  rw [isNaN, Except.map_eq_error, equals_eq_error, or_self]

theorem isTruthy_eq_error :
    x.isTruthy = .error cause ↔ x.exact.isSignaling ∧ cause = .signalingNaN := by
  unfold isTruthy
  have whole : (Number.int 0).exact.isSignaling = false := rfl
  rw [Except.bind_eq_error, equals_eq_error, whole]
  constructor
  · rintro (refused | ⟨zero, _, refused⟩)
    · simpa using refused
    · cases zero with
      | true => cases refused
      | false =>
        simp only [Bool.false_eq_true, if_false, Except.bind_eq_error, isNaN_eq_error] at refused
        rcases refused with refused | ⟨_, _, impossible⟩
        · exact refused
        · cases impossible
  · intro refused
    exact .inl (by simpa using refused)

end Number

/-! ## §3 The characters of number texts -/

/-- A character that texts of numbers are made of. -/
def IsNumeric (c : Char) : Prop :=
  c.isDigit = true ∨ c ∈ "+-.eINafinty".toList

theorem isNumeric_digitsOf (n : Nat) : ∀ c ∈ digitsOf n, IsNumeric c :=
  fun _ mem => .inl (Nat.isDigit_of_mem_toDigits (by decide) (by decide) mem)

theorem isNumeric_replicate (n : Nat) : ∀ c ∈ List.replicate n '0', IsNumeric c := by
  intro c mem
  obtain rfl := List.eq_of_mem_replicate mem
  exact .inl rfl

theorem isNumeric_signChars (negative : Bool) : ∀ c ∈ signChars negative, IsNumeric c := by
  cases negative <;> simp [signChars, IsNumeric]

/-- A whole number is written by its digits, behind a minus sign if it is below zero. -/
theorem toList_repr (n : Int) : n.repr.toList = signChars (n < 0) ++ digitsOf n.natAbs := by
  cases n with
  | ofNat n =>
    have positive : ¬(Int.ofNat n < 0) := Int.not_lt.mpr (Int.natCast_nonneg n)
    rw [decide_eq_false positive, Int.repr, Nat.repr_eq_ofList_toDigits, String.toList_ofList]
    rfl
  | negSucc n =>
    rw [decide_eq_true (Int.negSucc_lt_zero n), Int.repr, Nat.repr_eq_ofList_toDigits,
      String.toList_append, String.toList_ofList, String.toList_ofList]
    rfl

theorem isNumeric_repr (n : Int) : ∀ c ∈ n.repr.toList, IsNumeric c := by
  rw [toList_repr, List.forall_mem_append]
  exact ⟨isNumeric_signChars _, isNumeric_digitsOf _⟩

theorem isNumeric_placePoint {digits : List Char} (numeric : ∀ c ∈ digits, IsNumeric c)
    (point : Int) : ∀ c ∈ placePoint digits point, IsNumeric c := by
  unfold placePoint
  split
  · simp only [List.forall_mem_cons, List.forall_mem_append]
    exact ⟨.inl rfl, .inr (by decide), isNumeric_replicate _, numeric⟩
  · split
    · rw [List.forall_mem_append]
      exact ⟨numeric, isNumeric_replicate _⟩
    · simp only [List.forall_mem_append, List.forall_mem_cons]
      exact ⟨fun c mem => numeric c (List.mem_of_mem_take mem), .inr (by decide),
        fun c mem => numeric c (List.mem_of_mem_drop mem)⟩

theorem isNumeric_leadingPoint {digits : List Char} (numeric : ∀ c ∈ digits, IsNumeric c) :
    ∀ c ∈ leadingPoint digits, IsNumeric c := by
  unfold leadingPoint
  split
  · exact numeric
  · exact numeric
  · rename_i d ds _
    have ⟨first, others⟩ := List.forall_mem_cons.mp numeric
    simp only [List.forall_mem_cons]
    exact ⟨first, .inr (by decide), others⟩

theorem isNumeric_signedExponent (width : Nat) (exponent : Int) :
    ∀ c ∈ signedExponent width exponent, IsNumeric c := by
  unfold signedExponent
  simp only [List.forall_mem_cons, List.forall_mem_append]
  refine ⟨?_, isNumeric_replicate _, isNumeric_digitsOf _⟩
  split <;> exact .inr (by decide)

theorem isNumeric_positive {layout : Layout} (suffix : ∀ c ∈ layout.wholeSuffix, IsNumeric c)
    (x : Scientific) : ∀ c ∈ layout.positive x, IsNumeric c := by
  unfold Layout.positive
  dsimp only
  split
  · rw [List.forall_mem_append]
    refine ⟨isNumeric_placePoint (isNumeric_digitsOf _) _, ?_⟩
    split
    · exact suffix
    · exact fun _ mem => nomatch mem
  · simp only [List.forall_mem_append, List.forall_mem_cons]
    exact ⟨isNumeric_leadingPoint (isNumeric_digitsOf _), .inr (by decide),
      isNumeric_signedExponent _ _⟩

/-- A double is written with such characters if the layout adds no others. -/
theorem isNumeric_write {layout : Layout} (suffix : ∀ c ∈ layout.wholeSuffix, IsNumeric c)
    (zero : ∀ negative, ∀ c ∈ layout.zero negative, IsNumeric c) (x : Double) :
    ∀ c ∈ (layout.write x).toList, IsNumeric c := by
  unfold Layout.write
  split
  · simp [IsNumeric]
  · simp [IsNumeric]
  · simp [IsNumeric]
  · rw [String.toList_ofList]
    split
    · exact zero _
    · rw [List.forall_mem_append]
      exact ⟨isNumeric_signChars _, isNumeric_positive suffix _⟩

theorem isNumeric_condition (x : Double) :
    ∀ c ∈ (Layout.condition.write x).toList, IsNumeric c :=
  isNumeric_write (List.forall_mem_nil _) (fun _ => by simp [Layout.condition, IsNumeric]) x

theorem isNumeric_json (x : Double) : ∀ c ∈ (Layout.json.write x).toList, IsNumeric c := by
  refine isNumeric_write (by simp [Layout.json, IsNumeric]) (fun negative => ?_) x
  simp only [Layout.json, List.forall_mem_append]
  exact ⟨isNumeric_signChars negative, by simp [IsNumeric]⟩

theorem Number.isNumeric_text {x : Number} {s : String} (h : x.text = .ok s) :
    ∀ c ∈ s.toList, IsNumeric c := by
  unfold Number.text at h
  -- A number has a fixed text, or it is written like a double.
  split at h
  · cases h
    exact isNumeric_condition _
  · obtain ⟨rounded, _, same⟩ := Except.bind_eq_ok.mp h
    cases same
    exact isNumeric_condition rounded
  · cases h
  · cases h
    simp [IsNumeric]
  · cases h
    exact isNumeric_condition _
  · split at h
    · cases h
      simp [IsNumeric]
    · obtain ⟨rounded, _, same⟩ := Except.bind_eq_ok.mp h
      split at same
      · cases same
        rw [String.toList_ofList, List.forall_mem_append]
        exact ⟨isNumeric_signChars _, by simp [IsNumeric]⟩
      · cases same
        exact isNumeric_condition rounded

/-- The character is no letter of a radix numeral. -/
def NoRadix (c : Char) : Prop :=
  Numeral.radix? c = none

theorem IsNumeric.noRadix {c : Char} (h : IsNumeric c) : NoRadix c := by
  unfold NoRadix Numeral.radix?
  split <;> first | rfl | simp [IsNumeric] at h

/-- No text of a number has a letter of a radix numeral. -/
theorem Number.noRadix_text {x : Number} {s : String} (h : x.text = .ok s) :
    ∀ c ∈ s.toList, NoRadix c :=
  fun c mem => (isNumeric_text h c mem).noRadix

/-! ## §4 Strings without a number -/

namespace Numeral

/-- The text is a radix numeral whose number rounds to an infinity. -/
def TooLarge (s : String) : Prop :=
  ∃ n, radixNumeral? (Text.trimSpaces s.toList) = some n ∧ Double.overflowStart ≤ n

theorem radixNumeral?_eq_some {cs : List Char} {n : Nat} (h : radixNumeral? cs = some n) :
    ∃ letter digits base isBaseDigit, cs = '0' :: letter :: digits ∧
      radix? letter = some (base, isBaseDigit) ∧ digits.all isBaseDigit := by
  unfold radixNumeral? at h
  split at h
  · rename_i letter digits
    obtain ⟨⟨base, isBaseDigit⟩, known, rest⟩ := Option.bind_eq_some_iff.mp h
    simp only [Option.ite_none_right_eq_some] at rest
    exact ⟨letter, digits, base, isBaseDigit, rfl, known, rest.1.2⟩
  · cases h

theorem stringValue_eq_error {s : String} {cause : CoercionError} :
    stringValue s = .error cause ↔ TooLarge s ∧ cause = .integerTooLarge := by
  unfold stringValue TooLarge trimmedValue
  generalize Text.trimSpaces s.toList = cs
  cases radix : radixNumeral? cs with
  | none =>
    -- Whatever form the text has, it has a number.
    simp only [reduceCtorEq, false_and, exists_false, iff_false]
    split
    · exact nofun
    · split
      · exact nofun
      · split <;> exact nofun
  | some n =>
    obtain ⟨letter, digits, base, isBaseDigit, rfl, _, _⟩ := radixNumeral?_eq_some radix
    have notWord (word : List Char) (first : word.head? ≠ some '0') :
        '0' :: letter :: digits ≠ word := by
      rintro rfl
      exact first rfl
    have notEmpty := notWord [] (by decide)
    have notInfinity := notWord "Infinity".toList (by decide)
    have notSigned := notWord "+Infinity".toList (by decide)
    have notNegative := notWord "-Infinity".toList (by decide)
    simp only [notEmpty, notInfinity, notSigned, notNegative, or_self, if_false,
      Double.refuseInfinite_eq_error, Double.isInfinite_ofInt, Int.natAbs_natCast,
      Option.some.injEq, exists_eq_left']

end Numeral

end Visibility
