import Visibility.Proofs.CorrectRounding
import Visibility.Proofs.Json.Document
import Visibility.Proofs.RoundedText

/-!
# Shown values are read back

There are two writers.  Values that are no numbers are shown as documents, and these are read back
exactly, whatever is in them.  A number that stands alone is shown by its text in condition code,
which is that of the nearest double: it is read back as a number of the same double.

The two agree on a number that is a double and has all its digits written.  Up to two to the power
of 53 every whole number is a double, and the shortest digits of a whole double are all its digits.
From `10 ^ 21` on there is an exponent, so that a double is read.  In between, zeros stand in the
place of digits that are not needed to tell the double from others.

* `Json.ReadAs`, `Json.number?_condition` — what a double is read as from its text in condition code
* `Number.Plain` — the numbers whose text says their value
* `Value.displayed_iff` — which values that are no numbers are shown
* `Value.display_readsBack` — all of it, with what two values of one text have in common
-/

namespace Visibility

/-! ## §1 Whole numbers that are doubles -/

namespace Double

variable {negative : Bool} {units : Nat}

theorem representable_of_le {n : Nat} (small : n ≤ significandLimit) :
    Representable (n * unitsPerOne) := by
  have below : n * unitsPerOne < unitLimit := by
    have room : significandLimit * unitsPerOne < unitLimit := by decide +kernel
    exact (Nat.mul_le_mul_right _ small).trans_lt room
  rcases small.lt_or_eq with less | rfl
  · exact ⟨below, n, unitPlaces, less, rfl⟩
  · exact ⟨below, 1, 53 + unitPlaces, by decide +kernel, by decide +kernel⟩

/-- The units of two to the power of 53. -/
def fullUnits : Nat := significandLimit * unitsPerOne

theorem representable_full : Representable fullUnits := representable_of_le (Nat.le_refl _)

theorem shortest_full : shortest fullUnits = ⟨false, significandLimit, 0⟩ := by
  have digits : digitCount (fullUnits * unitDigits) = 1090 :=
    digitCount_eq (by decide +kernel) (by decide +kernel)
  exact shortest_of_search digits (by decide +kernel) (by decide +kernel)

/-- Up to there the shortest decimals are no larger, either. -/
theorem size_shortest_le (representable : Representable units) (nonzero : units ≠ 0)
    (small : (finite negative units representable).size ≤ (significandLimit : Nat)) :
    (shortest units).size ≤ (significandLimit : Nat) := by
  have positive : (0 : ℚ) < (unitsPerOne : Nat) := Nat.cast_pos.mpr (twoPow_pos _)
  have decimal : (shortest fullUnits).size = (significandLimit : Nat) := by
    rw [shortest_full]
    exact mul_one _
  have le : units ≤ fullUnits := by
    rw [size_finite, div_le_iff₀ positive] at small
    exact_mod_cast small
  -- The shortest decimals are in the order of their doubles.
  rw [← decimal, ← not_lt, size_shortest_lt_iff representable_full (by decide +kernel) representable
    nonzero]
  exact not_lt.mpr le

end Double

namespace Number

/-- A whole number up to two to the power of 53 has the value of its double. -/
theorem value?_ofInt {n : Int} (small : n.natAbs ≤ Double.significandLimit) :
    (double (.ofInt n)).value? = some (.ofRat n) := by
  have nonzero : ((Double.unitsPerOne : Nat) : ℚ) ≠ 0 := Nat.cast_ne_zero.mpr (twoPow_pos _).ne'
  rw [Double.ofInt_of_representable (Double.representable_of_le small), value?_finite,
    Double.toRat_unitsValue, Nat.cast_mul, mul_div_cancel_right₀ _ nonzero, Nat.cast_natAbs,
    Int.cast_abs]
  by_cases negative : n < 0
  · have below : (n : ℚ) < 0 := Int.cast_lt_zero.mpr negative
    simp [negative, abs_of_neg below]
  · have above : (0 : ℚ) ≤ n := Int.cast_nonneg (not_lt.mp negative)
    simp [negative, abs_of_nonneg above]

theorem abs_eq_size {y : Double} {q : ℚ} (value : (double y).value? = some (.ofRat q)) :
    |q| = y.size := by
  cases y with
  | nan => cases value
  | infinite negative => cases negative <;> cases value
  | finite s units representable =>
    have same : (Double.unitsValue s units).toRat = q :=
      ExactValue.ofRat_strictMono.injective (Option.some.inj value)
    rw [← same, Scientific.abs_toRat]
    rfl

end Number

/-! ## §2 The text of a double in condition code -/

namespace Json

open Numeral (Parts)

/-- What a double is read as: the double itself or, below `10 ^ 21`, a whole number of this double,
and of its value if all the digits are written. -/
inductive ReadAs (y : Double) : Number → Prop where
  | double : ReadAs y (.double y)
  | whole {m : Int} : y.size < 10 ^ (21 : Int) →
      (Number.double (.ofInt m)).equals (.double y) = .ok true →
      (y.size ≤ (Double.significandLimit : Nat) → (Number.int m).equals (.double y) = .ok true) →
      ReadAs y (.int m)

/-- A zero is written without a sign and read as the whole number zero. -/
theorem readAs_zero (negative : Bool) (representable : Double.Representable 0) :
    ReadAs (.finite negative 0 representable) (.int 0) := by
  have value : (Number.double (.finite negative 0 representable)).value? =
      some (.ofRat (0 : Int)) := by
    rw [Number.value?_finite, Double.toRat_unitsValue_zero, Int.cast_zero]
  apply ReadAs.whole
  · rw [Double.size_finite, Nat.cast_zero, zero_div]
    exact Scientific.ten_zpow_pos 21
  · exact Number.equals_of_value (Number.value?_ofInt (Nat.zero_le _)) value
  · exact fun _ => Number.equals_of_value (Number.value?_int 0) value

theorem toRat_of_whole {p : Parts} (negative : Bool) (whole : p.places = [] ∧ p.exponent = none) :
    (p.value negative).toRat =
      ((if negative then -ofDigits 10 p.whole else ofDigits 10 p.whole : Int) : ℚ) := by
  obtain ⟨noPlaces, noExponent⟩ := whole
  unfold Parts.value Scientific.toRat Scientific.size
  rw [noPlaces, noExponent]
  cases negative <;> simp

/-- Digits alone are a whole number of the size of the shortest decimal. -/
theorem readAs_whole {negative : Bool} {units : Nat} (representable : Double.Representable units)
    (nonzero : units ≠ 0) {p : Parts}
    (size : (p.value negative).size = (Double.shortest units).size)
    (bounded : (Double.shortest units).size < 10 ^ (21 : Int))
    (whole : p.places = [] ∧ p.exponent = none) :
    ReadAs (.finite negative units representable)
      (.int (if negative then -ofDigits 10 p.whole else ofDigits 10 p.whole)) := by
  have value := toRat_of_whole negative whole
  generalize (if negative then -ofDigits 10 p.whole else ofDigits 10 p.whole : Int) = m at value ⊢
  have coefficient : (p.value negative).coefficient ≠ 0 := by
    rw [ne_eq, ← Scientific.size_eq_zero, size, Scientific.size_eq_zero]
    exact Double.shortest_ne_zero representable nonzero
  have same : Double.ofInt m = .finite negative units representable := by
    rw [Double.ofInt_eq_ofRat, ← value, ← Double.ofScientific_eq_ofRat coefficient]
    exact Double.ofScientific_of_size representable nonzero size
  apply ReadAs.whole
  · rw [← not_le] at bounded ⊢
    rwa [← Double.le_size_shortest_sextillion negative representable nonzero]
  · rw [same]
    exact Number.equals_of_value rfl rfl
  · -- Two whole numbers of one double are the same number up to two to the power of 53.
    intro small
    have le := Double.size_shortest_le representable nonzero small
    rw [← size, ← Scientific.abs_toRat, value, ← Int.cast_abs, ← Nat.cast_natAbs] at le
    have exact := Number.value?_ofInt (n := m) (by exact_mod_cast le)
    rw [same] at exact
    exact Number.equals_of_value (Number.value?_int m) exact

/-- In condition code a double is written as a numeral that is read as the double or as a whole
number of it. -/
theorem number?_condition (negative : Bool) {units : Nat}
    (representable : Double.Representable units) :
    ∃ r, number? (Layout.condition.write (.finite negative units representable)).toList = some r ∧
      ReadAs (.finite negative units representable) r := by
  by_cases zero : units = 0
  · subst zero
    refine ⟨.int 0, ?_, readAs_zero negative representable⟩
    unfold Layout.write
    dsimp only
    rw [if_pos rfl, String.toList_ofList]
    rfl
  · have laid := Layout.laid_parts Layout.zeroSuffix_condition (Double.shortest units)
    have nonzero := Double.shortest_ne_zero representable zero
    rw [toList_write negative representable Layout.zeroSuffix_condition zero,
      number?_chars laid.proper (laid.leading nonzero)]
    refine ⟨_, rfl, ?_⟩
    unfold numberOf
    split
    · rename_i whole
      -- Without an exponent the number is in the range that is written in place.
      have bounded : (Double.shortest units).size < 10 ^ (21 : Int) := by
        have inPlace := mt (Layout.exponent_condition nonzero).mpr (by rw [whole.2]; simp)
        exact not_le.mp (not_or.mp inPlace).2
      exact readAs_whole representable zero (laid.size negative) bounded whole
    · rw [Double.ofScientific_of_size representable zero (laid.size negative)]
      exact .double

end Json

/-! ## §3 Numbers -/

/-- The number has the value of its double, and its text says this value. -/
inductive Number.Plain (x : Number) : Prop where
  /-- Up to two to the power of 53 every whole number is a double, with all its digits. -/
  | small {q : ℚ} : x.value? = some (.ofRat q) → |q| ≤ (Double.significandLimit : Nat) → Plain x
  /-- From `10 ^ 21` on a double has an exponent. -/
  | large {q : ℚ} : x.value? = some (.ofRat q) → 10 ^ (21 : Int) ≤ |q| →
      (double x.toDouble).value? = some (.ofRat q) → Plain x

namespace Value

section Numbers

variable {x r : Number} {j : Json}

theorem content_number (content : (number x).Content j) : j = .number x ∧
    ((∃ n, x = .int n) ∨ ∃ s units representable, x = .double (.finite s units representable)) := by
  cases content with
  | int n => exact ⟨rfl, .inl ⟨n, rfl⟩⟩
  | double s units representable => exact ⟨rfl, .inr ⟨s, units, representable, rfl⟩⟩

/-- The double of a number is finite unless it is an infinity. -/
theorem finite_of_bounded (content : (number x).Content j)
    (bounded : x.toDouble.isInfinite = false) :
    ∃ negative units representable, x.toDouble = .finite negative units representable := by
  obtain ⟨-, ⟨n, rfl⟩ | ⟨s, units, representable, rfl⟩⟩ := content_number content
  · rcases Double.ofQuotient_cases (n < 0) n.natAbs 1 with infinite | ⟨representable, finite⟩
    · have same : (Number.int n).toDouble = .infinite (n < 0) := infinite
      rw [same] at bounded
      cases bounded
    · exact ⟨_, _, representable, finite⟩
  · exact ⟨s, units, representable, rfl⟩

theorem value?_of_plain (content : (number x).Content j) (plain : x.Plain) :
    ∃ q, x.value? = some (.ofRat q) ∧ (Number.double x.toDouble).value? = some (.ofRat q) ∧
      (|q| ≤ (Double.significandLimit : Nat) ∨ 10 ^ (21 : Int) ≤ |q|) := by
  cases plain with
  | large value reached double => exact ⟨_, value, double, .inr reached⟩
  | @small q value le =>
    refine ⟨q, value, ?_, .inl le⟩
    obtain ⟨-, ⟨n, rfl⟩ | ⟨s, units, representable, rfl⟩⟩ := content_number content
    · obtain rfl : (n : ℚ) = q := by
        rw [Number.value?_int] at value
        exact ExactValue.ofRat_strictMono.injective (Option.some.inj value)
      rw [← Int.cast_abs, ← Nat.cast_natAbs] at le
      exact Number.value?_ofInt (by exact_mod_cast le)
    · exact value

/-- What the double of a plain number is read as is equal to the number. -/
theorem equals_of_plain (content : (number x).Content j) (plain : x.Plain)
    (read : Json.ReadAs x.toDouble r) : r.equals x = .ok true := by
  obtain ⟨q, value, double, bounds⟩ := value?_of_plain content plain
  have size := Number.abs_eq_size double
  cases read with
  | double => exact Number.equals_of_value double value
  | whole bounded _ exact =>
    rw [← size] at bounded exact
    rcases bounds with small | large
    · obtain ⟨w, valueR, valueY⟩ := Number.equals_eq_true_iff.mp (exact small)
      rw [double] at valueY
      cases valueY
      exact Number.equals_of_value valueR value
    · exact absurd bounded (not_lt.mpr large)

/-- A number is shown by the text of its double. -/
theorem display_of_bounded (content : (number x).Content j)
    (bounded : x.toDouble.isInfinite = false) :
    (number x).display = .ok (Layout.condition.write x.toDouble) := by
  have text : x.text = .ok (Layout.condition.write x.toDouble) := by
    obtain ⟨-, ⟨n, rfl⟩ | ⟨s, units, representable, rfl⟩⟩ := content_number content
    · exact Number.text_of_not_vanishes rfl bounded nofun
    · rfl
  rw [display_number, text]

/-- There is none for an infinity. -/
theorem display_of_infinite (content : (number x).Content j)
    (infinite : x.toDouble.isInfinite = true) :
    (number x).display = .error (.coercion .integerTooLarge) := by
  obtain ⟨-, ⟨n, rfl⟩ | ⟨s, units, representable, rfl⟩⟩ := content_number content
  · have refused := Number.text_eq_error.mpr (.int (Double.isInfinite_ofInt.mp infinite))
    rw [display_number, refused]
  · cases infinite

theorem read_number (content : (number x).Content j) (bounded : x.toDouble.isInfinite = false) :
    ∃ text r, (number x).display = .ok text ∧ Json.read text = some (.number r) ∧
      (Number.double r.toDouble).equals (.double x.toDouble) = .ok true ∧
      (x.Plain → r.equals x = .ok true) := by
  obtain ⟨negative, units, representable, same⟩ := finite_of_bounded content bounded
  obtain ⟨r, read, readAs⟩ := Json.number?_condition negative representable
  have numeric := isNumeric_condition (.finite negative units representable)
  have shown := display_of_bounded content bounded
  rw [same] at shown ⊢
  refine ⟨_, r, shown, Json.read_of_takes (Display.takes_numeral numeric read), ?_, ?_⟩
  · cases readAs with
    | double => exact Number.equals_of_value rfl rfl
    | whole _ rounded _ => exact rounded
  · intro plain
    rw [← same] at readAs
    exact equals_of_plain content plain readAs

end Numbers

/-! ## §4 Documents -/

section Documents

variable {v w part : Value} {j k : Json} {x : Number} {text : String}

/-- Nothing in the value stands in the way of its document. -/
structure Showable (v : Value) : Prop where
  ends : v.isEndless [] = false
  shallow : ∀ part, Lies part Display.depth v → ¬part.HasParts
  short : ∀ m n, Lies (.number (.int m)) n v → Numeral.isTooLong m = false

/-- Nothing but the value itself lies within a value without parts. -/
theorem Lies.of_leaf {n : Nat} (leaf : ¬v.HasParts) (lies : Lies part n v) : n = 0 ∧ part = v := by
  cases lies with
  | here => exact ⟨rfl, rfl⟩
  | item elements =>
    refine absurd (.inl ?_) leaf
    rw [isArray, elements]
    rfl
  | entry => exact absurd (.inr rfl) leaf

theorem showable_of_display (notNumber : v.kind ≠ .number) (shown : v.display = .ok text) :
    v.Showable := by
  have fine (cause) : ¬v.Unshowable cause := by
    intro wrong
    obtain ⟨_, refused⟩ := not_displayed wrong
    rw [shown] at refused
    cases refused
  refine ⟨?_, ?_, ?_⟩
  · exact Bool.eq_false_iff.mpr fun endless => fine _ (.endless endless)
  · exact fun part lies parts => fine _ (.deep lies parts)
  · intro m n lies
    by_cases parts : v.HasParts
    · exact Bool.eq_false_iff.mpr fun long => fine _ (.flaw parts.kind lies (.tooLong long))
    · -- The whole number would be the value itself.
      obtain ⟨-, rfl⟩ := lies.of_leaf parts
      exact absurd rfl notNumber

/-- The keys of a mapping that has a content are no reason to refuse it. -/
theorem not_unshowable (content : v.Content j) (notNumber : v.kind ≠ .number)
    (showable : v.Showable) (cause : DisplayError) : ¬v.Unshowable cause := by
  intro wrong
  cases wrong with
  | number same =>
    subst same
    exact notNumber rfl
  | endless endless =>
    rw [showable.ends] at endless
    cases endless
  | deep lies parts => exact showable.shallow _ lies parts
  -- A flaw is a long whole number or a key that is no string, and a content has neither.
  | flaw _ lies flaw =>
    cases flaw with
    | tooLong long =>
      rw [showable.short _ _ lies] at long
      cases long
    | key mem flaw =>
      obtain ⟨k, inner⟩ := content.within lies
      cases inner with
      | map id entries _ =>
        obtain ⟨⟨name, same⟩, -⟩ := entries.of_mem _ mem
        dsimp only at same
        subst same
        cases flaw with
        | object isObject => cases isObject

/-- A value that has a content and is no number is shown exactly if its document can be written. -/
theorem displayed_iff (content : v.Content j) (notNumber : v.kind ≠ .number) :
    (∃ text, v.display = .ok text) ↔ v.Showable := by
  constructor
  · rintro ⟨text, shown⟩
    exact showable_of_display notNumber shown
  · intro showable
    cases shown : v.display with
    | ok text => exact ⟨text, rfl⟩
    | error cause =>
      exact absurd (display_eq_error shown) (not_unshowable content notNumber showable cause)

/-- What is shown of it is read back as its content. -/
theorem read_display (content : v.Content j) (notNumber : v.kind ≠ .number)
    (shown : v.display = .ok text) : Json.read text = some j := by
  have document : Display.jsonWithin Display.depth v = .ok text := by
    by_cases document : v.kind = .object ∨ v.kind = .string
    · rw [display_document document] at shown
      split at shown
      · cases shown
      · exact shown
    · -- The texts of the three words are their documents.
      rw [display_text document] at shown
      cases content with
      | null | bool b =>
        cases shown
        rfl
      | int | double => exact absurd rfl notNumber
      | string => exact absurd (.inr rfl) document
      | list | tuple | map => exact absurd (.inl rfl) document
  exact Json.read_of_takes (Display.takes_jsonWithin document content (Nat.lt_succ_self _))

theorem isTooLong_of_bounded {m : Int} (bounded : (Double.ofInt m).isInfinite = false) :
    Numeral.isTooLong m = false := by
  have room : Double.overflowStart ≤ tenPow Numeral.maxDigits := by decide +kernel
  rw [Bool.eq_false_iff] at bounded ⊢
  intro long
  exact bounded (Double.isInfinite_ofInt.mpr (room.trans (of_decide_eq_true long)))

/-- In a list a number is shown exactly. -/
theorem read_singleton (id : Identity) (content : (number x).Content j)
    (bounded : x.toDouble.isInfinite = false) :
    ∃ text, (list id [number x]).display = .ok text ∧ Json.read text = some (.array [j]) := by
  have whole : (list id [number x]).Content (.array [j]) := .list id (.cons content .nil)
  have array : (list id [number x]).kind ≠ .number := by
    intro same
    cases same
  have leaf : ¬(number x).HasParts := by simp [HasParts, isArray, elements?, entries?]
  -- The list and its item are all that lies within the list.
  have inside {n : Nat} {part : Value} (lies : Lies part n (list id [number x])) :
      n = 0 ∧ part = list id [number x] ∨ n = 1 ∧ part = number x := by
    cases lies with
    | here => exact .inl ⟨rfl, rfl⟩
    | item elements mem lies =>
      cases elements
      obtain rfl := List.mem_singleton.mp mem
      obtain ⟨rfl, rfl⟩ := lies.of_leaf leaf
      exact .inr ⟨rfl, rfl⟩
  have showable : (list id [number x]).Showable := by
    refine ⟨rfl, ?_, ?_⟩
    · intro part lies
      rcases inside lies with ⟨top, -⟩ | ⟨one, -⟩
      · cases top
      · cases one
    · intro m n lies
      rcases inside lies with ⟨-, same⟩ | ⟨-, same⟩
      · cases same
      · cases same
        exact isTooLong_of_bounded bounded
  obtain ⟨text, shown⟩ := (displayed_iff whole array).mpr showable
  exact ⟨text, shown, read_display whole array shown⟩

/-! ## §5 All values -/

/-- Whatever is shown is read back, as the content itself or as a number of the same double. -/
theorem read_shown (content : v.Content j) (shown : v.display = .ok text) :
    v.kind ≠ .number ∧ Json.read text = some j ∨
      ∃ x r, v = .number x ∧ Json.read text = some (.number r) ∧
        (Number.double r.toDouble).equals (.double x.toDouble) = .ok true ∧
        (x.Plain → r.equals x = .ok true) := by
  by_cases isNumber : v.kind = .number
  · obtain ⟨x, rfl⟩ : ∃ x, v = .number x := by
      cases v <;> first | exact ⟨_, rfl⟩ | cases isNumber
    have bounded : x.toDouble.isInfinite = false := by
      rw [Bool.eq_false_iff]
      intro infinite
      rw [display_of_infinite content infinite] at shown
      cases shown
    obtain ⟨_, r, written, read, same, exact⟩ := read_number content bounded
    rw [shown] at written
    cases written
    exact .inr ⟨x, r, rfl, read, same, exact⟩
  · exact .inl ⟨isNumber, read_display content isNumber shown⟩

/-- Values of one text have one content, or they are numbers of one double. -/
theorem content_of_display_eq (contentV : v.Content j) (contentW : w.Content k)
    (shownV : v.display = .ok text) (shownW : w.display = .ok text) :
    j = k ∨ ∃ x y, v = .number x ∧ w = .number y ∧
      (Number.double x.toDouble).equals (.double y.toDouble) = .ok true ∧
      (x.Plain → y.Plain → x.equals y = .ok true) := by
  have notNumber {u : Value} {r : Number} (other : u.kind ≠ .number) : ¬u.Content (.number r) := by
    intro content
    cases content <;> exact other rfl
  -- Both texts are read alike, so that a number is no other value.
  rcases read_shown contentV shownV with ⟨otherV, readV⟩ | ⟨x, r, rfl, readV, sameV, exactV⟩
  · rcases read_shown contentW shownW with ⟨-, readW⟩ | ⟨y, r, rfl, readW, -, -⟩
    · rw [readV] at readW
      exact .inl (Option.some.inj readW)
    · rw [readV] at readW
      cases readW
      exact absurd contentV (notNumber otherV)
  · rcases read_shown contentW shownW with ⟨otherW, readW⟩ | ⟨y, r, rfl, readW, sameW, exactW⟩
    · rw [readV] at readW
      cases readW
      exact absurd contentW (notNumber otherW)
    · rw [readV] at readW
      cases readW
      refine .inr ⟨x, y, rfl, rfl, Number.equals_of_equals sameV sameW, fun plainX plainY => ?_⟩
      exact Number.equals_of_equals (exactV plainX) (exactW plainY)

end Documents

/-- The units of two to the power of 60. -/
def quintillionUnits : Nat := twoPow 60 * Double.unitsPerOne

theorem representable_quintillion : Double.Representable quintillionUnits :=
  ⟨by decide +kernel, 1, 60 + Double.unitPlaces, by decide +kernel, by decide +kernel⟩

theorem shortest_quintillion : Double.shortest quintillionUnits = ⟨false, 1152921504606847, 3⟩ := by
  have digits : digitCount (quintillionUnits * Double.unitDigits) = 1093 :=
    Double.digitCount_eq (by decide +kernel) (by decide +kernel)
  exact Double.shortest_of_search digits (by decide +kernel) (by decide +kernel)

theorem write_of_shortest {units : Nat} {p : Scientific} (representable : Double.Representable units)
    (nonzero : units ≠ 0) (shortest : Double.shortest units = p) :
    Layout.condition.write (.finite false units representable) =
      String.ofList (Layout.condition.positive p) := by
  unfold Layout.write
  dsimp only
  rw [if_neg nonzero, shortest]
  rfl

end Value

end Visibility
