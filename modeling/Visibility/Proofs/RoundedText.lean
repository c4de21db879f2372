import Visibility.Proofs.NearestDouble

/-!
# The text of a number and the text of its double

Numbers are written by the digits of the double nearest to them, but whether there is a minus sign is
decided by the number itself.  The two agree unless a decimal below zero is so near to zero that its
double is zero.  Then the sign stays, and nothing but a zero follows it.

* `toDouble` — the double nearest to a number in any representation
* `isZero_ofRat_iff` — which numbers round to zero
* `Vanishes`, `text_of_vanishes` — the decimals of which only the sign is left
* `text_of_not_vanishes` — every other number is written as its double is
* `text_toDouble` — so the text depends on the double alone, those decimals apart
-/

namespace Visibility

/-! ## §1 Rounding to zero -/

namespace Double

/-- Half a unit is two to the power of minus 1075, the greatest number that rounds to zero. -/
def halfUnit : ℚ := 1 / (2 * unitsPerOne : Nat)

theorem isZero_ofRat_iff (q : ℚ) : (ofRat q).isZero = true ↔ |q| ≤ halfUnit := by
  have den : (0 : ℚ) < q.den := Nat.cast_pos.mpr q.den_pos
  have units : (0 : ℚ) < (2 * unitsPerOne : Nat) :=
    Nat.cast_pos.mpr (Nat.mul_pos Nat.two_pos (twoPow_pos _))
  unfold ofRat halfUnit
  rw [isZero_ofQuotient_iff q.den_pos, abs_eq_div, div_le_div_iff₀ den units, one_mul,
    Nat.mul_left_comm]
  exact_mod_cast Iff.rfl

end Double

/-! ## §2 The double of a number -/

namespace Number

/-- The double nearest to a number. -/
def toDouble : Number → Double
  | .int n => .ofInt n
  | .double x => x
  | .decimal d => d.toDouble

/-- A decimal below zero of which no more than half a unit is left: its double is zero. -/
inductive Vanishes : Number → Prop where
  | decimal {d : Decimal} {q : ℚ} :
      d.value? = some (.ofRat q) → q < 0 → -Double.halfUnit ≤ q → Vanishes (.decimal d)

variable {x y : Number}

/-- What is known of a decimal that vanishes. -/
theorem Vanishes.finite (h : x.Vanishes) : ∃ value : Scientific, x = .decimal (.finite value) ∧
    value.negative = true ∧ value.coefficient ≠ 0 ∧ (Double.ofScientific value).isZero = true := by
  obtain ⟨hd, below, near⟩ := h
  rename_i d q
  -- Only finite decimals have a rational number as value.
  cases d with
  | nan negative signaling payload => cases hd
  | infinite negative => cases negative <;> cases hd
  | finite value =>
    obtain rfl : value.toRat = q := ExactValue.ofRat_strictMono.injective (Option.some.inj hd)
    have negative : value.isNegative = true := Scientific.toRat_neg_iff.mp below
    unfold Scientific.isNegative at negative
    rw [Bool.and_eq_true, bne_iff_ne] at negative
    refine ⟨value, rfl, negative.1, negative.2, ?_⟩
    rw [Double.ofScientific_eq_ofRat negative.2, Double.isZero_ofRat_iff, abs_of_neg below]
    exact neg_le.mp near

theorem vanishes_of_finite {value : Scientific} (negative : value.negative = true)
    (nonzero : value.coefficient ≠ 0) (zero : (Double.ofScientific value).isZero = true) :
    (Number.decimal (.finite value)).Vanishes := by
  have below : value.toRat < 0 := by
    rw [Scientific.toRat_neg_iff]
    unfold Scientific.isNegative
    rw [negative, Bool.true_and, bne_iff_ne]
    exact nonzero
  rw [Double.ofScientific_eq_ofRat nonzero, Double.isZero_ofRat_iff, abs_of_neg below] at zero
  exact .decimal rfl below (neg_le.mp zero)

theorem text_double (d : Double) : (double d).text = .ok (Layout.condition.write d) := rfl

theorem write_of_isZero {d : Double} (zero : d.isZero = true) : Layout.condition.write d = "0" := by
  cases d with
  | finite negative units representable =>
    obtain rfl : units = 0 := by simpa [Double.isZero] using zero
    rfl
  | _ => cases zero

theorem refuseInfinite_of_finite {d : Double} (finite : d.isInfinite = false)
    (cause : CoercionError) : d.refuseInfinite cause = .ok d := by
  unfold Double.refuseInfinite
  rw [finite]
  rfl

/-- Of a decimal that vanishes the sign is written, and a zero after it. -/
theorem text_of_vanishes (h : x.Vanishes) :
    x.text = .ok "-0" ∧ (double x.toDouble).text = .ok "0" := by
  obtain ⟨value, rfl, negative, nonzero, zero⟩ := h.finite
  have finite : (Double.ofScientific value).isInfinite = false := by
    cases rounded : Double.ofScientific value with
    | infinite s => rw [rounded] at zero; cases zero
    | _ => rfl
  constructor
  · rw [text, if_neg nonzero, refuseInfinite_of_finite finite]
    show (if (Double.ofScientific value).isZero then _ else _) = _
    rw [if_pos zero, negative]
    rfl
  · rw [text_double]
    exact congrArg Except.ok (write_of_isZero zero)

/-- Every other number is written as its double is, unless that is an infinity. -/
theorem text_of_not_vanishes (quiet : x.exact.isSignaling = false)
    (bounded : x.toDouble.isInfinite = false) (stays : ¬x.Vanishes) :
    x.text = (double x.toDouble).text := by
  cases x with
  | double d => rfl
  | int n =>
    have finite : (Double.ofInt n).isInfinite = false := bounded
    show _ = Except.ok (Layout.condition.write (Double.ofInt n))
    rw [text, refuseInfinite_of_finite finite]
    rfl
  | decimal d =>
    cases d with
    | nan negative signaling payload =>
      obtain rfl : signaling = false := quiet
      rfl
    | infinite negative => cases bounded
    | finite value =>
      have finite : (Double.ofScientific value).isInfinite = false := bounded
      show _ = Except.ok (Layout.condition.write (Double.ofScientific value))
      rw [text]
      by_cases nothing : value.coefficient = 0
      · -- An exact zero is written without a sign, as both zeros among the doubles are.
        have zero : (Double.ofScientific value).isZero = true := by
          unfold Double.ofScientific
          rw [if_pos nothing]
          rfl
        rw [if_pos nothing, write_of_isZero zero]
        rfl
      · rw [if_neg nothing, refuseInfinite_of_finite finite]
        show (if (Double.ofScientific value).isZero then _ else _) = _
        cases zero : (Double.ofScientific value).isZero with
        | false => rfl
        | true =>
          -- Only without a sign is a lone zero left.
          have positive : value.negative = false := by
            rw [Bool.eq_false_iff]
            exact fun negative => stays (vanishes_of_finite negative nothing zero)
          rw [write_of_isZero zero, positive]
          rfl

/-- **Numbers are written as their doubles are.**  Take a number that is no signaling NaN and whose
nearest double is no infinity.  Unless it is a decimal below zero of at most half a unit, its text is
that of its double, and so all such numbers of one double have one text, whatever their
representations are.  The decimals left out have a zero as double, and they alone are written with a
sign before it. -/
theorem text_toDouble (quiet : x.exact.isSignaling = false)
    (bounded : x.toDouble.isInfinite = false) :
    (¬x.Vanishes → x.text = (double x.toDouble).text) ∧
    (¬x.Vanishes → ∀ y : Number, y.exact.isSignaling = false → y.toDouble = x.toDouble →
      ¬y.Vanishes → y.text = x.text) ∧
    (x.Vanishes → x.text = .ok "-0" ∧ x.toDouble.isZero = true ∧
      (double x.toDouble).text = .ok "0") := by
  refine ⟨text_of_not_vanishes quiet bounded, ?_, ?_⟩
  · intro stays y quietY same staysY
    rw [text_of_not_vanishes quietY (by rwa [same]) staysY, same,
      text_of_not_vanishes quiet bounded stays]
  · intro vanishes
    obtain ⟨written, zero⟩ := text_of_vanishes vanishes
    obtain ⟨value, rfl, -, -, isZero⟩ := vanishes.finite
    exact ⟨written, isZero, zero⟩

/-- A decimal that is a little more than one is written as the whole number one is. -/
theorem text_toDouble_one :
    let x := Number.decimal (.finite ⟨false, 100000000000000000001, -20⟩)
    x.exact.isSignaling = false ∧ x.toDouble.isInfinite = false ∧ ¬x.Vanishes ∧
      x.toDouble = (int 1).toDouble ∧ (int 1).text = x.text := by
  intro x
  have bounded : x.toDouble.isInfinite = false := by decide +kernel
  have same : (int 1).toDouble = x.toDouble := by decide +kernel
  have stays : ¬x.Vanishes := by
    intro vanishes
    obtain ⟨value, finite, negative, -, -⟩ := vanishes.finite
    obtain rfl := Decimal.finite.inj (Number.decimal.inj finite)
    cases negative
  obtain ⟨-, shared, -⟩ := text_toDouble (x := x) rfl bounded
  exact ⟨rfl, bounded, stays, same.symm, shared stays (int 1) rfl same nofun⟩

/-- The double nearest to a tiny decimal below zero is a zero, and the two are not written alike. -/
theorem text_trace :
    let x := Number.decimal (.finite ⟨true, 1, -400⟩)
    x.exact.isSignaling = false ∧ x.toDouble = .zero true ∧ x.text = .ok "-0" ∧
      (double x.toDouble).text = .ok "0" := by
  refine ⟨rfl, ?_, ?_, ?_⟩ <;> decide +kernel

end Number

end Visibility
