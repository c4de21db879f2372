import Mathlib.Algebra.Order.Field.Rat
import Mathlib.Data.Rat.Floor
import Mathlib.Tactic.FieldSimp
import Visibility.Proofs.ExactValue

/-!
# The double nearest to a number

Whole numbers, quotients and numbers in scientific form are each rounded in their own way.  They all
round their exact value: `Double.ofRat` is the one rounding of rational numbers behind them, and a
double is nearest to itself.  As the text of a number is made from the double nearest to it, equal
numbers have equal texts, whatever their representations are.

* `ofQuotient_congr` — a rounded quotient does not depend on how the quotient is written
* `ofInt_eq_ofRat`, `ofScientific_eq_ofRat`, `ofRat_toRat` — whole numbers, numbers in scientific
  form and doubles
* `Number.text_of_value` — the text of a number is a function of its value
-/

namespace Visibility

namespace Double

/-! ## §1 Quotients -/

/-- A common factor of both numbers has no influence on the rounded quotient. -/
theorem roundHalfEven_mul_left {k : Nat} (pos : 0 < k) (num den : Nat) :
    roundHalfEven (k * num) (k * den) = roundHalfEven num den := by
  have twice : 2 * (k * (num % den)) = k * (2 * (num % den)) := Nat.mul_left_comm ..
  unfold roundHalfEven
  simp only [Nat.mul_div_mul_left _ _ pos, Nat.mul_mod_mul_left, twice,
    Nat.mul_lt_mul_left pos]

theorem ofSignificand_congr {negative : Bool} {m n e : Nat} (same : m = n)
    (short : m ≤ significandLimit) (short' : n ≤ significandLimit) :
    ofSignificand negative m e short = ofSignificand negative n e short' := by
  subst same
  rfl

theorem ofQuotient_mul_left {k : Nat} (pos : 0 < k) (negative : Bool) (num den : Nat) :
    ofQuotient negative (k * num) (k * den) = ofQuotient negative num den := by
  unfold ofQuotient
  dsimp only
  have quotient : k * num * unitsPerOne / (k * den) = num * unitsPerOne / den := by
    rw [Nat.mul_assoc, Nat.mul_div_mul_left _ _ pos]
  simp only [quotient]
  apply ofSignificand_congr
  rw [Nat.mul_assoc, Nat.mul_assoc, roundHalfEven_mul_left pos]

/-- Two ways to write one quotient round to the same double. -/
theorem ofQuotient_congr {a b c d : Nat} (posB : 0 < b) (posD : 0 < d) (same : a * d = c * b)
    (negative : Bool) : ofQuotient negative a b = ofQuotient negative c d :=
  calc ofQuotient negative a b
      = ofQuotient negative (d * a) (d * b) := (ofQuotient_mul_left posD ..).symm
    _ = ofQuotient negative (b * c) (b * d) := by
      rw [Nat.mul_comm d a, same, Nat.mul_comm c b, Nat.mul_comm d b]
    _ = ofQuotient negative c d := ofQuotient_mul_left posB ..

/-- Below half a unit, a quotient rounds to zero. -/
theorem ofQuotient_eq_zero {num den : Nat} (small : 2 * (num * unitsPerOne) < den)
    (negative : Bool) : ofQuotient negative num den = zero negative := by
  have below : num * unitsPerOne < den := by omega
  have none : num * unitsPerOne / den = 0 := Nat.div_eq_of_lt below
  have rounded : roundHalfEven (num * unitsPerOne) (den * spacing 0) = 0 := by
    have one : spacing 0 = 1 := rfl
    unfold roundHalfEven
    rw [one, Nat.mul_one, none, Nat.mod_eq_of_lt below]
    simp only [small, if_true]
  unfold ofQuotient
  simp only [none]
  rw [ofSignificand_congr rounded _ (Nat.zero_le _)]
  unfold ofSignificand zero
  simp only [Nat.zero_mul]
  exact dif_pos (twoPow_pos _)

/-- The spacing of the doubles around a representable count of units divides it. -/
theorem spacing_dvd {units : Nat} (representable : Representable units) : spacing units ∣ units := by
  obtain ⟨significand, exponent, below, rfl⟩ := representable.short
  rcases Nat.eq_zero_or_pos significand with rfl | pos
  · simp
  · have size : significand * twoPow exponent < twoPow (53 + exponent) := by
      rw [twoPow_add]
      exact Nat.mul_lt_mul_of_pos_right below (twoPow_pos _)
    have nonzero : significand * twoPow exponent ≠ 0 :=
      Nat.mul_ne_zero pos.ne' (twoPow_pos _).ne'
    have places : (significand * twoPow exponent).log2 - 52 ≤ exponent := by
      have := (Nat.log2_lt nonzero).mpr size
      omega
    unfold spacing
    exact Dvd.dvd.mul_left (Nat.pow_dvd_pow 2 places) significand

/-- A count of units, taken as a quotient, is rounded to itself. -/
theorem ofQuotient_units {units : Nat} (representable : Representable units) (negative : Bool) :
    ofQuotient negative units unitsPerOne = .finite negative units representable := by
  have pos : 0 < unitsPerOne := twoPow_pos _
  have quotient : units * unitsPerOne / unitsPerOne = units := Nat.mul_div_cancel _ pos
  have divides : spacing units ∣ units := spacing_dvd representable
  -- A representable count is a multiple of the spacing, so that the rounding has nothing left over.
  have rounded : roundHalfEven (units * unitsPerOne) (unitsPerOne * spacing units) =
      units / spacing units := by
    rw [Nat.mul_comm units, roundHalfEven_mul_left pos]
    unfold roundHalfEven
    rw [Nat.mod_eq_zero_of_dvd divides]
    simp only [Nat.mul_zero, twoPow_pos, spacing, if_true]
  have back : units / spacing units * twoPow (units.log2 - 52) = units :=
    Nat.div_mul_cancel divides
  have short := roundHalfEven_spacing_le (units * unitsPerOne) unitsPerOne
  rw [quotient, rounded] at short
  unfold ofQuotient
  simp only [quotient]
  rw [ofSignificand_congr rounded _ short]
  unfold ofSignificand
  simp only [back]
  exact dif_pos representable.below

/-! ## §2 Rational numbers -/

/-- The double nearest to a rational number. -/
def ofRat (q : ℚ) : Double := ofQuotient (q < 0) q.num.natAbs q.den

theorem abs_eq_div (q : ℚ) : |q| = q.num.natAbs / q.den := by
  conv_lhs => rw [← Rat.num_div_den q]
  rw [abs_div, Nat.abs_cast, Nat.cast_natAbs, Int.cast_abs]

/-- A rational number is rounded as any quotient of its absolute value is. -/
theorem ofRat_eq_ofQuotient {q : ℚ} {num den : Nat} (pos : 0 < den) (size : |q| = num / den) :
    ofRat q = ofQuotient (q < 0) num den := by
  apply ofQuotient_congr q.den_pos pos
  rw [abs_eq_div, div_eq_div_iff (Nat.cast_ne_zero.mpr q.den_nz) (Nat.cast_ne_zero.mpr pos.ne')] at size
  exact_mod_cast size

theorem ofRat_zero : ofRat 0 = zero false := by
  have size : |(0 : ℚ)| = (0 : Nat) / (1 : Nat) := by simp
  rw [ofRat_eq_ofQuotient Nat.one_pos size]
  exact ofQuotient_eq_zero (by simp) _

theorem ofInt_eq_ofRat (n : Int) : ofInt n = ofRat n := by
  have size : |(n : ℚ)| = (n.natAbs : Nat) / (1 : Nat) := by
    rw [Nat.cast_natAbs, Int.cast_abs, Nat.cast_one, div_one]
  rw [ofRat_eq_ofQuotient Nat.one_pos size]
  unfold ofInt
  simp only [Int.cast_lt_zero]

/-- The sign of a number that is not zero is that of its value. -/
theorem toRat_neg_of_nonzero {x : Scientific} (nonzero : x.coefficient ≠ 0) :
    decide (x.toRat < 0) = x.negative := by
  have sign : x.isNegative = x.negative := by
    unfold Scientific.isNegative
    simp [nonzero]
  rw [Bool.eq_iff_iff, decide_eq_true_eq, Scientific.toRat_neg_iff, sign]

/-- A number in scientific form as a quotient of whole numbers. -/
theorem size_eq_div (x : Scientific) :
    x.size = ((x.coefficient * tenPow x.exponent.toNat : Nat) : ℚ) /
      (tenPow (-x.exponent).toNat : Nat) := by
  have places : x.exponent = (x.exponent.toNat : Int) - ((-x.exponent).toNat : Int) := by omega
  unfold Scientific.size
  conv_lhs => rw [places, zpow_sub₀ (by norm_num), zpow_natCast, zpow_natCast]
  rw [Nat.cast_mul, cast_tenPow, cast_tenPow, mul_div_assoc]

/-- A number that is not zero is rounded by its value, also where its magnitude alone decides. -/
theorem ofScientific_eq_ofRat {x : Scientific} (nonzero : x.coefficient ≠ 0) :
    ofScientific x = ofRat x.toRat := by
  have pos : 0 < tenPow (-x.exponent).toNat := tenPow_pos _
  have size : |x.toRat| = _ := x.abs_toRat.trans (size_eq_div x)
  rw [ofRat_eq_ofQuotient pos size, toRat_neg_of_nonzero nonzero]
  unfold ofScientific
  rw [if_neg nonzero]
  split
  · -- Beyond the cut-off the number overflows, and so does the quotient.
    rename_i large
    have overflows : x.Overflows := Scientific.overflows_of_magnitude nonzero large
    exact ((ofQuotient_eq_infinite pos).mpr ⟨rfl, overflows⟩).symm
  · split
    · -- Below the cut-off the quotient is less than half a unit, and is rounded to zero.
      rename_i small
      unfold Scientific.magnitude at small
      have noPlaces : x.exponent.toNat = 0 := by omega
      have unit : 2 * unitsPerOne ≤ tenPow 330 := by decide +kernel
      have tiny : 2 * (x.coefficient * tenPow x.exponent.toNat * unitsPerOne) <
          tenPow (-x.exponent).toNat :=
        calc 2 * (x.coefficient * tenPow x.exponent.toNat * unitsPerOne)
            = x.coefficient * (2 * unitsPerOne) := by rw [noPlaces, tenPow_zero]; ring
          _ ≤ x.coefficient * tenPow 330 := Nat.mul_le_mul_left _ unit
          _ < tenPow (digitCount x.coefficient) * tenPow 330 :=
            Nat.mul_lt_mul_of_pos_right (lt_tenPow_digitCount _) (tenPow_pos _)
          _ = tenPow (digitCount x.coefficient + 330) := (tenPow_add ..).symm
          _ ≤ tenPow (-x.exponent).toNat := tenPow_le_tenPow (by omega)
      exact (ofQuotient_eq_zero tiny _).symm
    · split
      · rename_i e same
        simp [same]
      · rename_i e same
        simp [same]

/-! ## §3 Doubles -/

theorem five_pow_mul_twoPow (n : Nat) : Nat.pow 5 n * twoPow n = tenPow n :=
  (Nat.mul_pow 5 2 n).symm

theorem unitDigits_mul_unitsPerOne : unitDigits * unitsPerOne = tenPow unitPlaces := by
  unfold unitDigits unitsPerOne
  generalize unitPlaces = n
  exact five_pow_mul_twoPow n

/-- The exact value of a count of units. -/
theorem abs_toRat_unitsValue (negative : Bool) (units : Nat) :
    |(unitsValue negative units).toRat| = (units : ℚ) / (unitsPerOne : Nat) := by
  have places : (10 : ℚ) ^ (-(unitPlaces : Int)) * (tenPow unitPlaces : Nat) = 1 := by
    rw [cast_tenPow, ← zpow_natCast, ← zpow_add₀ (by norm_num), neg_add_cancel, zpow_zero]
  have nonzero : ((unitsPerOne : Nat) : ℚ) ≠ 0 := Nat.cast_ne_zero.mpr (twoPow_pos _).ne'
  rw [Scientific.abs_toRat, eq_div_iff nonzero]
  unfold Scientific.size unitsValue
  calc ((units * unitDigits : Nat) : ℚ) * 10 ^ (-(unitPlaces : Int)) * (unitsPerOne : Nat)
      = units * (10 ^ (-(unitPlaces : Int)) * ((unitDigits * unitsPerOne : Nat) : ℚ)) := by
        push_cast
        ring
    _ = units := by rw [unitDigits_mul_unitsPerOne, places, mul_one]

theorem toRat_unitsValue (negative : Bool) (units : Nat) : (unitsValue negative units).toRat =
    if negative then -(units / (unitsPerOne : Nat) : ℚ) else units / (unitsPerOne : Nat) := by
  rw [← abs_toRat_unitsValue negative units, Scientific.abs_toRat]
  rfl

theorem toRat_unitsValue_zero (negative : Bool) : (unitsValue negative 0).toRat = 0 := by
  rw [← abs_eq_zero, abs_toRat_unitsValue, Nat.cast_zero, zero_div]

theorem unitDigits_pos : 0 < unitDigits := by
  apply Nat.pos_of_mul_pos_right (b := unitsPerOne)
  rw [unitDigits_mul_unitsPerOne]
  exact tenPow_pos _

/-- A double that is not zero is the one nearest to its own value. -/
theorem ofRat_toRat {negative : Bool} {units : Nat} (representable : Representable units)
    (nonzero : units ≠ 0) :
    ofRat (unitsValue negative units).toRat = .finite negative units representable := by
  have coefficient : (unitsValue negative units).coefficient ≠ 0 :=
    Nat.mul_ne_zero nonzero unitDigits_pos.ne'
  rw [ofRat_eq_ofQuotient (twoPow_pos _) (abs_toRat_unitsValue negative units),
    toRat_neg_of_nonzero coefficient]
  exact ofQuotient_units representable negative

/-- A whole number that is a double is rounded to itself. -/
theorem ofInt_of_representable {n : Int} (representable : Representable (n.natAbs * unitsPerOne)) :
    ofInt n = .finite (n < 0) (n.natAbs * unitsPerOne) representable := by
  have pos : 0 < unitsPerOne := twoPow_pos _
  have nonzero : ((unitsPerOne : Nat) : ℚ) ≠ 0 := Nat.cast_ne_zero.mpr pos.ne'
  have size : |(n : ℚ)| = (n.natAbs * unitsPerOne : Nat) / (unitsPerOne : Nat) := by
    rw [Nat.cast_mul, mul_div_cancel_right₀ _ nonzero, Nat.cast_natAbs, Int.cast_abs]
  rw [ofInt_eq_ofRat, ofRat_eq_ofQuotient pos size, ofQuotient_units representable]
  simp only [Int.cast_lt_zero]

/-- A quotient rounds to zero up to one half, which goes to the even neighbour. -/
theorem roundHalfEven_eq_zero_iff {num den : Nat} (pos : 0 < den) :
    roundHalfEven num den = 0 ↔ 2 * num ≤ den := by
  rcases Nat.lt_or_ge num den with below | large
  · unfold roundHalfEven
    rw [Nat.div_eq_of_lt below, Nat.mod_eq_of_lt below]
    dsimp only
    split_ifs <;> simp <;> omega
  · have whole : 1 ≤ num / den := (Nat.one_le_div_iff pos).mpr large
    have floor : num / den ≤ roundHalfEven num den := le_roundHalfEven num den
    omega

theorem isZero_ofSignificand {negative : Bool} {m e : Nat} {short : m ≤ significandLimit} :
    (ofSignificand negative m e short).isZero = true ↔ m = 0 := by
  have powerPos : 0 < twoPow e := twoPow_pos e
  unfold ofSignificand
  split
  · simp [isZero, powerPos.ne']
  · rename_i beyond
    have nonzero : m ≠ 0 := by
      rintro rfl
      exact beyond (by simp [unitLimit, twoPow_pos])
    simp [isZero, nonzero]

/-- A quotient rounds to zero up to half a unit. -/
theorem isZero_ofQuotient_iff {num den : Nat} (pos : 0 < den) (negative : Bool) :
    (ofQuotient negative num den).isZero = true ↔ 2 * (num * unitsPerOne) ≤ den := by
  unfold ofQuotient
  dsimp only
  have stepPos : 0 < den * spacing (num * unitsPerOne / den) := Nat.mul_pos pos (twoPow_pos _)
  rw [isZero_ofSignificand, roundHalfEven_eq_zero_iff stepPos]
  rcases Nat.lt_or_ge (num * unitsPerOne) den with below | large
  · -- Below one unit the doubles are one unit apart.
    have one : spacing (num * unitsPerOne / den) = 1 := by
      rw [Nat.div_eq_of_lt below]
      rfl
    rw [one, Nat.mul_one]
  · have whole : num * unitsPerOne / den ≠ 0 := by
      have := (Nat.one_le_div_iff pos).mpr large
      omega
    have step : spacing (num * unitsPerOne / den) ≤ num * unitsPerOne / den :=
      (twoPow_le_twoPow (Nat.sub_le ..)).trans (Nat.log2_self_le whole)
    have steps : den * spacing (num * unitsPerOne / den) ≤ num * unitsPerOne :=
      (Nat.mul_le_mul_left den step).trans (Nat.mul_div_le _ _)
    constructor <;> omega

/-- A quotient of at least one unit does not round to zero. -/
theorem isZero_ofQuotient {num den : Nat} (pos : 0 < den) (large : den ≤ num * unitsPerOne)
    (negative : Bool) : (ofQuotient negative num den).isZero = false := by
  rw [Bool.eq_false_iff, ne_eq, isZero_ofQuotient_iff pos]
  omega

end Double

/-! ## §4 Texts -/

/-- The text of a rational number: that of the double nearest to it.  A number that is not zero keeps
its sign even if its double is zero. -/
def textOfRat (q : ℚ) : Option String :=
  let x := Double.ofRat q
  if x.isInfinite then none
  else if x.isZero then some (String.ofList (signChars (q < 0) ++ ['0']))
  else some (Layout.condition.write x)

theorem textOfRat_zero : textOfRat 0 = some "0" := by
  unfold textOfRat
  rw [Double.ofRat_zero]
  rfl

/-- What is written if an infinity is refused. -/
theorem toOption_refuseInfinite {ε : Type} (cause : ε) (x : Double) (f : Double → Except ε String) :
    (x.refuseInfinite cause >>= f).toOption = if x.isInfinite then none else (f x).toOption := by
  unfold Double.refuseInfinite
  cases x.isInfinite <;> rfl

theorem toOption_text_int (n : Int) : (Number.int n).text.toOption = textOfRat n := by
  unfold Number.text
  rw [toOption_refuseInfinite]
  by_cases zero : n = 0
  · have rounded : Double.ofInt 0 = .zero false := by
      rw [Double.ofInt_eq_ofRat, Int.cast_zero, Double.ofRat_zero]
    rw [zero, rounded, Int.cast_zero, textOfRat_zero]
    rfl
  · have notZero : (Double.ofInt n).isZero = false := by
      apply Double.isZero_ofQuotient Nat.one_pos
      exact Nat.mul_pos (Int.natAbs_pos.mpr zero) (twoPow_pos _)
    unfold textOfRat
    rw [← Double.ofInt_eq_ofRat]
    simp only [notZero, Bool.false_eq_true, if_false]
    rfl

theorem toOption_text_double {negative : Bool} {units : Nat}
    (representable : Double.Representable units) :
    (Number.double (.finite negative units representable)).text.toOption =
      textOfRat (Double.unitsValue negative units).toRat := by
  by_cases zero : units = 0
  · subst zero
    rw [Double.toRat_unitsValue_zero, textOfRat_zero]
    rfl
  · have notZero : (units == 0) = false := by simp [zero]
    unfold textOfRat
    rw [Double.ofRat_toRat representable zero]
    simp only [Double.isInfinite, Double.isZero, notZero, Bool.false_eq_true, if_false]
    rfl

theorem toOption_text_decimal (x : Scientific) :
    (Number.decimal (.finite x)).text.toOption = textOfRat x.toRat := by
  rw [Number.text]
  by_cases zero : x.coefficient = 0
  · have value : x.toRat = 0 := by
      rw [← abs_eq_zero, Scientific.abs_toRat, Scientific.size_eq_zero.mpr zero]
    rw [if_pos zero, value, textOfRat_zero]
    rfl
  · rw [if_neg zero, toOption_refuseInfinite, Double.ofScientific_eq_ofRat zero]
    unfold textOfRat
    rw [Double.toRat_neg_of_nonzero zero]
    generalize Double.ofRat x.toRat = rounded
    dsimp only
    cases rounded.isZero <;> rfl

/-- A number with a rational value has the text of that value, whatever its representation is. -/
theorem Number.toOption_text_of_rat {x : Number} {q : ℚ} (hx : x.value? = some (.ofRat q)) :
    x.text.toOption = textOfRat q := by
  -- The three kinds of numbers store the value in different ways, but it is one value.
  have same {y : Scientific} (value : (Decimal.finite y).value? = some (.ofRat q)) :
      y.toRat = q :=
    ExactValue.ofRat_strictMono.injective (Option.some.inj value)
  cases x with
  | int n =>
    rw [← same hx, Scientific.toRat_ofInt]
    exact toOption_text_int n
  | double d =>
    cases d with
    | nan => cases hx
    | infinite negative => cases negative <;> cases hx
    | finite negative units representable =>
      rw [← same hx]
      exact toOption_text_double representable
  | decimal d =>
    cases d with
    | nan negative signaling payload => cases hx
    | infinite negative => cases negative <;> cases hx
    | finite y =>
      rw [← same hx]
      exact toOption_text_decimal y

/-- The text of an infinity is a word. -/
theorem Number.text_of_infinite {x : Number} {negative : Bool}
    (hx : x.exact = .infinite negative) :
    x.text = .ok (Layout.condition.write (.infinite negative)) := by
  cases x with
  | int n => cases hx
  | double d =>
    cases d with
    | infinite sign =>
      cases hx
      rfl
    | _ => cases hx
  | decimal d =>
    cases hx
    rfl

/-- Numbers of one value have one text, or neither of them has a text. -/
theorem Number.toOption_text_congr {x y : Number} {v : ExactValue} (hx : x.value? = some v)
    (hy : y.value? = some v) : x.text.toOption = y.text.toOption := by
  have same : y.exact.value? = x.exact.value? := hy.trans hx.symm
  cases exact : x.exact with
  | nan negative signaling payload =>
    unfold value? at hx
    rw [exact] at hx
    cases hx
  | finite z =>
    rw [exact] at same
    have value : x.value? = some (.ofRat z.toRat) := by
      unfold value?
      rw [exact]
      rfl
    rw [toOption_text_of_rat value, toOption_text_of_rat same]
  | infinite negative =>
    rw [exact] at same
    rw [text_of_infinite exact, text_of_infinite (Decimal.eq_infinite_of_value same)]

end Visibility
