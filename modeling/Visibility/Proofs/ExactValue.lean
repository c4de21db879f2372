import Mathlib.Algebra.Order.Field.Basic
import Mathlib.Data.Rat.Cast.Order
import Mathlib.Order.WithBot
import Mathlib.Tactic.Linarith
import Mathlib.Tactic.NormNum
import Visibility.Proofs.Conversion

/-!
# Exact values

What a number stands for: a rational number, one of the two infinities, or nothing if it is a NaN.
All three representations are compared by these values alone, so every law of the order of numbers
is one of a linear order.

* `Scientific.toRat`, `Decimal.value?`, `Number.value?` — the values
* `Scientific.orderAbs_eq_cmp` — comparing magnitudes first, and digits only within a magnitude, is
  comparing the values
* `Number.order?_of_value` — numbers with a value are compared by it
* `Number.equals_eq_true_iff` — numbers are equal exactly if they have one value
-/

namespace Visibility

/-! ## §1 Numbers in scientific form -/

theorem cast_tenPow (n : Nat) : (tenPow n : ℚ) = 10 ^ n := by
  show ((10 ^ n : ℕ) : ℚ) = 10 ^ n
  push_cast
  rfl

namespace Scientific

/-- The absolute value. -/
def size (x : Scientific) : ℚ := x.coefficient * 10 ^ x.exponent

/-- The rational number that is written in scientific form. -/
def toRat (x : Scientific) : ℚ := if x.negative then -x.size else x.size

variable {x y : Scientific}

theorem ten_zpow_pos (e : Int) : (0 : ℚ) < 10 ^ e := zpow_pos (by norm_num) e

theorem size_nonneg (x : Scientific) : 0 ≤ x.size :=
  mul_nonneg (Nat.cast_nonneg _) (ten_zpow_pos _).le

theorem size_eq_zero : x.size = 0 ↔ x.coefficient = 0 := by
  unfold size
  rw [mul_eq_zero, Nat.cast_eq_zero]
  exact or_iff_left (ten_zpow_pos _).ne'

theorem size_pos (nonzero : x.coefficient ≠ 0) : 0 < x.size := by
  apply lt_of_le_of_ne (size_nonneg x)
  intro zero
  exact nonzero (size_eq_zero.mp zero.symm)

theorem abs_toRat (x : Scientific) : |x.toRat| = x.size := by
  unfold toRat
  split
  · rw [abs_neg, abs_of_nonneg (size_nonneg x)]
  · exact abs_of_nonneg (size_nonneg x)

/-- A number stays below the power of ten of its magnitude. -/
theorem size_lt (x : Scientific) : x.size < 10 ^ x.magnitude := by
  have digits : (x.coefficient : ℚ) < 10 ^ digitCount x.coefficient := by
    rw [← cast_tenPow]
    exact_mod_cast lt_tenPow_digitCount x.coefficient
  unfold size magnitude
  rw [zpow_add₀ (by norm_num), zpow_natCast]
  exact mul_lt_mul_of_pos_right digits (ten_zpow_pos _)

/-- A number that is not zero reaches the power of ten one below its magnitude. -/
theorem le_size (nonzero : x.coefficient ≠ 0) : (10 : ℚ) ^ (x.magnitude - 1) ≤ x.size := by
  have digits : (10 : ℚ) ^ (digitCount x.coefficient - 1) ≤ x.coefficient := by
    rw [← cast_tenPow]
    exact_mod_cast tenPow_digitCount_le (Nat.pos_of_ne_zero nonzero)
  have places : x.magnitude - 1 = ((digitCount x.coefficient - 1 : Nat) : Int) + x.exponent := by
    have := digitCount_pos x.coefficient
    unfold magnitude
    omega
  unfold size
  rw [places, zpow_add₀ (by norm_num), zpow_natCast]
  exact mul_le_mul_of_nonneg_right digits (ten_zpow_pos _).le

/-- Numbers of different magnitudes are ordered as these are. -/
theorem size_lt_size (nonzero : y.coefficient ≠ 0) (below : x.magnitude < y.magnitude) :
    x.size < y.size :=
  calc x.size
      < 10 ^ x.magnitude := size_lt x
    _ ≤ 10 ^ (y.magnitude - 1) := zpow_le_zpow_right₀ (by norm_num) (by omega)
    _ ≤ y.size := le_size nonzero

/-- Brought to a smaller exponent, a number has a larger coefficient. -/
theorem size_eq_mul {e : Int} (le : e ≤ x.exponent) :
    x.size = ((x.coefficient * tenPow (x.exponent - e).toNat : Nat) : ℚ) * 10 ^ e := by
  have places : x.exponent = ((x.exponent - e).toNat : Int) + e := by omega
  unfold size
  conv_lhs => rw [places, zpow_add₀ (by norm_num), zpow_natCast]
  rw [Nat.cast_mul, cast_tenPow, mul_assoc]

theorem compare_eq_cmp (m n : Nat) : compare m n = cmp (m : ℚ) (n : ℚ) := by
  rw [Nat.strictMono_cast.cmp_map_eq, cmp_eq_compare]

/-- The absolute values are compared exactly. -/
theorem orderAbs_eq_cmp (x y : Scientific) : x.orderAbs y = cmp x.size y.size := by
  unfold orderAbs
  by_cases zero : x.coefficient = 0 ∨ y.coefficient = 0
  · -- A zero is below every other number, whatever the exponents are.
    rw [if_pos zero, compare_eq_cmp]
    rcases Nat.eq_zero_or_pos x.coefficient with zeroX | posX
    · rw [size_eq_zero.mpr zeroX, zeroX, Nat.cast_zero]
      rcases Nat.eq_zero_or_pos y.coefficient with zeroY | posY
      · rw [size_eq_zero.mpr zeroY, zeroY, Nat.cast_zero]
      · rw [(size_pos posY.ne').cmp_eq_lt, (Nat.cast_pos.mpr posY).cmp_eq_lt]
    · have zeroY : y.coefficient = 0 := zero.resolve_left posX.ne'
      rw [size_eq_zero.mpr zeroY, zeroY, Nat.cast_zero, (size_pos posX.ne').cmp_eq_gt,
        (Nat.cast_pos.mpr posX).cmp_eq_gt]
  · obtain ⟨nonzeroX, nonzeroY⟩ := not_or.mp zero
    rw [if_neg zero]
    rcases Int.lt_trichotomy x.magnitude y.magnitude with below | same | above
    · rw [if_neg below.ne, (size_lt_size nonzeroY below).cmp_eq_lt]
      exact Int.compare_eq_lt.mpr below
    · -- Both numbers are multiples of one power of ten.
      rw [if_pos same, compare_eq_cmp, size_eq_mul (Int.min_le_left x.exponent y.exponent),
        size_eq_mul (Int.min_le_right x.exponent y.exponent)]
      exact ((strictMono_mul_right_of_pos (ten_zpow_pos _)).cmp_map_eq _ _).symm
    · rw [if_neg above.ne', (size_lt_size nonzeroX above).cmp_eq_gt]
      exact Int.compare_eq_gt.mpr above

theorem toRat_neg_iff : x.toRat < 0 ↔ x.isNegative = true := by
  unfold toRat isNegative
  have nonneg : 0 ≤ x.size := size_nonneg x
  cases x.negative with
  | false => simpa using nonneg
  | true =>
    have positive : 0 < x.size ↔ x.coefficient ≠ 0 := by
      rw [ne_eq, ← size_eq_zero, lt_iff_le_and_ne, and_iff_right nonneg, ne_comm]
    simpa using positive

theorem toRat_of_isNegative (h : x.isNegative = true) : x.toRat = -x.size := by
  unfold isNegative at h
  rw [Bool.and_eq_true] at h
  exact if_pos h.1

/-- A number that is not below zero is its absolute value, also if it is a zero with a sign. -/
theorem toRat_of_not_isNegative (h : x.isNegative = false) : x.toRat = x.size := by
  have nonneg : 0 ≤ x.toRat := by
    apply not_lt.mp
    rw [toRat_neg_iff, h]
    exact Bool.false_ne_true
  rw [← abs_toRat, abs_of_nonneg nonneg]

/-- Numbers in scientific form are compared exactly. -/
theorem order_eq_cmp (x y : Scientific) : x.order y = cmp x.toRat y.toRat := by
  unfold order
  cases negativeX : x.isNegative <;> cases negativeY : y.isNegative
  · rw [orderAbs_eq_cmp, toRat_of_not_isNegative negativeX, toRat_of_not_isNegative negativeY]
  · have below : y.toRat < 0 := toRat_neg_iff.mpr negativeY
    have above : 0 ≤ x.toRat := by
      rw [toRat_of_not_isNegative negativeX]
      exact size_nonneg x
    exact (below.trans_le above).cmp_eq_gt.symm
  · have below : x.toRat < 0 := toRat_neg_iff.mpr negativeX
    have above : 0 ≤ y.toRat := by
      rw [toRat_of_not_isNegative negativeY]
      exact size_nonneg y
    exact (below.trans_le above).cmp_eq_lt.symm
  · -- Of two negative numbers the larger absolute value is the smaller one.
    have flips : StrictAnti fun q : ℚ => -q := fun _ _ less => neg_lt_neg less
    rw [toRat_of_isNegative negativeX, toRat_of_isNegative negativeY]
    exact (orderAbs_eq_cmp y x).trans (flips.cmp_map_eq x.size y.size).symm

theorem toRat_ofInt (n : Int) : (ofInt n).toRat = n := by
  unfold toRat size ofInt
  by_cases negative : n < 0
  · have abs : ((n.natAbs : Nat) : ℚ) = -n := by
      rw [Nat.cast_natAbs, abs_of_neg negative, Int.cast_neg]
    simp [negative, abs]
  · have abs : ((n.natAbs : Nat) : ℚ) = n := by
      rw [Nat.cast_natAbs, abs_of_nonneg (not_lt.mp negative)]
    simp [negative, abs]

end Scientific

/-! ## §2 Decimals -/

/-- The rational numbers with an infinity below and one above them. -/
abbrev ExactValue : Type := WithBot (WithTop ℚ)

namespace ExactValue

/-- A rational number as a value. -/
def ofRat (q : ℚ) : ExactValue := WithBot.some (WithTop.some q)

theorem ofRat_strictMono : StrictMono ofRat :=
  WithBot.coe_strictMono.comp WithTop.coe_strictMono

theorem bot_lt_ofRat (q : ℚ) : ⊥ < ofRat q := WithBot.bot_lt_coe _

theorem ofRat_lt_top (q : ℚ) : ofRat q < ⊤ := WithBot.coe_lt_coe.mpr (WithTop.coe_lt_top q)

theorem bot_lt_top : (⊥ : ExactValue) < ⊤ := WithBot.bot_lt_coe _

end ExactValue

namespace Decimal

/-- The value of a decimal; a NaN has none. -/
def value? : Decimal → Option ExactValue
  | .finite x => some (.ofRat x.toRat)
  | .infinite true => some ⊥
  | .infinite false => some ⊤
  | .nan .. => none

variable {d e : Decimal} {v w : ExactValue}

theorem isSignaling_of_value (h : d.value? = some v) : d.isSignaling = false := by
  cases d with
  | nan negative signaling payload => cases h
  | _ => rfl

theorem value?_eq_none_iff : d.value? = none ↔ ∃ negative signaling payload,
    d = .nan negative signaling payload := by
  cases d with
  | nan negative signaling payload => simp [value?]
  | finite x => simp [value?]
  | infinite negative => cases negative <;> simp [value?]

/-- No other decimal has the value of an infinity. -/
theorem eq_infinite_of_value {negative : Bool} (h : d.value? = (infinite negative).value?) :
    d = .infinite negative := by
  cases d with
  | nan sign signaling payload => cases negative <;> cases h
  | infinite sign => cases negative <;> cases sign <;> first | rfl | cases h
  | finite x =>
    cases negative with
    | false => exact absurd (Option.some.inj h) (ExactValue.ofRat_lt_top _).ne
    | true => exact absurd (Option.some.inj h) (ExactValue.bot_lt_ofRat _).ne'

/-- Decimals with values are compared by them. -/
theorem order?_of_value (hd : d.value? = some v) (he : e.value? = some w) :
    d.order? e = some (cmp v w) := by
  -- Finite decimals compare as rational numbers, and the infinities are the ends of the order.
  cases d with
  | nan negative signaling payload => cases hd
  | finite x =>
    cases hd
    cases e with
    | nan negative signaling payload => cases he
    | finite y =>
      cases he
      rw [ExactValue.ofRat_strictMono.cmp_map_eq, ← Scientific.order_eq_cmp]
      rfl
    | infinite negative =>
      cases negative <;> cases he
      · rw [(ExactValue.ofRat_lt_top _).cmp_eq_lt]
        rfl
      · rw [(ExactValue.bot_lt_ofRat _).cmp_eq_gt]
        rfl
  | infinite negative =>
    cases e with
    | nan negative signaling payload => cases he
    | finite y =>
      cases he
      cases negative <;> cases hd
      · rw [(ExactValue.ofRat_lt_top _).cmp_eq_gt]
        rfl
      · rw [(ExactValue.bot_lt_ofRat _).cmp_eq_lt]
        rfl
    | infinite other =>
      cases negative <;> cases hd <;> cases other <;> cases he
      · rw [cmp_self_eq_eq]
        rfl
      · rw [ExactValue.bot_lt_top.cmp_eq_gt]
        rfl
      · rw [ExactValue.bot_lt_top.cmp_eq_lt]
        rfl
      · rw [cmp_self_eq_eq]
        rfl

/-- Without a value there is no order. -/
theorem order?_of_no_value (h : d.value? = none ∨ e.value? = none) : d.order? e = none := by
  rcases h with none | none
  · obtain ⟨_, _, _, rfl⟩ := value?_eq_none_iff.mp none
    rfl
  · obtain ⟨_, _, _, rfl⟩ := value?_eq_none_iff.mp none
    cases d <;> rfl

theorem order?_swap (d e : Decimal) : e.order? d = (d.order? e).map Ordering.swap := by
  cases hd : d.value? with
  | none => rw [order?_of_no_value (.inr hd), order?_of_no_value (.inl hd), Option.map_none]
  | some v =>
    cases he : e.value? with
    | none => rw [order?_of_no_value (.inl he), order?_of_no_value (.inr he), Option.map_none]
    | some w => rw [order?_of_value hd he, order?_of_value he hd, Option.map_some, cmp_swap]

end Decimal

/-! ## §3 Numbers -/

namespace Number

/-- The value of a number in any representation; a NaN has none. -/
def value? (x : Number) : Option ExactValue := x.exact.value?

variable {x y z : Number} {v w : ExactValue}

theorem value?_int (n : Int) : (int n).value? = some (.ofRat n) := by
  show some (ExactValue.ofRat (Scientific.ofInt n).toRat) = _
  rw [Scientific.toRat_ofInt]

/-- Numbers with values are compared by them. -/
theorem order?_of_value (hx : x.value? = some v) (hy : y.value? = some w) :
    x.order? y = .ok (some (cmp v w)) := by
  unfold order?
  rw [Decimal.isSignaling_of_value hx, Decimal.isSignaling_of_value hy,
    Decimal.order?_of_value hx hy]
  rfl

/-- Whole numbers are compared as such. -/
theorem order?_int (m n : Int) : (int m).order? (int n) = .ok (some (cmp m n)) := by
  rw [order?_of_value (value?_int m) (value?_int n), ExactValue.ofRat_strictMono.cmp_map_eq,
    Int.cast_strictMono.cmp_map_eq]

/-- Two numbers that can be compared have an order unless one of them is NaN. -/
theorem order?_eq_ok_iff {o : Option Ordering} : x.order? y = .ok o ↔
    x.exact.isSignaling = false ∧ y.exact.isSignaling = false ∧ o = x.exact.order? y.exact := by
  unfold order?
  cases x.exact.isSignaling <;> cases y.exact.isSignaling <;> simp [eq_comm]

theorem order?_swap (x y : Number) : y.order? x = (x.order? y).map (Option.map Ordering.swap) := by
  unfold order?
  rw [Bool.or_comm, Decimal.order?_swap x.exact y.exact]
  split <;> rfl

theorem equals_comm (x y : Number) : x.equals y = y.equals x := by
  unfold equals
  rw [order?_swap x y]
  cases x.order? y with
  | error cause => rfl
  | ok order =>
    cases order with
    | none => rfl
    | some o => cases o <;> rfl

/-- A number can be replaced in any comparison by another one of its value. -/
theorem order?_congr (hx : x.value? = some v) (hy : y.value? = some v) (z : Number) :
    x.order? z = y.order? z ∧ z.order? x = z.order? y := by
  have quietX := Decimal.isSignaling_of_value hx
  have quietY := Decimal.isSignaling_of_value hy
  cases hz : z.value? with
  | some w =>
    rw [order?_of_value hx hz, order?_of_value hy hz, order?_of_value hz hx, order?_of_value hz hy]
    exact ⟨rfl, rfl⟩
  | none =>
    unfold order?
    rw [quietX, quietY, Decimal.order?_of_no_value (.inr hz), Decimal.order?_of_no_value (.inr hz),
      Decimal.order?_of_no_value (.inl hz), Decimal.order?_of_no_value (.inl hz)]
    exact ⟨rfl, rfl⟩

theorem equals_congr (hx : x.value? = some v) (hy : y.value? = some v) (z : Number) :
    x.equals z = y.equals z ∧ z.equals x = z.equals y := by
  obtain ⟨left, right⟩ := order?_congr hx hy z
  unfold equals
  rw [left, right]
  exact ⟨rfl, rfl⟩

theorem isNaN_of_value (hx : x.value? = some v) : x.isNaN = .ok false := by
  unfold isNaN equals
  rw [order?_of_value hx hx, cmp_self_eq_eq]
  rfl

/-- Numbers of one value count alike as true or false. -/
theorem isTruthy_congr (hx : x.value? = some v) (hy : y.value? = some v) :
    x.isTruthy = y.isTruthy := by
  unfold isTruthy
  rw [(equals_congr hx hy (.int 0)).1, isNaN_of_value hx, isNaN_of_value hy]

/-- Numbers are equal exactly if they have one value. -/
theorem equals_eq_true_iff :
    x.equals y = .ok true ↔ ∃ v, x.value? = some v ∧ y.value? = some v := by
  constructor
  · intro equal
    obtain ⟨o, ordered, isEq⟩ := Except.map_eq_ok.mp equal
    obtain ⟨_, _, rfl⟩ := order?_eq_ok_iff.mp ordered
    have order : x.exact.order? y.exact = some .eq := by simpa using isEq
    -- A number without a value has no order.
    cases hx : x.value? with
    | none =>
      rw [Decimal.order?_of_no_value (.inl hx)] at order
      cases order
    | some v =>
      cases hy : y.value? with
      | none =>
        rw [Decimal.order?_of_no_value (.inr hy)] at order
        cases order
      | some w =>
        rw [Decimal.order?_of_value hx hy, Option.some.injEq, cmp_eq_eq_iff] at order
        exact ⟨w, congrArg some order, rfl⟩
  · rintro ⟨v, hx, hy⟩
    unfold equals
    rw [order?_of_value hx hy, cmp_self_eq_eq]
    rfl

theorem equals_of_value (hx : x.value? = some v) (hy : y.value? = some v) :
    x.equals y = .ok true :=
  equals_eq_true_iff.mpr ⟨v, hx, hy⟩

/-- Numbers that one number is equal to are equal to each other. -/
theorem equals_of_equals (hx : z.equals x = .ok true) (hy : z.equals y = .ok true) :
    x.equals y = .ok true := by
  obtain ⟨v, valueZ, valueX⟩ := equals_eq_true_iff.mp hx
  obtain ⟨w, valueZ', valueY⟩ := equals_eq_true_iff.mp hy
  rw [valueZ] at valueZ'
  cases valueZ'
  exact equals_of_value valueX valueY

end Number

end Visibility
