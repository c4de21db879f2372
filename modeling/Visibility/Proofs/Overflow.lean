import Mathlib.Algebra.Order.Ring.Nat
import Mathlib.Tactic.Linarith
import Mathlib.Tactic.Ring
import Visibility.Number.Double

/-!
# Where the doubles end

A number rounds to an infinity from half a step above the greatest double on, which is the tie that
goes up.  `overflowStart` is that number, and the three ways to round a number to a double agree on
it: a quotient, a whole number, and a number in scientific form.

* `le_roundHalfEven_iff` — when a rounded quotient reaches an even number
* `ofQuotient_eq_infinite` — by the binary order of magnitude of the quotient, of which only the last
  one below the limit has to be looked at closely
* `ofInt_eq_infinite`, `ofScientific_eq_infinite` — the cases of interest
-/

namespace Visibility

namespace Double

/-! ## §1 Rounding up to an even number -/

theorem le_roundHalfEven (num den : Nat) : num / den ≤ roundHalfEven num den := by
  unfold roundHalfEven
  dsimp only
  split
  · exact Nat.le_refl _
  · split
    · omega
    · split <;> omega

/-- A rounded quotient reaches an even number from half a step below it on. -/
theorem le_roundHalfEven_iff {num den k : Nat} (pos : 0 < den) (even : k % 2 = 0) :
    k ≤ roundHalfEven num den ↔ 2 * (k * den) ≤ 2 * num + den := by
  have division : den * (num / den) + num % den = num := Nat.div_add_mod num den
  have rest : num % den < den := Nat.mod_lt num pos
  set low := num / den
  set r := num % den
  rcases Nat.lt_trichotomy (low + 1) k with below | next | above
  · -- Even rounded up, the quotient stays below.
    have reached : (low + 2) * den ≤ k * den := Nat.mul_le_mul_right den below
    have bounded := roundHalfEven_le num den
    constructor
    · intro le
      omega
    · intro le
      nlinarith
  · -- One step below, which is odd, a half goes up.
    have odd : low % 2 = 1 := by omega
    have stepped : k * den = den * low + den := by rw [← next]; ring
    unfold roundHalfEven
    dsimp only
    split
    · omega
    · split
      · omega
      · split <;> omega
  · have reached : k * den ≤ low * den := Nat.mul_le_mul_right den (by omega)
    have low_le : low ≤ roundHalfEven num den := le_roundHalfEven num den
    constructor
    · intro _
      nlinarith
    · intro _
      omega

/-! ## §2 The first number that is too large -/

/-- Half a step above the greatest double. -/
def overflowStart : Nat := twoPow 1024 - twoPow 970

theorem overflowStart_pos : 0 < overflowStart := by decide +kernel

theorem overflowStart_le : overflowStart ≤ tenPow 310 := by decide +kernel

/-- Half the distance between the greatest doubles, in units. -/
def halfStep : Nat := twoPow 2044

theorem unitLimit_eq : unitLimit = significandLimit * (2 * halfStep) := by decide +kernel

theorem overflowStart_units : overflowStart * unitsPerOne + halfStep = unitLimit := by
  decide +kernel

theorem ofSignificand_eq_infinite {negative s : Bool} {significand exponent : Nat}
    {short : significand ≤ significandLimit} :
    ofSignificand negative significand exponent short = .infinite s ↔
      s = negative ∧ unitLimit ≤ significand * twoPow exponent := by
  unfold ofSignificand
  split
  · rename_i below
    simp
    omega
  · rename_i above
    simp only [infinite.injEq, eq_comm, Nat.not_lt.mp above, and_true]

/-! ## §3 Quotients -/

section Rounded

variable {scaled den : Nat}

/-- Below the last order of magnitude, rounding up stays below the limit, and so does half a step
more. -/
theorem rounded_lt_unitLimit (pos : 0 < den) (below : (scaled / den).log2 < 2097) :
    roundHalfEven scaled (den * spacing (scaled / den)) * twoPow ((scaled / den).log2 - 52) <
        unitLimit ∧
      scaled + halfStep * den < unitLimit * den := by
  have above : scaled < den * (scaled / den + 1) := Nat.lt_mul_div_succ scaled pos
  have short := roundHalfEven_spacing_le scaled den
  set q := scaled / den
  have small : twoPow (q.log2 - 52) ≤ halfStep := twoPow_le_twoPow (by omega)
  have rounded := Nat.mul_le_mul short small
  have quotient : q + 1 ≤ significandLimit * halfStep := by
    have := Nat.lt_of_lt_of_le (lt_twoPow_log2 q) (twoPow_le_twoPow (n := 2097) (by omega))
    have same : twoPow 2097 = significandLimit * halfStep := by decide +kernel
    omega
  have scaled_lt := Nat.lt_of_lt_of_le above (Nat.mul_le_mul_left den quotient)
  have positive : 1 < significandLimit := by decide
  have halfStep_pos : 0 < halfStep := twoPow_pos _
  have several := Nat.mul_lt_mul_of_pos_right positive (Nat.mul_pos halfStep_pos pos)
  rw [unitLimit_eq]
  constructor
  · nlinarith
  · nlinarith

/-- In the last order of magnitude the limit is the even number `significandLimit` of steps. -/
theorem unitLimit_le_rounded_iff_last (pos : 0 < den) (last : (scaled / den).log2 = 2097) :
    unitLimit ≤ roundHalfEven scaled (den * spacing (scaled / den)) *
        twoPow ((scaled / den).log2 - 52) ↔
      unitLimit * den ≤ scaled + halfStep * den := by
  have step_pos : 0 < den * spacing (scaled / den) := Nat.mul_pos pos (twoPow_pos _)
  have step : spacing (scaled / den) = 2 * halfStep := by
    unfold spacing
    rw [last]
    decide +kernel
  have even : significandLimit % 2 = 0 := by decide
  have reaches := @le_roundHalfEven_iff scaled _ _ step_pos even
  rw [show twoPow ((scaled / den).log2 - 52) = 2 * halfStep from step]
  rw [step] at reaches ⊢
  have halfStep_pos : 0 < 2 * halfStep := Nat.mul_pos (by decide) (twoPow_pos _)
  rw [unitLimit_eq, Nat.mul_le_mul_right_iff halfStep_pos, reaches]
  have regroup : significandLimit * (den * (2 * halfStep)) =
      significandLimit * (2 * halfStep) * den := by ring
  have twice : den * (2 * halfStep) = 2 * (halfStep * den) := by ring
  rw [regroup, twice]
  omega

/-- Above the last order of magnitude everything is beyond the limit, rounded or not. -/
theorem unitLimit_le_rounded (beyond : 2097 < (scaled / den).log2) :
    unitLimit ≤ roundHalfEven scaled (den * spacing (scaled / den)) *
        twoPow ((scaled / den).log2 - 52) ∧
      unitLimit * den ≤ scaled := by
  have division : den * (scaled / den) ≤ scaled := Nat.mul_div_le scaled den
  set q := scaled / den
  unfold spacing
  have nonzero : q ≠ 0 := by
    intro zero
    rw [zero] at beyond
    exact absurd beyond (by decide)
  have reached : twoPow q.log2 ≤ q := Nat.log2_self_le nonzero
  have limit : unitLimit ≤ twoPow q.log2 := twoPow_le_twoPow (by
    show overflowPlaces + unitPlaces ≤ _
    unfold overflowPlaces unitPlaces
    omega)
  have floor : twoPow 52 ≤ roundHalfEven scaled (den * twoPow (q.log2 - 52)) := by
    refine Nat.le_trans ?_ (le_roundHalfEven _ _)
    rw [← Nat.div_div_eq_div_mul, Nat.le_div_iff_mul_le (twoPow_pos _), ← twoPow_add]
    exact Nat.le_trans (twoPow_le_twoPow (by omega)) reached
  have rounded := Nat.mul_le_mul_right (twoPow (q.log2 - 52)) floor
  rw [← twoPow_add, show 52 + (q.log2 - 52) = q.log2 by omega] at rounded
  refine ⟨Nat.le_trans limit rounded, ?_⟩
  rw [Nat.mul_comm]
  exact Nat.le_trans (Nat.mul_le_mul_left den (Nat.le_trans limit reached)) division

/-- In units, a rounded quotient reaches the limit from half a step below it on. -/
theorem unitLimit_le_rounded_iff (pos : 0 < den) :
    unitLimit ≤ roundHalfEven scaled (den * spacing (scaled / den)) *
        twoPow ((scaled / den).log2 - 52) ↔
      unitLimit * den ≤ scaled + halfStep * den := by
  rcases Nat.lt_trichotomy (scaled / den).log2 2097 with below | last | beyond
  · obtain ⟨rounded, plain⟩ := rounded_lt_unitLimit pos below
    exact iff_of_false rounded.not_ge plain.not_ge
  · exact unitLimit_le_rounded_iff_last pos last
  · obtain ⟨rounded, plain⟩ := unitLimit_le_rounded beyond
    exact iff_of_true rounded (Nat.le_add_right_of_le plain)

end Rounded

/-- A quotient rounds to an infinity exactly if it reaches `overflowStart`. -/
theorem ofQuotient_eq_infinite {negative s : Bool} {num den : Nat} (pos : 0 < den) :
    ofQuotient negative num den = .infinite s ↔ s = negative ∧ overflowStart * den ≤ num := by
  unfold ofQuotient
  rw [ofSignificand_eq_infinite, unitLimit_le_rounded_iff pos, ← overflowStart_units]
  have units_pos : 0 < unitsPerOne := twoPow_pos _
  have regroup : (overflowStart * unitsPerOne + halfStep) * den =
      overflowStart * den * unitsPerOne + halfStep * den := by ring
  rw [regroup, Nat.add_le_add_iff_right, Nat.mul_le_mul_right_iff units_pos]

/-- A whole number rounds to an infinity exactly if it reaches `overflowStart` in size. -/
theorem ofInt_eq_infinite {n : Int} {s : Bool} :
    ofInt n = .infinite s ↔ s = decide (n < 0) ∧ overflowStart ≤ n.natAbs := by
  unfold ofInt
  rw [ofQuotient_eq_infinite Nat.one_pos, Nat.mul_one]

/-- Being an infinity, whatever its sign. -/
theorem isInfinite_iff {x : Double} : x.isInfinite = true ↔ ∃ s, x = .infinite s := by
  cases x <;> simp [isInfinite]

theorem isInfinite_ofInt {n : Int} : (ofInt n).isInfinite = true ↔ overflowStart ≤ n.natAbs := by
  simp only [isInfinite_iff, ofInt_eq_infinite, exists_eq_left]

end Double

/-! ## §4 Numbers in scientific form -/

/-- The number reaches `overflowStart` in size. -/
def Scientific.Overflows (x : Scientific) : Prop :=
  Double.overflowStart * tenPow (-x.exponent).toNat ≤ x.coefficient * tenPow x.exponent.toNat

/-- Zero does not. -/
theorem Scientific.Overflows.nonzero {x : Scientific} (large : x.Overflows) : x.coefficient ≠ 0 := by
  intro zeroed
  have := Nat.mul_pos Double.overflowStart_pos (tenPow_pos (-x.exponent).toNat)
  rw [Overflows, zeroed, Nat.zero_mul] at large
  omega

/-- A number of a magnitude above that of every double. -/
theorem Scientific.overflows_of_magnitude {x : Scientific} (nonzero : x.coefficient ≠ 0)
    (large : 310 < x.magnitude) : x.Overflows := by
  unfold magnitude at large
  unfold Overflows
  have reached := tenPow_digitCount_le (Nat.pos_of_ne_zero nonzero)
  have start := Double.overflowStart_le
  calc Double.overflowStart * tenPow (-x.exponent).toNat
      ≤ tenPow 310 * tenPow (-x.exponent).toNat := Nat.mul_le_mul_right _ start
    _ = tenPow (310 + (-x.exponent).toNat) := (tenPow_add _ _).symm
    _ ≤ tenPow (digitCount x.coefficient - 1 + x.exponent.toNat) := tenPow_le_tenPow (by omega)
    _ = tenPow (digitCount x.coefficient - 1) * tenPow x.exponent.toNat := tenPow_add _ _
    _ ≤ x.coefficient * tenPow x.exponent.toNat := Nat.mul_le_mul_right _ reached

/-- A number below one. -/
theorem Scientific.not_overflows_of_magnitude {x : Scientific} (small : x.magnitude ≤ 0) :
    ¬x.Overflows := by
  unfold magnitude at small
  unfold Overflows
  have digits := digitCount_pos x.coefficient
  have negative : x.exponent.toNat = 0 := by omega
  have start := Double.overflowStart_pos
  rw [negative, tenPow_zero, Nat.mul_one, Nat.not_le]
  calc x.coefficient
      < tenPow (digitCount x.coefficient) := lt_tenPow_digitCount _
    _ ≤ tenPow (-x.exponent).toNat := tenPow_le_tenPow (by omega)
    _ ≤ Double.overflowStart * tenPow (-x.exponent).toNat := Nat.le_mul_of_pos_left _ start

/-- A number in scientific form rounds to an infinity exactly if it reaches `overflowStart` in size.
-/
theorem Double.ofScientific_eq_infinite {x : Scientific} {s : Bool} :
    ofScientific x = .infinite s ↔ s = x.negative ∧ x.Overflows := by
  unfold ofScientific
  split
  · rename_i zeroed
    have : ¬x.Overflows := fun large => large.nonzero zeroed
    simp [this, zero]
  · rename_i nonzero
    split
    · rename_i large
      simp [Scientific.overflows_of_magnitude nonzero large, eq_comm]
    · split
      · rename_i small
        simp [Scientific.not_overflows_of_magnitude (x := x) (by omega), zero]
      · split
        · rename_i e same
          rw [ofQuotient_eq_infinite Nat.one_pos]
          simp [Scientific.Overflows, same]
        · rename_i e same
          rw [ofQuotient_eq_infinite (tenPow_pos _)]
          simp [Scientific.Overflows, same]

theorem Double.isInfinite_ofScientific {x : Scientific} :
    (ofScientific x).isInfinite = true ↔ x.Overflows := by
  simp only [isInfinite_iff, ofScientific_eq_infinite, exists_eq_left]

end Visibility
