import Mathlib.Algebra.Order.Group.Abs
import Visibility.Proofs.ShortestDecimal

/-!
# Correct rounding

A number is correctly rounded if no double is nearer to it, and if of two doubles that are equally
near the one with an even significand was taken; from half a step above the greatest double on the
result is an infinity.  This says nothing of how a quotient is rounded, and it leaves one double for
each number.

* `Nearest` — being the correctly rounded double of a number
* `roundedUnits_nearest` — a rounded quotient is nearest among all counts of units of doubles
* `nearest_ofQuotient`, `nearest_ofScientific`, `nearest_ofNat` — the roundings are correct
* `Nearest.unique` — no number has two correctly rounded doubles
-/

namespace Visibility.Double

/-! ## §1 Nearest doubles -/

/-- How far a count of units is from a number, in units. -/
def distance (size : ℚ) (units : Nat) : ℚ := |size * unitsPerOne - units|

/-- The double is the number of this sign and size, correctly rounded. -/
inductive Nearest (negative : Bool) (size : ℚ) : Double → Prop where
  | finite {units : Nat} (representable : Representable units) :
      size < overflowStart →
      (∀ other, Representable other → distance size units ≤ distance size other) →
      -- Where another double is as near, the number of steps up to this one is even.
      (∀ other, Representable other → other ≠ units →
        distance size other = distance size units → 2 * spacing units ∣ units) →
      Nearest negative size (.finite negative units representable)
  | infinite : overflowStart ≤ size → Nearest negative size (.infinite negative)

/-! ## §2 Rounding to whole steps -/

/-- A quotient is rounded to a whole number at most half away; a half goes to an even one. -/
theorem roundHalfEven_near (num : Nat) {den : Nat} (pos : 0 < den) :
    2 * |(num : ℤ) - roundHalfEven num den * den| ≤ den ∧
      (2 * |(num : ℤ) - roundHalfEven num den * den| = den → roundHalfEven num den % 2 = 0) := by
  have division : (num : ℤ) = (num / den : Nat) * den + (num % den : Nat) := by
    exact_mod_cast (Nat.div_add_mod' num den).symm
  have rest : num % den < den := Nat.mod_lt num pos
  have down : |(num : ℤ) - (num / den : Nat) * den| = (num % den : Nat) := by
    rw [division, add_sub_cancel_left, Nat.abs_cast]
  have up : |(num : ℤ) - (num / den + 1 : Nat) * den| = den - (num % den : Nat) := by
    have below : (num : ℤ) - (num / den + 1 : Nat) * den = -(den - (num % den : Nat)) := by
      rw [division]
      push_cast
      ring
    rw [below, abs_neg, abs_of_nonneg (by omega)]
  unfold roundHalfEven
  dsimp only
  split_ifs <;> simp only [down, up] <;> omega

/-- So no whole number is nearer. -/
theorem roundHalfEven_nearest (num : Nat) {den : Nat} (pos : 0 < den) (k : Nat) :
    |(num : ℤ) - roundHalfEven num den * den| ≤ |(num : ℤ) - k * den| ∧
      (k ≠ roundHalfEven num den →
        |(num : ℤ) - k * den| = |(num : ℤ) - roundHalfEven num den * den| →
        roundHalfEven num den % 2 = 0) := by
  obtain ⟨near, tie⟩ := roundHalfEven_near num pos
  generalize roundHalfEven num den = m at *
  rcases eq_or_ne k m with rfl | other
  · exact ⟨le_refl _, fun ne => absurd rfl ne⟩
  · -- Two whole numbers are one step apart at least.
    have apart : (den : ℤ) ≤ |(k : ℤ) * den - m * den| := by
      rw [← sub_mul, abs_mul, Nat.abs_cast]
      have : 1 ≤ |(k : ℤ) - m| := Int.one_le_abs (by omega)
      nlinarith
    have triangle : |(k : ℤ) * den - m * den| ≤ |(num : ℤ) - k * den| + |(num : ℤ) - m * den| := by
      rw [abs_sub_comm (num : ℤ) (k * den)]
      exact abs_sub_le _ _ _
    exact ⟨by omega, fun _ same => tie (by omega)⟩

/-- An even number of steps, of which there are no more than a significand has, is an even number of
the steps of the double that it is. -/
theorem two_spacing_dvd {m e : Nat} (short : m ≤ significandLimit) (even : m % 2 = 0) :
    2 * spacing (m * twoPow e) ∣ m * twoPow e := by
  rcases Nat.eq_zero_or_pos m with rfl | pos
  · rw [Nat.zero_mul]
    exact Nat.dvd_zero _
  rcases short.lt_or_eq with below | rfl
  · have size : m * twoPow e < twoPow (53 + e) := by
      rw [twoPow_add]
      exact Nat.mul_lt_mul_of_pos_right below (twoPow_pos e)
    have nonzero : m * twoPow e ≠ 0 := Nat.mul_ne_zero pos.ne' (twoPow_pos e).ne'
    have places : (m * twoPow e).log2 - 52 ≤ e := by
      have := (Nat.log2_lt nonzero).mpr size
      omega
    exact Nat.mul_dvd_mul (Nat.dvd_of_mod_eq_zero even) (Nat.pow_dvd_pow 2 places)
  · -- The limit itself is the power of two at which the steps double.
    have power : significandLimit * twoPow e = twoPow (53 + e) := (twoPow_add 53 e).symm
    have places : (twoPow (53 + e)).log2 = 53 + e := Nat.log2_two_pow
    have steps : 2 * twoPow (53 + e - 52) = twoPow (53 + e - 52 + 1) := by
      rw [twoPow_succ, Nat.mul_comm]
    unfold spacing
    rw [power, places, steps]
    exact Nat.pow_dvd_pow 2 (by omega)

/-! ## §3 Rounding to doubles -/

/-- From the power of two below a number on, all doubles are whole steps. -/
theorem spacing_dvd_or_lt {q other : Nat} (representable : Representable other) :
    spacing q ∣ other ∨ q ≠ 0 ∧ other < twoPow q.log2 := by
  rcases Nat.lt_or_ge other (twoPow q.log2) with below | reached
  · rcases Nat.eq_zero_or_pos q with rfl | pos
    · exact .inl (Nat.one_dvd other)
    · exact .inr ⟨pos.ne', below⟩
  · have nonzero : other ≠ 0 := (Nat.lt_of_lt_of_le (twoPow_pos _) reached).ne'
    have log : q.log2 ≤ other.log2 := (Nat.le_log2 nonzero).mpr reached
    exact .inl ((Nat.pow_dvd_pow 2 (by omega)).trans (spacing_dvd representable))

theorem spacing_dvd_twoPow_log2 (q : Nat) : spacing q ∣ twoPow q.log2 :=
  Nat.pow_dvd_pow 2 (Nat.sub_le _ _)

/-- A quotient is rounded to the nearest of all doubles, and to an even one of two. -/
theorem roundedUnits_nearest {num den other : Nat} (pos : 0 < den)
    (representable : Representable other) :
    |(num : ℤ) - roundedUnits num den * den| ≤ |(num : ℤ) - other * den| ∧
      (other ≠ roundedUnits num den →
        |(num : ℤ) - other * den| = |(num : ℤ) - roundedUnits num den * den| →
        2 * spacing (roundedUnits num den) ∣ roundedUnits num den) := by
  have stepPos : 0 < den * spacing (num / den) := Nat.mul_pos pos (spacing_pos _)
  have short : roundHalfEven num (den * spacing (num / den)) ≤ significandLimit :=
    roundHalfEven_spacing_le num den
  have nearest := roundHalfEven_nearest num stepPos
  have steps (k : Nat) : ((k * spacing (num / den) : Nat) : ℤ) * den =
      k * ((den * spacing (num / den) : Nat) : ℤ) := by
    push_cast
    ring
  unfold roundedUnits
  generalize roundHalfEven num (den * spacing (num / den)) = m at *
  rcases spacing_dvd_or_lt (q := num / den) representable with ⟨k, rfl⟩ | ⟨nonzero, below⟩
  · -- Among whole steps the rounded one is nearest.
    rw [Nat.mul_comm _ k, steps, steps]
    refine ⟨(nearest k).1, fun ne same => two_spacing_dvd short ((nearest k).2 ?_ same)⟩
    rintro rfl
    exact ne rfl
  · -- Any other double is below a power of two that is nearer.
    obtain ⟨k, power⟩ := spacing_dvd_twoPow_log2 (num / den)
    have nearer : |(num : ℤ) - (m * spacing (num / den) : Nat) * den| ≤
        |(num : ℤ) - (twoPow (num / den).log2 : Nat) * den| := by
      rw [power, Nat.mul_comm _ k, steps, steps]
      exact (nearest k).1
    have reached : twoPow (num / den).log2 * den ≤ num :=
      (Nat.mul_le_mul_right den (Nat.log2_self_le nonzero)).trans (Nat.div_mul_le_self num den)
    have further : other * den < twoPow (num / den).log2 * den :=
      Nat.mul_lt_mul_of_pos_right below pos
    have distance {k : Nat} (le : k * den ≤ num) :
        |(num : ℤ) - k * den| = num - (k * den : Nat) := by
      rw [abs_of_nonneg (sub_nonneg.mpr (by exact_mod_cast le)), Nat.cast_mul]
    have closer : |(num : ℤ) - (m * spacing (num / den) : Nat) * den| <
        |(num : ℤ) - other * den| := by
      rw [distance (Nat.le_trans further.le reached)]
      rw [distance reached] at nearer
      exact nearer.trans_lt (by omega)
    exact ⟨closer.le, fun _ same => absurd same closer.ne'⟩

/-! ## §4 The roundings -/

/-- The distance from a quotient, without divisions. -/
theorem distance_div {den : Nat} (pos : 0 < den) (num units : Nat) :
    distance (num / den) units =
      (|((num * unitsPerOne : Nat) : ℤ) - units * den| : ℤ) / (den : ℚ) := by
  have nonzero : (den : ℚ) ≠ 0 := Nat.cast_ne_zero.mpr pos.ne'
  have positive : (0 : ℚ) < den := Nat.cast_pos.mpr pos
  have quotient : (num : ℚ) / den * unitsPerOne - units =
      (num * unitsPerOne - units * den) / den := by
    rw [sub_div, mul_div_cancel_right₀ _ nonzero, div_mul_eq_mul_div]
  unfold distance
  rw [quotient, abs_div, abs_of_pos positive]
  simp only [Int.cast_abs, Int.cast_sub, Int.cast_mul, Int.cast_natCast, Nat.cast_mul]

theorem ofQuotient_cases (negative : Bool) (num den : Nat) :
    ofQuotient negative num den = .infinite negative ∨
      ∃ representable, ofQuotient negative num den =
        .finite negative (roundedUnits (num * unitsPerOne) den) representable := by
  unfold ofQuotient ofSignificand
  dsimp only
  split
  · generalize_proofs representable
    exact .inr ⟨representable, rfl⟩
  · exact .inl rfl

/-- A rounded quotient is correctly rounded. -/
theorem nearest_ofQuotient {den : Nat} (pos : 0 < den) (negative : Bool) (num : Nat) :
    Nearest negative (num / den) (ofQuotient negative num den) := by
  have positive : (0 : ℚ) < den := Nat.cast_pos.mpr pos
  -- As a rational number, the quotient reaches the infinity where the rounded one does.
  have infinite : ofQuotient negative num den = .infinite negative ↔
      (overflowStart : ℚ) ≤ num / den := by
    rw [ofQuotient_eq_infinite pos, and_iff_right rfl, le_div_iff₀ positive]
    exact_mod_cast Iff.rfl
  rcases ofQuotient_cases negative num den with large | ⟨representable, rounded⟩
  · rw [large]
    exact .infinite (infinite.mp large)
  · rw [rounded]
    have small : ¬(overflowStart : ℚ) ≤ num / den := fun large => by
      rw [infinite.mpr large] at rounded
      cases rounded
    refine .finite representable (not_le.mp small) (fun other isDouble => ?_)
      fun other isDouble ne same => ?_
    · rw [distance_div pos, distance_div pos, div_le_div_iff_of_pos_right positive]
      exact_mod_cast (roundedUnits_nearest pos isDouble).1
    · rw [distance_div pos, distance_div pos, div_left_inj' positive.ne'] at same
      exact (roundedUnits_nearest pos isDouble).2 ne (by exact_mod_cast same)

/-- A whole number is correctly rounded. -/
theorem nearest_ofNat (n : Nat) : Nearest false n (ofInt n) := by
  have rounded := nearest_ofQuotient Nat.one_pos false n
  rwa [Nat.cast_one, div_one] at rounded

/-- Zero is a double of either sign. -/
theorem nearest_zero (negative : Bool) : Nearest negative 0 (zero negative) := by
  refine .finite .zero (by exact_mod_cast overflowStart_pos) (fun other _ => ?_) fun _ _ _ _ => ?_
  · unfold distance
    rw [zero_mul, Nat.cast_zero, sub_zero, abs_zero]
    exact abs_nonneg _
  · exact Nat.dvd_zero _

/-- A number in scientific form is correctly rounded. -/
theorem nearest_ofScientific (x : Scientific) : Nearest x.negative x.size (ofScientific x) := by
  by_cases zeroed : x.coefficient = 0
  · rw [Scientific.size_eq_zero.mpr zeroed, ofScientific, if_pos zeroed]
    exact nearest_zero x.negative
  · have pos : 0 < tenPow (-x.exponent).toNat := tenPow_pos _
    rw [ofScientific_eq_ofQuotient zeroed pos (size_eq_div x), size_eq_div x]
    exact nearest_ofQuotient pos _ _

/-! ## §5 One double for each number -/

/-- Between two doubles with even significands there is another double. -/
theorem exists_between {m n : Nat} (double : Representable n) (lt : m < n)
    (evenM : 2 * spacing m ∣ m) (evenN : 2 * spacing n ∣ n) :
    ∃ k, Representable k ∧ m < k ∧ k < n := by
  have positive : 0 < spacing m := spacing_pos m
  -- The steps below are no larger than those above, so there are two of them at least.
  have finer : 2 * spacing m ∣ n := by
    have places : m.log2 - 52 ≤ n.log2 - 52 := Nat.sub_le_sub_right (log2_mono lt.le) 52
    exact (Nat.mul_dvd_mul_left 2 (Nat.pow_dvd_pow 2 places)).trans evenN
  have room : 2 * spacing m ≤ n - m := Nat.le_of_dvd (by omega) (Nat.dvd_sub finer evenM)
  refine ⟨m + spacing m, ⟨by have := double.below; omega, ?_⟩, by omega, by omega⟩
  obtain ⟨half, steps⟩ := evenM
  have whole : m = 2 * half * spacing m := by rw [Nat.mul_right_comm, ← steps]
  have bounded : 2 * half < significandLimit :=
    Nat.lt_of_mul_lt_mul_right (whole.symm.trans_lt (lt_spacing_mul m))
  have limitEven : significandLimit % 2 = 0 := by decide
  have next : m + spacing m = (2 * half + 1) * spacing m := by rw [Nat.succ_mul, ← whole]
  exact ⟨2 * half + 1, m.log2 - 52, by omega, next⟩

/-- Of two doubles that are equally near to a number, not both have an even significand, since no
double between them is nearer. -/
theorem not_lt_of_nearest {size : ℚ} {m n : Nat} (double : Representable n)
    (nearest : ∀ other, Representable other → distance size m ≤ distance size other)
    (same : distance size n = distance size m) (evenM : 2 * spacing m ∣ m)
    (evenN : 2 * spacing n ∣ n) : ¬m < n := by
  intro lt
  obtain ⟨k, isDouble, above, below⟩ := exists_between double lt evenM evenN
  have le := nearest k isDouble
  have ltM : (m : ℚ) < k := Nat.cast_lt.mpr above
  have ltN : (k : ℚ) < n := Nat.cast_lt.mpr below
  unfold distance at same le
  generalize size * unitsPerOne = v at *
  -- The number is the middle of the two doubles.
  have middle : v - m = n - v := by
    rcases abs_eq_abs.mp same with equal | opposite <;> linarith
  have nearer : |v - k| < |v - m| := by
    rw [abs_of_pos (show 0 < v - m by linarith)]
    exact abs_lt.mpr ⟨by linarith, by linarith⟩
  exact absurd le nearer.not_ge

/-- A number has one correctly rounded double. -/
theorem Nearest.unique {negative : Bool} {size : ℚ} {x y : Double} (hx : Nearest negative size x)
    (hy : Nearest negative size y) : x = y := by
  cases hx with
  | infinite large =>
    cases hy with
    | infinite _ => rfl
    | finite _ small _ _ => exact absurd large small.not_ge
  | @finite m doubleM smallM nearestM tieM =>
    cases hy with
    | infinite large => exact absurd large smallM.not_ge
    | @finite n doubleN _ nearestN tieN =>
      -- Both are equally near, so each of them would have to be even.
      have same : distance size n = distance size m :=
        le_antisymm (nearestN m doubleM) (nearestM n doubleN)
      rcases Nat.lt_trichotomy m n with lt | rfl | gt
      · exact absurd lt (not_lt_of_nearest doubleN nearestM same
          (tieM n doubleN lt.ne' same) (tieN m doubleM lt.ne same.symm))
      · rfl
      · exact absurd gt (not_lt_of_nearest doubleM nearestN same.symm
          (tieN m doubleM gt.ne' same.symm) (tieM n doubleN gt.ne same))

end Visibility.Double
