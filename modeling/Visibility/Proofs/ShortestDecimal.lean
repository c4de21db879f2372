import Mathlib.Data.Nat.Log
import Visibility.Number.Shortest
import Visibility.Proofs.NearestDouble

/-!
# The shortest decimal reads back

A double is written by its shortest decimal, and reading rounds that decimal.  The decimals that
round to a double fill an interval around it, whose ends are the middles to the neighbouring doubles;
below a power of two the neighbour is half as far away as above it.  The search for the shortest
decimal stays in that interval, so what it finds is read as the double it started from.

* `roundedUnits_mono` — rounding never reverses the order of two numbers
* `roundedUnits_of_inInterval` — the interval of a double is rounded to it
* `ofScientific_of_size` — every number of the size of the shortest decimal is read as the double
* `shortest_coefficient` — the shortest decimal has no trailing zeros
* `size_shortest_lt_iff` — the shortest decimals are in the order of their doubles
-/

namespace Visibility

namespace Double

/-! ## §1 Rounding in units -/

/-- The count of units that a quotient is rounded to, be it a double's or beyond them all. -/
def roundedUnits (num den : Nat) : Nat :=
  roundHalfEven num (den * spacing (num / den)) * spacing (num / den)

theorem ofQuotient_eq_finite {negative : Bool} {num den units : Nat}
    (representable : Representable units)
    (rounded : roundedUnits (num * unitsPerOne) den = units) :
    ofQuotient negative num den = .finite negative units representable := by
  subst rounded
  unfold ofQuotient ofSignificand
  exact dif_pos representable.below

theorem roundedUnits_of_ofQuotient {negative s : Bool} {num den units : Nat}
    {representable : Representable units}
    (h : ofQuotient negative num den = .finite s units representable) :
    roundedUnits (num * unitsPerOne) den = units := by
  unfold ofQuotient ofSignificand at h
  dsimp only at h
  split at h
  · injection h
  · cases h

theorem roundedUnits_mul_left {k : Nat} (pos : 0 < k) (num den : Nat) :
    roundedUnits (k * num) (k * den) = roundedUnits num den := by
  unfold roundedUnits
  rw [Nat.mul_div_mul_left _ _ pos, Nat.mul_assoc, roundHalfEven_mul_left pos]

theorem roundHalfEven_mono {m n : Nat} (le : m ≤ n) (den : Nat) :
    roundHalfEven m den ≤ roundHalfEven n den := by
  rcases (Nat.div_le_div_right (c := den) le).lt_or_eq with below | same
  · exact (roundHalfEven_le m den).trans (Nat.le_trans below (le_roundHalfEven n den))
  · -- Over one whole number, the remainders are in the order of the numbers.
    have rest : m % den ≤ n % den := by
      have divisionM := Nat.div_add_mod m den
      have divisionN := Nat.div_add_mod n den
      rw [same] at divisionM
      omega
    unfold roundHalfEven
    rw [same]
    dsimp only
    split_ifs <;> omega

theorem spacing_pos (units : Nat) : 0 < spacing units := twoPow_pos _

theorem log2_mono {m n : Nat} (le : m ≤ n) : m.log2 ≤ n.log2 := by
  rw [Nat.log2_eq_log_two, Nat.log2_eq_log_two]
  exact Nat.log_mono_right le

theorem spacing_mono {m n : Nat} (le : m ≤ n) : spacing m ≤ spacing n :=
  twoPow_le_twoPow (Nat.sub_le_sub_right (log2_mono le) 52)

/-- Rounding does not leave the binary order of magnitude downwards. -/
theorem twoPow_log2_le_roundedUnits {num den : Nat} (nonzero : num / den ≠ 0) :
    twoPow (num / den).log2 ≤ roundedUnits num den := by
  have places : twoPow (num / den).log2 =
      twoPow ((num / den).log2 - ((num / den).log2 - 52)) * spacing (num / den) := by
    unfold spacing
    rw [← twoPow_add]
    congr 1
    omega
  unfold roundedUnits
  rw [places]
  apply Nat.mul_le_mul_right
  refine Nat.le_trans ?_ (le_roundHalfEven _ _)
  rw [← Nat.div_div_eq_div_mul, Nat.le_div_iff_mul_le (spacing_pos _), ← places]
  exact Nat.log2_self_le nonzero

/-- Rounding never reverses the order of two numbers. -/
theorem roundedUnits_mono {m n : Nat} (le : m ≤ n) (den : Nat) :
    roundedUnits m den ≤ roundedUnits n den := by
  have floors : m / den ≤ n / den := Nat.div_le_div_right le
  rcases (spacing_mono floors).lt_or_eq with below | same
  · -- The smaller number at most reaches the power of two above it, which the larger one keeps.
    have less : (m / den).log2 - 52 < (n / den).log2 - 52 :=
      lt_of_not_ge fun ge => below.not_ge (twoPow_le_twoPow ge)
    have nonzero : n / den ≠ 0 := by
      intro zero
      rw [zero] at less
      exact Nat.not_lt_zero _ less
    calc roundedUnits m den
        ≤ significandLimit * spacing (m / den) :=
          Nat.mul_le_mul_right _ (roundHalfEven_spacing_le m den)
      _ = twoPow (53 + ((m / den).log2 - 52)) := (twoPow_add ..).symm
      _ ≤ twoPow (n / den).log2 := twoPow_le_twoPow (by omega)
      _ ≤ roundedUnits n den := twoPow_log2_le_roundedUnits nonzero
  · unfold roundedUnits
    rw [same]
    exact Nat.mul_le_mul_right _ (roundHalfEven_mono le _)

/-! ## §2 The interval of a double -/

/-- A quotient is rounded to a whole number that is at most half away; a half needs an even one. -/
theorem roundHalfEven_eq {num den k : Nat} (pos : 0 < den)
    (low : 2 * (k * den) ≤ 2 * num + den) (high : 2 * num ≤ 2 * (k * den) + den)
    (tie : 2 * (k * den) = 2 * num + den ∨ 2 * num = 2 * (k * den) + den → k % 2 = 0) :
    roundHalfEven num den = k := by
  have division : num / den * den + num % den = num := Nat.div_add_mod' num den
  have rest : num % den < den := Nat.mod_lt num pos
  unfold roundHalfEven
  generalize num / den = floor at *
  generalize num % den = r at *
  have atMost : floor ≤ k := by
    by_contra more
    have := Nat.mul_le_mul_right den (Nat.lt_of_not_le more)
    rw [Nat.succ_mul] at this
    omega
  have atLeast : k ≤ floor + 1 := by
    by_contra less
    have := Nat.mul_le_mul_right den (Nat.lt_of_not_le less)
    rw [Nat.succ_mul, Nat.succ_mul] at this
    omega
  rcases atMost.lt_or_eq with below | rfl
  · obtain rfl : k = floor + 1 := by omega
    rw [Nat.succ_mul floor] at low high tie
    dsimp only
    split_ifs <;> omega
  · dsimp only
    split_ifs <;> omega

/-- Up to the next double the spacing stays the same. -/
theorem spacing_above {units q : Nat} (divides : spacing units ∣ units) (le : units ≤ q)
    (near : q < units + spacing units) : spacing q = spacing units := by
  refine Nat.le_antisymm ?_ (spacing_mono le)
  -- The double and the power of two above it are whole steps apart.
  have limit : spacing units ∣ twoPow (units.log2 + 1) := Nat.pow_dvd_pow 2 (by omega)
  have room : spacing units ≤ twoPow (units.log2 + 1) - units :=
    Nat.le_of_dvd (Nat.sub_pos_of_lt (lt_twoPow_log2 units)) (Nat.dvd_sub limit divides)
  have below : q < twoPow (units.log2 + 1) := by
    have := lt_twoPow_log2 units
    omega
  apply twoPow_le_twoPow
  have : q.log2 < units.log2 + 1 := by
    rcases Nat.eq_zero_or_pos q with rfl | pos
    · exact Nat.succ_pos _
    · exact (Nat.log2_lt pos.ne').mpr below
  omega

/-- Down to the double before, it is that of the double before. -/
theorem spacing_below {units q : Nat} (divides : stepBelow units ∣ units) (lt : q < units)
    (near : units ≤ q + stepBelow units) : spacing q = stepBelow units := by
  unfold stepBelow at *
  refine Nat.le_antisymm (spacing_mono (by omega)) ?_
  rcases Nat.eq_zero_or_pos (units - 1) with zero | pos
  · rw [zero]
    exact twoPow_le_twoPow (by simp)
  · -- The double is more than the power of two below it, so it is so by a whole step.
    have start : twoPow (units - 1).log2 ≤ units - 1 := Nat.log2_self_le pos.ne'
    have limit : spacing (units - 1) ∣ twoPow (units - 1).log2 := Nat.pow_dvd_pow 2 (by omega)
    have room : spacing (units - 1) ≤ units - twoPow (units - 1).log2 :=
      Nat.le_of_dvd (by omega) (Nat.dvd_sub divides limit)
    have reached : twoPow (units - 1).log2 ≤ q := by omega
    apply twoPow_le_twoPow
    have : (units - 1).log2 ≤ q.log2 :=
      (Nat.le_log2 (by have := twoPow_pos (units - 1).log2; omega)).mpr reached
    omega

theorem stepBelow_dvd_spacing (units : Nat) : stepBelow units ∣ spacing units :=
  Nat.pow_dvd_pow 2 (Nat.sub_le_sub_right (log2_mono (Nat.sub_le units 1)) 52)

/-- The interval of a double, which holds its ends if the significand is even. -/
structure InInterval (units num den : Nat) : Prop where
  low : 2 * (units * den) ≤ 2 * num + stepBelow units * den
  high : 2 * num ≤ 2 * (units * den) + stepAbove units * den
  tie : 2 * (units * den) = 2 * num + stepBelow units * den ∨
    2 * num = 2 * (units * den) + stepAbove units * den → units / spacing units % 2 = 0

theorem inInterval_of_roundsTo {units num den : Nat} (le : stepBelow units ≤ 2 * units)
    (inside : roundsTo units (2 * num) den = true) : InInterval units num den := by
  -- The ends without a subtraction, which is exact here.
  have low : (2 * units - stepBelow units) * den + stepBelow units * den = 2 * (units * den) := by
    rw [← Nat.add_mul, Nat.sub_add_cancel le, Nat.mul_assoc]
  have high : (2 * units + stepAbove units) * den = 2 * (units * den) + stepAbove units * den := by
    rw [Nat.add_mul, Nat.mul_assoc]
  unfold roundsTo at inside
  dsimp only at inside
  split at inside
  · rename_i even
    rw [Bool.and_eq_true, decide_eq_true_eq, decide_eq_true_eq] at inside
    exact ⟨by omega, by omega, fun _ => beq_iff_eq.mp even⟩
  · rw [Bool.and_eq_true, decide_eq_true_eq, decide_eq_true_eq] at inside
    exact ⟨by omega, by omega, by omega⟩

/-- A count of units in whole steps is what everything up to half a step away is rounded to. -/
theorem roundedUnits_of_near {units num den step steps : Nat} (pos : 0 < den)
    (grid : spacing (num / den) = step) (whole : units = steps * step)
    (low : 2 * (units * den) ≤ 2 * num + step * den)
    (high : 2 * num ≤ 2 * (units * den) + step * den)
    (tie : 2 * (units * den) = 2 * num + step * den ∨ 2 * num = 2 * (units * den) + step * den →
      steps % 2 = 0) :
    roundedUnits num den = units := by
  subst grid whole
  have regroup : steps * spacing (num / den) * den = steps * (den * spacing (num / den)) := by ring
  rw [regroup, Nat.mul_comm _ den] at low high tie
  unfold roundedUnits
  rw [roundHalfEven_eq (Nat.mul_pos pos (spacing_pos _)) low high tie]

theorem even_div_stepBelow {units : Nat} (divides : spacing units ∣ units)
    (even : units / spacing units % 2 = 0) : units / stepBelow units % 2 = 0 := by
  obtain ⟨factor, coarser⟩ := stepBelow_dvd_spacing units
  have whole : units = stepBelow units * (factor * (units / spacing units)) := by
    rw [← Nat.mul_assoc, ← coarser, Nat.mul_div_cancel' divides]
  have split : units / stepBelow units = factor * (units / spacing units) :=
    Nat.div_eq_of_eq_mul_right (spacing_pos _) whole
  rw [split, Nat.mul_mod, even, Nat.mul_zero, Nat.zero_mod]

/-- What lies in the interval of a double is rounded to it. -/
theorem roundedUnits_of_inInterval {units num den : Nat} (representable : Representable units)
    (pos : 0 < den) (inside : InInterval units num den) : roundedUnits num den = units := by
  obtain ⟨low, high, tie⟩ := inside
  have divides : spacing units ∣ units := spacing_dvd representable
  have start : num / den * den ≤ num := Nat.div_mul_le_self num den
  have stop : num < num / den * den + den := Nat.lt_div_mul_add pos
  rcases Nat.lt_or_ge (num / den) units with less | reached
  · -- Below the double the steps are those of the double before, and as many of them are even.
    have dividesBelow : stepBelow units ∣ units := (stepBelow_dvd_spacing units).trans divides
    have even := even_div_stepBelow divides
    have positive : 0 < stepBelow units := spacing_pos _
    have before : num / den * den + den ≤ units * den := by
      rw [← Nat.succ_mul]
      exact Nat.mul_le_mul_right den less
    have near : units ≤ num / den + stepBelow units := by
      by_contra far
      have := Nat.mul_le_mul_right den (Nat.lt_of_not_le far)
      rw [Nat.succ_mul, Nat.add_mul] at this
      have := Nat.mul_le_mul_right den positive
      omega
    refine roundedUnits_of_near pos (spacing_below dividesBelow less near)
      (Nat.div_mul_cancel dividesBelow).symm low (by omega) fun ends => even (tie ?_)
    rcases ends with lowEnd | highEnd
    · exact .inl lowEnd
    · omega
  · -- From the double on the steps are its own; the lower end is out of reach.
    unfold stepAbove at high tie
    have after : units * den ≤ num / den * den := Nat.mul_le_mul_right den reached
    have positive := Nat.mul_le_mul_right den (spacing_pos units)
    have near : num / den < units + spacing units := by
      by_contra far
      have := Nat.mul_le_mul_right den (Nat.le_of_not_lt far)
      rw [Nat.add_mul] at this
      omega
    refine roundedUnits_of_near pos (spacing_above divides reached near)
      (Nat.div_mul_cancel divides).symm (by omega) high fun ends => tie ?_
    rcases ends with lowEnd | highEnd
    · omega
    · exact .inr highEnd

/-! ## §3 Reading what was found -/

/-- A number that is not zero is rounded as any quotient of its size is. -/
theorem ofScientific_eq_ofQuotient {x : Scientific} (nonzero : x.coefficient ≠ 0) {num den : Nat}
    (pos : 0 < den) (size : x.size = num / den) :
    ofScientific x = ofQuotient x.negative num den := by
  rw [ofScientific_eq_ofRat nonzero, ofRat_eq_ofQuotient pos (x.abs_toRat.trans size),
    toRat_neg_of_nonzero nonzero]

/-- Larger numbers are not rounded to smaller doubles. -/
theorem ofScientific_mono {x y : Scientific} (nonzero : x.coefficient ≠ 0) (le : x.size ≤ y.size)
    {s t : Bool} {m n : Nat} {representableM : Representable m} {representableN : Representable n}
    (hx : ofScientific x = .finite s m representableM)
    (hy : ofScientific y = .finite t n representableN) : m ≤ n := by
  have nonzeroY : y.coefficient ≠ 0 := by
    intro zero
    exact absurd (Scientific.size_eq_zero.mpr zero) ((Scientific.size_pos nonzero).trans_le le).ne'
  have posX : 0 < tenPow (-x.exponent).toNat := tenPow_pos _
  have posY : 0 < tenPow (-y.exponent).toNat := tenPow_pos _
  have sizeX := size_eq_div x
  have sizeY := size_eq_div y
  rw [ofScientific_eq_ofQuotient nonzero posX sizeX] at hx
  rw [ofScientific_eq_ofQuotient nonzeroY posY sizeY] at hy
  rw [sizeX, sizeY, div_le_div_iff₀ (Nat.cast_pos.mpr posX) (Nat.cast_pos.mpr posY)] at le
  -- With a common denominator the two quotients are in the order of their numerators.
  generalize x.coefficient * tenPow x.exponent.toNat = a at *
  generalize y.coefficient * tenPow y.exponent.toNat = c at *
  generalize tenPow (-x.exponent).toNat = b at *
  generalize tenPow (-y.exponent).toNat = d at *
  have order : d * a ≤ b * c := by
    rw [Nat.mul_comm d, Nat.mul_comm b]
    exact_mod_cast le
  have scaled : d * (a * unitsPerOne) ≤ b * (c * unitsPerOne) := by
    rw [← Nat.mul_assoc, ← Nat.mul_assoc]
    exact Nat.mul_le_mul_right unitsPerOne order
  calc m = roundedUnits (d * (a * unitsPerOne)) (d * b) := by
        rw [roundedUnits_mul_left posY, roundedUnits_of_ofQuotient hx]
    _ ≤ roundedUnits (b * (c * unitsPerOne)) (d * b) := roundedUnits_mono scaled _
    _ = n := by
        rw [Nat.mul_comm d, roundedUnits_mul_left posX, roundedUnits_of_ofQuotient hy]

theorem roundHalfEven_cases (num den : Nat) :
    roundHalfEven num den = num / den ∨ roundHalfEven num den = num / den + 1 := by
  have := le_roundHalfEven num den
  have := roundHalfEven_le num den
  omega

/-- The search only finds decimals in the interval of the double. -/
theorem roundsTo_of_gridPoint? {units dropped : Nat} {p : Scientific}
    (found : gridPoint? units dropped = some p) :
    ∃ n, p = ⟨false, n, (dropped : Int) - unitPlaces⟩ ∧
      roundsTo units (2 * (n * tenPow dropped)) unitDigits = true := by
  unfold gridPoint? at found
  dsimp only at found
  split at found
  · rename_i low _
    exact ⟨_, (Option.some.inj found).symm, low⟩
  · rename_i _ high
    exact ⟨_, (Option.some.inj found).symm, high⟩
  · -- The nearer neighbour is one of the two, and both are inside.
    rename_i low high
    refine ⟨_, (Option.some.inj found).symm, ?_⟩
    rcases roundHalfEven_cases (units * unitDigits) (tenPow dropped) with same | same
    · rw [same]
      exact low
    · rw [same]
      exact high
  · cases found

theorem roundedUnits_zero (den : Nat) : roundedUnits 0 den = 0 := by
  unfold roundedUnits roundHalfEven
  simp

theorem stepBelow_le {units : Nat} (representable : Representable units) (nonzero : units ≠ 0) :
    stepBelow units ≤ 2 * units := by
  have divides := (stepBelow_dvd_spacing units).trans (spacing_dvd representable)
  exact (Nat.le_of_dvd (Nat.pos_of_ne_zero nonzero) divides).trans (by omega)

/-- The size of a decimal in places of the last digits of a unit. -/
theorem size_place (negative : Bool) (n dropped : Nat) :
    (⟨negative, n, (dropped : Int) - unitPlaces⟩ : Scientific).size =
      ((n * tenPow dropped : Nat) : ℚ) / ((unitDigits * unitsPerOne : Nat) : ℚ) := by
  unfold Scientific.size
  rw [unitDigits_mul_unitsPerOne, zpow_sub₀ (by norm_num), zpow_natCast, zpow_natCast, Nat.cast_mul,
    cast_tenPow, cast_tenPow, mul_div_assoc]

/-- A decimal that the search finds is rounded to the double. -/
theorem ofScientific_of_gridPoint? {units dropped : Nat} (representable : Representable units)
    (nonzero : units ≠ 0) {p : Scientific} (found : gridPoint? units dropped = some p) :
    p.coefficient ≠ 0 ∧ ofScientific p = .finite false units representable := by
  obtain ⟨n, rfl, inside⟩ := roundsTo_of_gridPoint? found
  have interval := inInterval_of_roundsTo (stepBelow_le representable nonzero) inside
  have rounded := roundedUnits_of_inInterval representable unitDigits_pos interval
  have notZero : n ≠ 0 := by
    rintro rfl
    rw [Nat.zero_mul, roundedUnits_zero] at rounded
    exact nonzero rounded.symm
  have pos : 0 < unitDigits * unitsPerOne := Nat.mul_pos unitDigits_pos (twoPow_pos _)
  refine ⟨notZero, ?_⟩
  rw [ofScientific_eq_ofQuotient notZero pos (size_place ..)]
  apply ofQuotient_eq_finite
  have units_pos : 0 < unitsPerOne := twoPow_pos _
  rw [Nat.mul_comm _ unitsPerOne, Nat.mul_comm unitDigits, roundedUnits_mul_left units_pos, rounded]

end Double

/-! ## §4 Trailing zeros -/

namespace Scientific

variable {x : Scientific}

theorem size_normalize (x : Scientific) : x.normalize.size = x.size := by
  fun_induction normalize x with
  | case1 x zero =>
    rw [size_eq_zero.mpr zero]
    exact size_eq_zero.mpr rfl
  | case2 x _ trailing ih =>
    have split : x.coefficient = x.coefficient / 10 * 10 := by omega
    rw [ih]
    unfold size
    conv_rhs => rw [split]
    rw [zpow_add_one₀ (by norm_num)]
    push_cast
    ring
  | case3 => rfl

/-- Without its trailing zeros, a number that is not zero ends in another digit. -/
theorem coefficient_normalize (nonzero : x.coefficient ≠ 0) : x.normalize.coefficient % 10 ≠ 0 := by
  fun_induction normalize x with
  | case1 x zero => exact absurd zero nonzero
  | case2 x _ trailing ih => exact ih (by dsimp only; omega)
  | case3 x _ ends => exact ends

end Scientific

namespace Double

/-! ## §5 The shortest decimal -/

variable {units : Nat}

/-- The search ends with a decimal that is rounded to the double, or it leaves the exact value. -/
theorem shortest_eq_normalize (representable : Representable units) (nonzero : units ≠ 0) :
    ∃ p : Scientific, shortest units = p.normalize ∧ p.coefficient ≠ 0 ∧
      ofScientific p = .finite false units representable := by
  unfold shortest
  dsimp only
  cases search : (List.range 17).findSome? fun n => gridPoint? units
      (digitCount (unitsValue false units).coefficient - (n + 1)) with
  | none =>
    have notZero : (unitsValue false units).coefficient ≠ 0 :=
      Nat.mul_ne_zero nonzero unitDigits_pos.ne'
    refine ⟨_, rfl, notZero, ?_⟩
    exact (ofScientific_eq_ofRat notZero).trans (ofRat_toRat representable nonzero)
  | some p =>
    obtain ⟨n, -, found⟩ := List.exists_of_findSome?_eq_some search
    exact ⟨p, rfl, ofScientific_of_gridPoint? representable nonzero found⟩

/-- The shortest decimal has no trailing zeros. -/
theorem shortest_coefficient (representable : Representable units) (nonzero : units ≠ 0) :
    (shortest units).coefficient % 10 ≠ 0 := by
  obtain ⟨p, same, notZero, -⟩ := shortest_eq_normalize representable nonzero
  rw [same]
  exact Scientific.coefficient_normalize notZero

theorem shortest_ne_zero (representable : Representable units) (nonzero : units ≠ 0) :
    (shortest units).coefficient ≠ 0 := by
  intro zero
  apply shortest_coefficient representable nonzero
  rw [zero]

/-- Every number of the size of the shortest decimal is rounded to the double, with its own sign. -/
theorem ofScientific_of_size (representable : Representable units) (nonzero : units ≠ 0)
    {x : Scientific} (size : x.size = (shortest units).size) :
    ofScientific x = .finite x.negative units representable := by
  obtain ⟨p, same, notZero, rounded⟩ := shortest_eq_normalize representable nonzero
  rw [same, Scientific.size_normalize] at size
  have notZeroX : x.coefficient ≠ 0 := by
    rw [ne_eq, ← Scientific.size_eq_zero, size, Scientific.size_eq_zero]
    exact notZero
  have pos : 0 < tenPow (-p.exponent).toNat := tenPow_pos _
  rw [ofScientific_eq_ofQuotient notZero pos (size_eq_div p)] at rounded
  rw [ofScientific_eq_ofQuotient notZeroX pos (size.trans (size_eq_div p))]
  exact ofQuotient_eq_finite representable (roundedUnits_of_ofQuotient rounded)

/-- The shortest decimals of two doubles are in the order of the doubles. -/
theorem size_shortest_lt_iff {m n : Nat} (representableM : Representable m) (nonzeroM : m ≠ 0)
    (representableN : Representable n) (nonzeroN : n ≠ 0) :
    (shortest m).size < (shortest n).size ↔ m < n := by
  have notZeroM := shortest_ne_zero representableM nonzeroM
  have notZeroN := shortest_ne_zero representableN nonzeroN
  have roundedM := ofScientific_of_size representableM nonzeroM (x := shortest m) rfl
  have roundedN := ofScientific_of_size representableN nonzeroN (x := shortest n) rfl
  constructor
  · intro less
    have le := ofScientific_mono notZeroM less.le roundedM roundedN
    refine lt_of_le_of_ne le ?_
    rintro rfl
    exact less.false
  · intro less
    by_contra ge
    have le := ofScientific_mono notZeroN (not_lt.mp ge) roundedN roundedM
    omega

theorem digitCount_eq {n k : Nat} (low : tenPow k ≤ n) (high : n < tenPow (k + 1)) :
    digitCount n = k + 1 := by
  have pos : 0 < n := (tenPow_pos k).trans_le low
  have below := tenPow_digitCount_le pos
  have above := lt_tenPow_digitCount n
  have digits := digitCount_pos n
  apply Nat.le_antisymm
  · by_contra more
    exact (high.trans_le ((tenPow_le_tenPow (by omega)).trans below)).false
  · by_contra less
    exact (above.trans_le ((tenPow_le_tenPow (by omega)).trans low)).false

/-- The search ends with a decimal that has no needless zeros. -/
theorem shortest_of_search {count : Nat} {p : Scientific}
    (digits : digitCount (units * unitDigits) = count)
    (found : ((List.range 17).findSome? fun n => gridPoint? units (count - (n + 1))) = some p)
    (ends : p.coefficient % 10 ≠ 0) : shortest units = p := by
  have nonzero : p.coefficient ≠ 0 := by
    intro zero
    rw [zero] at ends
    exact ends rfl
  unfold shortest unitsValue
  dsimp only
  rw [digits, found, Option.getD_some, Scientific.normalize, if_neg nonzero, if_neg ends]

/-- If some decimal of one digit rounds to the double, the search ends with it. -/
theorem shortest_of_gridPoint? {count : Nat} {p : Scientific}
    (digits : digitCount (units * unitDigits) = count + 1)
    (found : gridPoint? units count = some p) : shortest units = p.normalize := by
  unfold shortest unitsValue
  dsimp only
  rw [List.range_succ_eq_map, List.findSome?_cons, digits, Nat.zero_add, Nat.add_sub_cancel, found]
  rfl

end Double

end Visibility
