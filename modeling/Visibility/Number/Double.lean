import Visibility.Number.Scientific

/-!
# Double-precision numbers

A finite double is a whole number of *units*, the unit being the least positive double `2 ^ -1074`.
So a double is held as exact data, a sign and a count of units, and everything about it is
arithmetic of natural numbers: its 64-bit word, its exact decimal value, and rounding a quotient to
the nearest double.

Main statements: `roundHalfEven_le` bounds a rounded quotient, and `Double.ofQuotient` rests on it
to build a count of units that needs at most 53 binary digits.
-/

namespace Visibility

/-! ## §1 Finite doubles -/

namespace Double

/-- A unit, the least positive double, is two to the power of minus this. -/
def unitPlaces : Nat := 1074

/-- The number of units in one. -/
def unitsPerOne : Nat := twoPow unitPlaces

/-- The finite doubles end below two to this power. -/
def overflowPlaces : Nat := 1024

/-- The number of units at which the finite doubles end. -/
def unitLimit : Nat := twoPow (overflowPlaces + unitPlaces)

/-- A double has at most 53 binary digits, so its significand is below this. -/
def significandLimit : Nat := twoPow 53

/-- A count of units is a double's if it is below the limit and needs at most 53 binary digits. -/
structure Representable (units : Nat) : Prop where
  below : units < unitLimit
  short : ∃ significand exponent, significand < significandLimit ∧
    units = significand * twoPow exponent

theorem Representable.zero : Representable 0 :=
  ⟨twoPow_pos _, 0, 0, twoPow_pos _, rfl⟩

end Double

/-- A double: not a number, an infinity, or a signed count of units.  Zero has both signs. -/
inductive Double where
  | nan
  | infinite (negative : Bool)
  | finite (negative : Bool) (units : Nat) (representable : Double.Representable units)
  deriving DecidableEq

namespace Double

/-- Zero of either sign. -/
def zero (negative : Bool) : Double :=
  .finite negative 0 .zero

instance : Inhabited Double := ⟨zero false⟩

/-- Whether it is one of the two zeros. -/
def isZero : Double → Bool
  | .finite _ units _ => units == 0
  | _ => false

/-- Whether it is one of the two infinities. -/
def isInfinite : Double → Bool
  | .infinite _ => true
  | _ => false

/-- The double itself, unless it is an infinity. -/
def refuseInfinite {ε : Type} (cause : ε) (x : Double) : Except ε Double :=
  if x.isInfinite then .error cause else .ok x

theorem refuseInfinite_eq_error {ε : Type} {cause refusal : ε} {x : Double} :
    x.refuseInfinite cause = .error refusal ↔ x.isInfinite = true ∧ refusal = cause := by
  unfold refuseInfinite
  split
  · rename_i infinite
    rw [Except.error.injEq, and_iff_right infinite, eq_comm]
  · rename_i finite
    simp only [reduceCtorEq, finite, false_and]

/-! ## §2 Rounding a quotient -/

/-- The whole number nearest to `num / den`; a half goes to the even neighbour. -/
def roundHalfEven (num den : Nat) : Nat :=
  let low := num / den
  let rest := 2 * (num % den)
  -- The remainder decides by whether twice of it reaches the divisor.
  if rest < den then low
  else if den < rest then low + 1
  else if low % 2 = 0 then low else low + 1

theorem roundHalfEven_le (num den : Nat) : roundHalfEven num den ≤ num / den + 1 := by
  unfold roundHalfEven
  dsimp only
  split
  · omega
  · split
    · omega
    · split <;> omega

/-- The distance between doubles of about `units` units: it leaves 53 binary digits. -/
def spacing (units : Nat) : Nat :=
  twoPow (units.log2 - 52)

theorem lt_spacing_mul (units : Nat) : units < significandLimit * spacing units := by
  unfold significandLimit spacing
  rw [← twoPow_add]
  exact Nat.lt_of_lt_of_le (lt_twoPow_log2 units) (twoPow_le_twoPow (by omega))

/-- `significand * 2 ^ exponent` units; at the limit and above it is infinity. -/
def ofSignificand (negative : Bool) (significand exponent : Nat)
    (short : significand ≤ significandLimit) : Double :=
  if below : significand * twoPow exponent < unitLimit then
    .finite negative (significand * twoPow exponent) {
      below
      short := by
        rcases Nat.lt_or_eq_of_le short with lt | eq
        · exact ⟨significand, exponent, lt, rfl⟩
        -- the limit itself is a power of two and so needs a single digit
        · exact ⟨1, 53 + exponent, by decide, by rw [eq, Nat.one_mul, twoPow_add]; rfl⟩ }
  else
    .infinite negative

/-- A quotient in steps of the spacing around it rounds to at most 53 binary digits. -/
theorem roundHalfEven_spacing_le (num den : Nat) :
    roundHalfEven num (den * spacing (num / den)) ≤ significandLimit := by
  refine Nat.le_trans (roundHalfEven_le _ _) ?_
  rw [← Nat.div_div_eq_div_mul]
  exact Nat.div_lt_of_lt_mul (by rw [Nat.mul_comm]; exact lt_spacing_mul _)

/-- The double nearest to `num / den`, of two equally near the one with an even significand; from
half a step above the greatest double on it is infinity. -/
def ofQuotient (negative : Bool) (num den : Nat) : Double :=
  let scaled := num * unitsPerOne
  -- Rounding up may reach the next power of two, whose significand still fits.
  ofSignificand negative (roundHalfEven scaled (den * spacing (scaled / den)))
    ((scaled / den).log2 - 52) (roundHalfEven_spacing_le scaled den)

/-- The double nearest to a whole number. -/
def ofInt (n : Int) : Double :=
  ofQuotient (n < 0) n.natAbs 1

/-- The double nearest to a number in scientific form.  Values that are out of every double's range
by their order of magnitude alone are decided without writing them out. -/
def ofScientific (x : Scientific) : Double :=
  if x.coefficient = 0 then zero x.negative
  -- The greatest double is below 10 to the power of 309, half a unit above 10 to that of -325.
  else if 310 < x.magnitude then .infinite x.negative
  else if x.magnitude < -330 then zero x.negative
  else match x.exponent with
    | .ofNat e => ofQuotient x.negative (x.coefficient * tenPow e) 1
    | .negSucc e => ofQuotient x.negative x.coefficient (tenPow (e + 1))

/-! ## §3 The exact value -/

/-- The decimal digits of a unit, of which the last stands in place `unitPlaces` behind the point:
two to the power of minus `n` is five to the power of `n` over ten to the power of `n`. -/
def unitDigits : Nat := Nat.pow 5 unitPlaces

/-- The exact value of a count of units. -/
def unitsValue (negative : Bool) (units : Nat) : Scientific :=
  ⟨negative, units * unitDigits, -unitPlaces⟩

/-! ## §4 The 64-bit word -/

/-- The fraction field of a word has 52 bits. -/
def fractionLimit : Nat := 0x10000000000000

theorem significandLimit_eq : significandLimit = fractionLimit + fractionLimit := rfl

/-- The 64-bit word of a double; every NaN has the one quiet word. -/
def toWord : Double → Nat
  | .nan => 0x7FF8000000000000
  | .infinite negative => signWord negative + 0x7FF0000000000000
  | .finite negative units _ =>
    signWord negative +
      -- Below the first full significand the exponent field is zero and the word counts units.
      if units < fractionLimit then units
      else (units.log2 - 51) * fractionLimit + (units / spacing units - fractionLimit)
where
  signWord (negative : Bool) : Nat := if negative then 0x8000000000000000 else 0

/-- The double of a 64-bit word. -/
def ofWord (word : Nat) : Double :=
  let negative := word / 0x8000000000000000 % 2 == 1
  let exponent := word / fractionLimit % 2048
  let fraction := word % fractionLimit
  have below : fraction < fractionLimit := Nat.mod_lt _ (by decide)
  -- The greatest exponent field is kept for what is not finite, the least one for small numbers.
  if exponent = 2047 then
    if fraction = 0 then .infinite negative else .nan
  else if exponent = 0 then
    ofSignificand negative fraction 0 (by
      rw [significandLimit_eq]; omega)
  else
    ofSignificand negative (fractionLimit + fraction) (exponent - 1) (by
      rw [significandLimit_eq]; omega)

end Double

end Visibility
