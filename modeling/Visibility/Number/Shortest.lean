import Visibility.Number.Double

/-!
# The shortest decimal of a double

Among the decimals that round to a given double, `Double.shortest` takes those with the fewest
digits, and of these the one nearest to the double; of two equally near ones the even one.

The decimals of `n` digits around a double form a grid, and if any point of the grid rounds to the
double, so does one of the two grid points next to it.  `Double.gridPoint?` looks at these two,
and `Double.shortest` tries the grid of one digit, of two digits and so on.
-/

namespace Visibility.Double

/-! ## §1 What rounds to a double -/

/-- Twice the distance from the double of `units` units down to the middle between it and the double
below. -/
def stepBelow (units : Nat) : Nat := spacing (units - 1)

/-- Twice the distance from the double of `units` units up to the middle between it and the double
above. -/
def stepAbove (units : Nat) : Nat := spacing units

/-- Whether the significand is even, so that the two middles around the double round to it. -/
def hasEvenSignificand (units : Nat) : Bool :=
  units / spacing units % 2 == 0

/-- Whether `scaled` parts, of which `unit` make half a unit, round to the positive double of
`units` units. -/
def roundsTo (units scaled unit : Nat) : Bool :=
  -- Both ends are twice the middles, so that halves of steps are whole numbers.
  let low := (2 * units - stepBelow units) * unit
  let high := (2 * units + stepAbove units) * unit
  if hasEvenSignificand units then low ≤ scaled && scaled ≤ high else low < scaled && scaled < high

/-! ## §2 The search -/

/-- The decimal nearest to the positive double of `units` units that rounds to it, among those
that leave out the last `dropped` digits of its exact value. -/
def gridPoint? (units dropped : Nat) : Option Scientific :=
  let unit := unitDigits
  let exact := units * unit
  let grid := tenPow dropped
  let low := exact / grid
  let point (n : Nat) : Scientific := ⟨false, n, (dropped : Int) - unitPlaces⟩
  let inside (n : Nat) : Bool := roundsTo units (2 * (n * grid)) unit
  -- If both neighbours round to the double, the nearer one is taken.
  match inside low, inside (low + 1) with
  | true, false => some (point low)
  | false, true => some (point (low + 1))
  | true, true => some (point (roundHalfEven exact grid))
  | false, false => none

/-- The shortest decimal that rounds to the positive double of `units` units, without trailing
zeros.  Seventeen digits are always enough. -/
def shortest (units : Nat) : Scientific :=
  let exact := unitsValue false units
  let count := digitCount exact.coefficient
  (((List.range 17).findSome? fun n => gridPoint? units (count - (n + 1))).getD exact).normalize

end Visibility.Double
