import Visibility.Number.Double

/-!
# Arithmetic of doubles

Sums and products of doubles: the exact result, which for finite doubles is a whole number of units
over a power of two, is rounded to the nearest double.
-/

namespace Visibility.Double

/-- The double with the opposite sign. -/
def neg : Double → Double
  | .nan => .nan
  | .infinite negative => .infinite !negative
  | .finite negative units h => .finite (!negative) units h

/-- A count of units with its sign. -/
def signedUnits (negative : Bool) (units : Nat) : Int :=
  if negative then -(units : Int) else units

/-- The sum of two doubles. -/
def add (x y : Double) : Double :=
  match x, y with
  | .nan, _ | _, .nan => .nan
  | .infinite a, .infinite b => if a = b then .infinite a else .nan
  | .infinite a, .finite .. => .infinite a
  | .finite .., .infinite b => .infinite b
  | .finite a m _, .finite b n _ =>
    let sum := signedUnits a m + signedUnits b n
    -- A sum of zero is negative only if both numbers are.
    .ofQuotient (if sum = 0 then a && b else sum < 0) sum.natAbs unitsPerOne

/-- The product of two doubles. -/
def mul (x y : Double) : Double :=
  match x, y with
  | .nan, _ | _, .nan => .nan
  | .infinite a, .infinite b => .infinite (a != b)
  | .infinite a, .finite b n _ | .finite b n _, .infinite a =>
    if n = 0 then .nan else .infinite (a != b)
  | .finite a m _, .finite b n _ => .ofQuotient (a != b) (m * n) (unitsPerOne * unitsPerOne)

theorem neg_neg (x : Double) : x.neg.neg = x := by
  cases x <;> simp [neg]

theorem add_comm (x y : Double) : x.add y = y.add x := by
  cases x <;> cases y <;> simp only [add]
  · rename_i a b
    by_cases h : a = b
    · simp [h]
    · simp [h, Ne.symm h]
  · rename_i a m _ b n _
    rw [Int.add_comm, Bool.and_comm]

end Visibility.Double
