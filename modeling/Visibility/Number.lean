import Visibility.Failure
import Visibility.Number.Decimal

/-!
# Numbers

A number is a whole number of any size, a double or a decimal.  The three representations are one
type: numbers are compared by their exact values, without any rounding, and a number is written by
the shortest digits of the double nearest to it.
-/

namespace Visibility

/-- A number in one of its three representations. -/
inductive Number where
  | int (n : Int)
  | double (x : Double)
  | decimal (d : Decimal)
  deriving DecidableEq

namespace Number

/-! ## §1 Comparing -/

/-- The exact value. -/
def exact : Number → Decimal
  | .int n => .finite (.ofInt n)
  | .double x => x.exact
  | .decimal d => d

/-- The order of two numbers by exact value; there is none if one of them is NaN, and a signaling
NaN cannot be compared. -/
def order? (x y : Number) : Except CoercionError (Option Ordering) :=
  if x.exact.isSignaling || y.exact.isSignaling then .error .signalingNaN
  else .ok (x.exact.order? y.exact)

/-- Whether two numbers are equal. -/
def equals (x y : Number) : Except CoercionError Bool :=
  (x.order? y).map (· == some .eq)

/-- Whether a number is NaN: the one number that does not equal itself. -/
def isNaN (x : Number) : Except CoercionError Bool :=
  (x.equals x).map (!·)

/-- Whether a number counts as true: it is neither zero nor NaN. -/
def isTruthy (x : Number) : Except CoercionError Bool := do
  if ← x.equals (.int 0) then return false
  return !(← x.isNaN)

/-! ## §2 Writing -/

/-- The text of a number in condition code.  A whole number or a decimal that rounds beyond the
greatest double has none. -/
def text : Number → Except CoercionError String
  | .double x => .ok (Layout.condition.write x)
  -- Whole numbers are written like the doubles nearest to them.
  | .int n => do
    let x ← (Double.ofInt n).refuseInfinite .integerTooLarge
    return Layout.condition.write x
  | .decimal (.nan _ true _) => .error .signalingNaN
  | .decimal (.nan _ false _) => .ok "NaN"
  | .decimal (.infinite negative) => .ok (Layout.condition.write (.infinite negative))
  | .decimal (.finite value) => do
    if value.coefficient = 0 then return "0"
    let x ← (Double.ofScientific value).refuseInfinite .decimalTooLarge
    -- A decimal that is not zero keeps its sign even if its double is zero.
    if x.isZero then return String.ofList (signChars value.negative ++ ['0'])
    return Layout.condition.write x

end Number

end Visibility
