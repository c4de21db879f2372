import Visibility.Number.Layout

/-!
# Decimals

A decimal keeps the digits it was given: `9.50` and `9.5` are equal and differ as texts.  Besides
the finite ones there are two infinities and two kinds of NaN; a *signaling* NaN refuses to be
compared at all.

`Decimal.text` is the scientific notation of a decimal: in place if no zeros have to be added after
the digits and at most five before the first of them behind the point, otherwise with an exponent.
-/

namespace Visibility

/-- A decimal number.  The payload of a NaN is a number that is written after it; zero is none. -/
inductive Decimal where
  | finite (value : Scientific)
  | infinite (negative : Bool)
  | nan (negative signaling : Bool) (payload : Nat)
  deriving DecidableEq, Repr

namespace Decimal

/-- Whether it is a NaN that refuses to be compared. -/
def isSignaling : Decimal → Bool
  | .nan _ signaling _ => signaling
  | _ => false

/-- The order of two decimals by value; there is none if one of them is a NaN. -/
def order? : Decimal → Decimal → Option Ordering
  | .nan .., _ => none
  | _, .nan .. => none
  | .finite x, .finite y => some (x.order y)
  -- A set sign is the smaller one.
  | .infinite s, .infinite t => some (compare t.toNat s.toNat)
  | .infinite s, .finite _ => some (if s then .lt else .gt)
  | .finite _, .infinite t => some (if t then .gt else .lt)

/-- The double nearest to a decimal. -/
def toDouble : Decimal → Double
  | .finite x => .ofScientific x
  | .infinite negative => .infinite negative
  | .nan .. => .nan

/-- The text of a finite decimal without its sign. -/
def finiteText (x : Scientific) : List Char :=
  let digits := digitsOf x.coefficient
  let point : Int := digits.length + x.exponent
  -- A positive exponent would need zeros that are no digits of the decimal.
  if x.exponent ≤ 0 ∧ -6 < point then
    placePoint digits point
  else
    leadingPoint digits ++ if point = 1 then [] else 'E' :: signedExponent 1 (point - 1)

/-- The text of a decimal. -/
def text : Decimal → String
  | .finite x => String.ofList (signChars x.negative ++ finiteText x)
  | .infinite negative => String.ofList (signChars negative) ++ "Infinity"
  | .nan negative signaling payload =>
    String.ofList (signChars negative) ++ (if signaling then "sNaN" else "NaN") ++
      String.ofList (if payload = 0 then [] else digitsOf payload)

end Decimal

/-- The exact value of a double, as a decimal. -/
def Double.exact : Double → Decimal
  | .nan => .nan false false 0
  | .infinite negative => .infinite negative
  | .finite negative units _ => .finite (unitsValue negative units)

end Visibility
