import Visibility.Number.Shortest

/-!
# Layouts of numbers

How the digits of a number become a text: in place, with the point among them or zeros around them,
or with one digit before the point and an exponent.  A `Layout` says where the one form ends and the
other begins.  Two layouts occur: `Layout.condition`, the number text of condition code, and
`Layout.json`, the number text inside a JSON document.
-/

namespace Visibility

/-! ## §1 Digits and the point -/

/-- The decimal digits of a number. -/
def digitsOf (n : Nat) : List Char :=
  Nat.toDigits 10 n

/-- Writes `digits` with the decimal point after the first `point` of them, filled up with zeros on
the side that is short of digits. -/
def placePoint (digits : List Char) (point : Int) : List Char :=
  -- The point stands before the digits, after them, or among them.
  if point ≤ 0 then
    '0' :: '.' :: (List.replicate point.natAbs '0' ++ digits)
  else if digits.length ≤ point.toNat then
    digits ++ List.replicate (point.toNat - digits.length) '0'
  else
    digits.take point.toNat ++ '.' :: digits.drop point.toNat

/-- Writes `digits` with one of them before the point, and no point after a single digit. -/
def leadingPoint : List Char → List Char
  | [] => []
  | [d] => [d]
  | d :: ds => d :: '.' :: ds

/-- Writes an exponent with its sign and at least `width` digits. -/
def signedExponent (width : Nat) (exponent : Int) : List Char :=
  let digits := digitsOf exponent.natAbs
  (if exponent < 0 then '-' else '+') :: (List.replicate (width - digits.length) '0' ++ digits)

/-- A minus sign for negative numbers. -/
def signChars (negative : Bool) : List Char :=
  if negative then ['-'] else []

/-! ## §2 Layouts of doubles -/

/-- The choices that fix the text of a double. -/
structure Layout where
  /-- The least number of digits before the point that is written in place. -/
  lowestPoint : Int
  /-- The greatest number of digits before the point that is written in place. -/
  highestPoint : Int
  /-- What follows a whole number that is written in place. -/
  wholeSuffix : List Char
  /-- The least number of digits of an exponent. -/
  exponentWidth : Nat
  /-- The text of zero, by its sign. -/
  zero : Bool → List Char

namespace Layout

/-- Numbers in condition code are in place from `0.000001` up to below `10 ^ 21`. -/
def condition : Layout := ⟨-5, 21, [], 1, fun _ => ['0']⟩

/-- Numbers in a JSON document are in place from `0.0001` up to below `10 ^ 16`, and a whole one
ends in `.0`. -/
def json : Layout := ⟨-3, 16, ['.', '0'], 2, fun negative => signChars negative ++ ['0', '.', '0']⟩

/-- The text of the positive number `coefficient * 10 ^ exponent`. -/
def positive (layout : Layout) (x : Scientific) : List Char :=
  let digits := digitsOf x.coefficient
  let point : Int := digits.length + x.exponent
  if layout.lowestPoint ≤ point ∧ point ≤ layout.highestPoint then
    placePoint digits point ++ if digits.length ≤ point then layout.wholeSuffix else []
  else
    leadingPoint digits ++ 'e' :: signedExponent layout.exponentWidth (point - 1)

/-- The text of a double: of its shortest decimal, of a zero, an infinity or NaN. -/
def write (layout : Layout) : Double → String
  | .nan => "NaN"
  | .infinite false => "Infinity"
  | .infinite true => "-Infinity"
  | .finite negative units _ =>
    String.ofList <|
      if units = 0 then layout.zero negative
      else signChars negative ++ layout.positive (Double.shortest units)

end Layout

end Visibility
