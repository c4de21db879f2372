import Visibility.Document.ReadError
import Visibility.Document.Tag
import Visibility.Number.Arithmetic
import Visibility.Number.Numeral
import Visibility.Value

/-!
# Values of scalars

The value of a scalar with a tag.  A scalar that got its tag by its form has nearly always a value;
one whose tag is written out may not have the form that its tag asks for.
-/

namespace Visibility.Document

/-! ## §1 Numbers -/

/-- A text without underscores, which carry no meaning among digits. -/
def withoutUnderscores (text : String) : List Char :=
  text.toList.filter (· != '_')

/-- Splits the sign off a numeral, which has at least one character; true is minus. -/
def splitSign (cs : List Char) : Except ReadError (Bool × List Char) :=
  match cs with
  | [] => .error .emptyNumeral
  | _ => .ok (cs.head? == some '-', dropSign cs)

/-- A whole number in a base. -/
def wholeOf (base : Nat) (cs : List Char) : Except ReadError Int :=
  (Numeral.whole? base cs).elim (.error .noNumeral) .ok

/-- The value of whole digits in base sixty, the first of which is the highest. -/
def ofSixtieths (digits : List Int) : Int :=
  digits.foldl (fun n d => n * 60 + d) 0

/-- The whole number of a numeral without a sign, in the base that its start says. -/
def magnitudeOf (cs : List Char) : Except ReadError Int :=
  match cs with
  | [] => .error .emptyNumeral
  | ['0'] => .ok 0
  | '0' :: 'b' :: digits => wholeOf 2 digits
  | '0' :: 'x' :: digits => wholeOf 16 digits
  | '0' :: _ => wholeOf 8 cs
  | _ =>
    if cs.contains ':' then (cs.splitOn ':').mapM (wholeOf 10) |>.map ofSixtieths
    else wholeOf 10 cs

/-- The whole number of a scalar. -/
def intOf (text : String) : Except ReadError Int := do
  let (negative, cs) ← splitSign (withoutUnderscores text)
  let n ← magnitudeOf cs
  return if negative then -n else n

/-- A double. -/
def doubleOf (cs : List Char) : Except ReadError Double :=
  (Numeral.lexeme? cs).elim (.error .noNumeral) .ok

/-- Adds parts in base sixty to a sum, the lowest first, of which the next counts `base` times. -/
def addSixtieths (sum : Double) (base : Nat) : List Double → Except ReadError Double
  | [] => .ok sum
  | part :: parts =>
    match Double.ofInt base with
    -- The factor itself has to be a double.
    | .infinite _ => .error .numeralTooLong
    | factor => addSixtieths (sum.add (part.mul factor)) (base * 60) parts

/-- The double of a scalar. -/
def floatOf (text : String) : Except ReadError Double := do
  let (negative, cs) ← splitSign ((withoutUnderscores text).map Char.toLower)
  let x ←
    if cs = ".inf".toList then pure (.infinite false)
    else if cs = ".nan".toList then pure .nan
    else if cs.contains ':' then do
      let parts ← (cs.splitOn ':').mapM doubleOf
      addSixtieths (.zero false) 1 parts.reverse
    else doubleOf cs
  return if negative then x.neg else x

/-! ## §2 Words, moments and bytes -/

/-- The truth value of a scalar, whose words may be in any case. -/
def truthOf (text : String) : Except ReadError Bool :=
  match String.ofList (text.toList.map Char.toLower) with
  | "yes" | "true" | "on" => .ok true
  | "no" | "false" | "off" => .ok false
  | _ => .error .noTruth

/-- The moment of a scalar. -/
def momentOf (text : String) : Except ReadError Moment :=
  match Timestamp.ofText? (withoutEnd text.toList) with
  | none => .error .noMoment
  | some t => if t.moment.isValid then .ok t.moment else .error .impossibleMoment
where
  /-- A line break at the end does not count. -/
  withoutEnd (cs : List Char) : List Char :=
    if cs.getLast? = some '\n' then cs.dropLast else cs

/-- The value of a digit of base sixty-four. -/
def sextet? (c : Char) : Option Nat :=
  if 'A' ≤ c && c ≤ 'Z' then some (c.toNat - 'A'.toNat)
  else if 'a' ≤ c && c ≤ 'z' then some (c.toNat - 'a'.toNat + 26)
  else if isDigit c then some (digitValue c + 52)
  else if c = '+' then some 62
  else if c = '/' then some 63
  else none

/-- Decodes base sixty-four.  The digits of a group of four so far are given by their count and
their value, and so is how many padding signs were seen after them.  Other characters are skipped;
a group has to be filled up by padding signs, and padding ends the text. -/
def decodeGroups (count value padding : Nat) : List Char → Option (List UInt8)
  | [] => if count = 0 then some [] else none
  | c :: cs =>
    if c = '=' then
      -- Padding counts once a byte can be told, and the text ends with the group.
      if 2 ≤ count ∧ 4 ≤ count + padding + 1 then some []
      else decodeGroups count value (if 2 ≤ count then padding + 1 else padding) cs
    else
      match sextet? c with
      | none => decodeGroups count value padding cs
      | some digit =>
        let value := value * 64 + digit
        match count with
        | 0 => decodeGroups 1 digit 0 cs
        | 1 => (decodeGroups 2 (value % 16) 0 cs).map ((value / 16).toUInt8 :: ·)
        | 2 => (decodeGroups 3 (value % 4) 0 cs).map ((value / 4).toUInt8 :: ·)
        | _ => (decodeGroups 0 0 0 cs).map (value.toUInt8 :: ·)

/-- The bytes of a scalar, which is written in base sixty-four and in ASCII. -/
def bytesOf (text : String) : Except ReadError (List UInt8) :=
  if text.toList.any (127 < ·.toNat) then .error .malformed
  else (decodeGroups 0 0 0 text.toList).elim (.error .malformed) .ok

/-! ## §3 Any scalar -/

/-- The value of a scalar with a tag; if it is an object, it has the given identity. -/
def scalarValue (tag : Tag) (id : Identity) (text : String) : Except ReadError Value :=
  match tag with
  | .null => .ok .null
  | .bool => (truthOf text).map .bool
  | .int => (intOf text).map .int
  | .float => (floatOf text).map .double
  | .binary => (bytesOf text).map fun bs => .foreign id (.bytes bs)
  | .timestamp => (momentOf text).map fun m => .foreign id (.moment m)
  | .string => .ok (.string text)
  | .sequence | .mapping | .orderedMapping | .pairs | .set | .merge | .scalarKey | .unknown =>
    .error .malformed

end Visibility.Document
