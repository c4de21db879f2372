import Visibility.Failure
import Visibility.Number.Decimal
import Visibility.Text.Blank
import Visibility.Text.Digit

/-!
# Numerals

Texts that denote numbers.  A decimal numeral has an optional sign, digits with at most one point
among or around them, and an optional exponent; a radix numeral has a prefix for the base sixteen,
eight or two and no sign.

There are four readers.  `decimalOfText?` reads what `Decimal.text` writes.  `stringValue` is the
number of a string in a conversion: it knows both kinds of numerals, the empty text and the
written-out infinities, and gives NaN for every other text.  `lexeme?` is the number of a number
token: it knows decimal numerals, with grouping underscores and digits of any script, and a few
words.  `whole?` reads a whole number in a base.
-/

namespace Visibility.Numeral

/-! ## §1 Decimal numerals -/

/-- Splits off a sign; true is minus. -/
def sign : List Char → Bool × List Char
  | '+' :: cs => (false, cs)
  | '-' :: cs => (true, cs)
  | cs => (false, cs)

/-- The exponent at the end of a numeral; nothing at all is the exponent zero. -/
def exponent? : List Char → Option Int
  | [] => some 0
  | e :: cs =>
    let (negative, digits) := sign cs
    if (e = 'e' ∨ e = 'E') ∧ digits ≠ [] ∧ digits.all isDigit then
      let value : Int := ofDigits 10 digits
      some (if negative then -value else value)
    else none

/-- Splits what follows the whole digits of a numeral into the digits after a point and the rest. -/
def fraction : List Char → List Char × List Char
  | '.' :: cs => (cs.takeWhile isDigit, cs.dropWhile isDigit)
  | cs => ([], cs)

/-- The number of a decimal numeral. -/
def decimal? (cs : List Char) : Option Scientific :=
  let (negative, cs) := sign cs
  let whole := cs.takeWhile isDigit
  let (places, rest) := fraction (cs.dropWhile isDigit)
  -- A point needs a digit on one side at least.
  if whole = [] ∧ places = [] then none
  else (exponent? rest).map fun exponent =>
    ⟨negative, ofDigits 10 (whole ++ places), exponent - places.length⟩

/-! ## §2 Radix numerals -/

/-- The base of a prefix letter, and its digits. -/
def radix? : Char → Option (Nat × (Char → Bool))
  | 'x' | 'X' => some (16, isHexDigit)
  | 'o' | 'O' => some (8, isOctalDigit)
  | 'b' | 'B' => some (2, isBinaryDigit)
  | _ => none

/-- The number of a radix numeral. -/
def radixNumeral? : List Char → Option Nat
  | '0' :: letter :: digits =>
    (radix? letter).bind fun (base, isBaseDigit) =>
      if digits ≠ [] ∧ digits.all isBaseDigit then some (ofDigits base digits) else none
  | _ => none

/-! ## §3 The number of a string -/

/-- The number of a string without spaces around it.  Only a radix numeral can be too large. -/
def trimmedValue (cs : List Char) : Except CoercionError Double :=
  if cs = [] then .ok (.zero false)
  else if cs = "Infinity".toList ∨ cs = "+Infinity".toList then .ok (.infinite false)
  else if cs = "-Infinity".toList then .ok (.infinite true)
  else match radixNumeral? cs with
    | some n => (Double.ofInt n).refuseInfinite .integerTooLarge
    | none => .ok ((decimal? cs).elim .nan .ofScientific)

/-- The number of a string. -/
def stringValue (s : String) : Except CoercionError Double :=
  trimmedValue (Text.trimSpaces s.toList)

/-! ## §4 The number of a number token -/

/-- Writes a character of a number token in ASCII: a decimal digit of any script as a digit, a
space as a blank. -/
def toASCII (c : Char) : Char :=
  if c.toNat < 128 then c
  else if Text.isSpace c then ' '
  else match decimalDigit? c with
    | some d => Char.ofNat ('0'.toNat + d)
    | none => c

/-- A blank that may surround the text of a number token. -/
def isOuterBlank (c : Char) : Bool :=
  (9 ≤ c.toNat && c.toNat ≤ 13) || c == ' '

/-- Removes the underscores between two digits; an underscore anywhere else spoils the numeral. -/
def dropUnderscores? (afterDigit : Bool) : List Char → Option (List Char)
  | [] => some []
  | '_' :: d :: cs =>
    if afterDigit && isDigit d then (dropUnderscores? true cs).map (d :: ·) else none
  | ['_'] => none
  | c :: cs => (dropUnderscores? (isDigit c) cs).map (c :: ·)

/-- The numbers that are written as words, in any case. -/
def wordValue? (cs : List Char) : Option Double :=
  let (negative, word) := sign cs
  match String.ofList (word.map Char.toLower) with
  | "inf" | "infinity" => some (.infinite negative)
  | "nan" => some .nan
  | _ => none

/-- The ASCII form of a numeral without the blanks around it.  Digits of other scripts count as
their ASCII digits before anything is read. -/
def toPlain (cs : List Char) : List Char :=
  Text.trim isOuterBlank (cs.map toASCII)

/-- The number of a number token, if it is one. -/
def lexeme? (cs : List Char) : Option Double :=
  match dropUnderscores? false (toPlain cs) with
  | none => none
  | some cs => (wordValue? cs).or ((decimal? cs).map .ofScientific)

/-- The number of a number token; NaN if it is none. -/
def lexemeValue (lexeme : String) : Double :=
  (lexeme? lexeme.toList).getD .nan

/-! ## §5 Whole numbers in a base -/

/-- In base ten, whole numbers have at most this many digits, whether read or written. -/
def maxDigits : Nat := 4300

/-- Whether a whole number has too many digits to be written in base ten. -/
def isTooLong (n : Int) : Bool :=
  tenPow maxDigits ≤ n.natAbs

/-- The digits of a base. -/
def isDigitOf (base : Nat) (c : Char) : Bool :=
  isHexDigit c && digitValue c < base

/-- Drops the prefix of a base from a numeral; it may be missing. -/
def dropPrefix (base : Nat) : List Char → List Char
  | '0' :: letter :: digits =>
    match radix? letter with
    | some (b, _) => if b = base then digits else '0' :: letter :: digits
    | none => '0' :: letter :: digits
  | cs => cs

/-- The whole number of a numeral in a base, which may have a sign and a prefix.  There is none if
there are no digits, or too many of them. -/
def whole? (base : Nat) (cs : List Char) : Option Int :=
  let (negative, unsigned) := sign (toPlain cs)
  let digits := dropPrefix base unsigned
  if digits = [] ∨ !digits.all (isDigitOf base) ∨ (base = 10 ∧ maxDigits < digits.length) then none
  else
    let n : Int := ofDigits base digits
    some (if negative then -n else n)

/-! ## §6 The text of a decimal -/

/-- The payload after the word for a NaN. -/
def payload? (cs : List Char) : Option Nat :=
  if cs.all isDigit then some (ofDigits 10 cs) else none

/-- Reads a decimal. -/
def decimalOfText? (s : String) : Option Decimal :=
  let (negative, cs) := sign s.toList
  match cs with
  | 'I' :: 'n' :: 'f' :: 'i' :: 'n' :: 'i' :: 't' :: ['y'] => some (.infinite negative)
  | 'N' :: 'a' :: 'N' :: digits => (payload? digits).map (.nan negative false)
  | 's' :: 'N' :: 'a' :: 'N' :: digits => (payload? digits).map (.nan negative true)
  | _ => (decimal? s.toList).map .finite

end Visibility.Numeral
