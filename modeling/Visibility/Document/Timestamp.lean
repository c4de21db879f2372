import Visibility.Moment
import Visibility.Text.Digit

/-!
# Timestamps

How moments are written in documents: a day as year, month and day with hyphens between them, and
behind it, after a letter or blanks, a time with colons.  A time may go on with a fraction of its
second and with an offset, of which `Z` is none at all.
-/

namespace Visibility.Document

/-! ## §1 Runs of digits -/

/-- Reads a number of `least` to `most` digits. -/
def readDigits? (least most : Nat) (cs : List Char) : Option (List Char × List Char) :=
  let digits := (cs.take most).takeWhile isDigit
  if least ≤ digits.length then some (digits, cs.drop digits.length) else none

/-- Reads the given character. -/
def readMark? (c : Char) : List Char → Option (List Char)
  | [] => none
  | d :: cs => if d = c then some cs else none

/-- Skips spaces and tabs. -/
def skipBlanks (cs : List Char) : List Char :=
  cs.dropWhile fun c => c == ' ' || c == '\t'

/-! ## §2 Parts of a timestamp -/

/-- Reads an offset in minutes.  It is an hour with its sign, and the minutes after a colon. -/
def readOffset? (cs : List Char) : Option Int := do
  let (negative, cs) ← match cs with
    | '+' :: cs => some (false, cs)
    | '-' :: cs => some (true, cs)
    | _ => none
  let (hour, cs) ← readDigits? 1 2 cs
  let minute ← match cs with
    | [] => some []
    | ':' :: cs => if cs.length = 2 ∧ cs.all isDigit then some cs else none
    | _ => none
  let minutes : Int := ofDigits 10 hour * 60 + ofDigits 10 minute
  return if negative then -minutes else minutes

/-- Reads what may follow the seconds of a time: blanks and an offset. -/
def readZone? (cs : List Char) : Option (Option Int) :=
  match skipBlanks cs with
  | [] => if cs = [] then some none else none
  | ['Z'] => some (some 0)
  | zone => (readOffset? zone).map some

/-- The microseconds of the digits of a fraction, of which six count. -/
def microseconds (digits : List Char) : Nat :=
  let counted := digits.take 6
  ofDigits 10 (counted ++ List.replicate (6 - counted.length) '0')

/-- Reads a time. -/
def readTime? (cs : List Char) : Option Time := do
  let (hour, cs) ← readDigits? 1 2 cs
  let (minute, cs) ← readDigits? 2 2 (← readMark? ':' cs)
  let (second, cs) ← readDigits? 2 2 (← readMark? ':' cs)
  let (fraction, cs) := match cs with
    | '.' :: cs => (cs.takeWhile isDigit, cs.dropWhile isDigit)
    | cs => ([], cs)
  let offset ← readZone? cs
  return ⟨ofDigits 10 hour, ofDigits 10 minute, ofDigits 10 second, microseconds fraction, offset⟩

/-! ## §3 Whole timestamps -/

/-- A moment as it is written, and whether its month and its day have two digits each. -/
structure Timestamp where
  moment : Moment
  isFull : Bool
  deriving DecidableEq, Repr

namespace Timestamp

/-- Reads a timestamp; the moment need not be one that there is. -/
def ofText? (cs : List Char) : Option Timestamp := do
  let (year, cs) ← readDigits? 4 4 cs
  let (month, cs) ← readDigits? 1 2 (← readMark? '-' cs)
  let (day, cs) ← readDigits? 1 2 (← readMark? '-' cs)
  let date : Day := ⟨ofDigits 10 year, ofDigits 10 month, ofDigits 10 day⟩
  let isFull := month.length == 2 && day.length == 2
  match cs with
  | [] => return ⟨.day date, isFull⟩
  | c :: after =>
    let time := if c = 'T' ∨ c = 't' then after else skipBlanks cs
    -- Something has to stand between the day and the time.
    if time.length = cs.length then none
    else return ⟨.time date (← readTime? time), isFull⟩

/-- Whether a plain text that can be read as a timestamp is one: a day alone has to be written with
two digits for the month and the day. -/
def isPlain (t : Timestamp) : Bool :=
  match t.moment with
  | .day _ => t.isFull
  | .time .. => true

end Timestamp

end Visibility.Document
