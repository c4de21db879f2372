import Visibility.Document.Cell

/-!
# Plain scalars

Scalars that stand without quotes.  A plain scalar ends before a colon that a blank follows and
before a comment, and inside brackets also before a comma, a question mark or a bracket.  It may go
on in the next lines, which are folded; outside of brackets these have to be indented.
-/

namespace Visibility.Document

/-! ## §1 Where it starts and ends -/

/-- A bracket or a comma, which have a meaning of their own inside brackets. -/
def isFlowIndicator (c : Char) : Bool :=
  c == ',' || c == '[' || c == ']' || c == '{' || c == '}'

/-- Characters that have a meaning of their own at the start of a token. -/
def isIndicator (c : Char) : Bool :=
  isFlowIndicator c ||
    ['-', '?', ':', '#', '&', '*', '!', '|', '>', '\'', '"', '%', '@', '\x60'].contains c

/-- Whether a plain scalar starts here. -/
def startsPlain (inFlow : Bool) (cs : List Cell) : Bool :=
  match next? cs with
  | none => false
  | some c =>
    -- Three indicators may start a scalar if no blank follows them.
    if c = '-' then !atBlank (cs.drop 1)
    else if c = '?' ∨ c = ':' then !inFlow && !atBlank (cs.drop 1)
    else !isIndicator c && !atBlank cs

/-- Whether a plain scalar ends before the next character. -/
def endsPlain (inFlow : Bool) (cs : List Cell) : Bool :=
  let rest := cs.drop 1
  atBlank cs || (atChar ':' cs && (atBlank rest || (inFlow && (next? rest).any isFlowIndicator))) ||
    (inFlow && (next? cs).any fun c => isFlowIndicator c || c == '?')

/-! ## §2 Its parts -/

/-- Reads up to the next blank or to the end of the scalar. -/
def plainWord (inFlow : Bool) : List Cell → List Char × List Cell
  | [] => ([], [])
  | c :: cs =>
    if endsPlain inFlow (c :: cs) then ([], c :: cs)
    else
      let (word, rest) := plainWord inFlow cs
      (c.char :: word, rest)

/-- Reads the breaks and spaces after a line break, up to the mark of another document.  Gives the
breaks and whether there was such a mark. -/
def plainBreaks : List Cell → List Char × Bool × List Cell
  | [] => ([], false, [])
  | c :: cs =>
    if c.char = ' ' then plainBreaks cs
    else if isBreak c.char then
      if atDocumentMark cs then ([c.char], true, cs)
      else
        let (breaks, marked, rest) := plainBreaks cs
        (c.char :: breaks, marked, rest)
    else ([], false, c :: cs)

/-- What stands between two words of a plain scalar. -/
structure PlainGap where
  text : List Char
  rest : List Cell
  /-- Whether a line ended in it. -/
  crossed : Bool

/-- Reads what stands between two words. -/
def plainGap (cs : List Cell) : PlainGap :=
  let blanks := charsWhile (· == ' ') cs
  let rest := cs.drop blanks.length
  if (next? rest).any isBreak then
    let (breaks, marked, after) := plainBreaks rest
    ⟨if marked then [] else folded [] breaks, after, true⟩
  else ⟨blanks, rest, false⟩

/-! ## §3 Whole scalars -/

/-- What a plain scalar is read to. -/
structure PlainText where
  text : List Char
  rest : List Cell
  /-- Whether a line ended after the last word. -/
  crossed : Bool

/-- Reads a plain scalar from a word on.  Outside of brackets its lines have to start in the given
column or after it. -/
def plainFrom (inFlow : Bool) (column : Nat) : Nat → List Cell → PlainText
  | 0, cs => ⟨[], cs, false⟩
  | fuel + 1, cs =>
    let (word, after) := plainWord inFlow cs
    let gap := plainGap after
    let indented := inFlow || gap.rest.head?.any fun c => column ≤ c.column
    let goesOn := gap.text ≠ [] && !atChar '#' gap.rest && indented &&
      !endsPlain inFlow gap.rest
    if goesOn then
      let more := plainFrom inFlow column fuel gap.rest
      { more with text := word ++ gap.text ++ more.text }
    else ⟨word, gap.rest, gap.crossed⟩

/-- Reads a plain scalar. -/
def readPlain (inFlow : Bool) (column : Nat) (cs : List Cell) : PlainText :=
  plainFrom inFlow column cs.length cs

end Visibility.Document
