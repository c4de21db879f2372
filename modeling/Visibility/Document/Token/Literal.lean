import Visibility.Document.Cell
import Visibility.Document.ReadError
import Visibility.Text.Digit

/-!
# Block scalars

Scalars whose lines are indented, after a bar or an angle bracket.  With the bar the lines stay as
they are; with the bracket they are folded, but for those that start with a blank.  A header says
how deep the lines are indented, if the first of them is not to say it, and what happens to the
line breaks at the end.
-/

namespace Visibility.Document

/-! ## §1 The header -/

/-- What happens to the line breaks at the end of a block scalar: all but one go, all go, or none
goes. -/
inductive Chomping where
  | clip
  | strip
  | keep
  deriving DecidableEq, Repr

/-- The header of a block scalar. -/
structure LiteralHeader where
  chomping : Chomping
  /-- How much deeper than the block around it the scalar is indented, if that is given. -/
  increment : Option Nat
  deriving DecidableEq, Repr

/-- Reads the sign for the end of a block scalar. -/
def readChomping (cs : List Cell) : Chomping × List Cell :=
  if atChar '+' cs then (.keep, cs.drop 1)
  else if atChar '-' cs then (.strip, cs.drop 1)
  else (.clip, cs)

/-- Reads the digit for the indentation of a block scalar, which cannot be zero. -/
def readIncrement (cs : List Cell) : Except ReadError (Option Nat × List Cell) :=
  match next? cs with
  | some c =>
    if c = '0' then .error .malformed
    else if isDigit c then .ok (some (digitValue c), cs.drop 1)
    else .ok (none, cs)
  | none => .ok (none, cs)

/-- Reads the header of a block scalar and the rest of its line. -/
def readHeader (cs : List Cell) : Except ReadError (LiteralHeader × List Cell) := do
  let (before, cs) := readChomping cs
  let (increment, cs) ← readIncrement cs
  -- The sign stands before the digit or behind it, but not at both places.
  let (chomping, cs) := if before = .clip && increment.isSome then readChomping cs else (before, cs)
  if !atSpace cs then throw .malformed
  match skipLineRest? cs with
  | some rest => return (⟨chomping, increment⟩, rest)
  | none => throw .malformed

/-! ## §2 The lines -/

/-- Reads the blank lines before a line, and the spaces in front of it up to an indentation. -/
def blankLines (indent : Nat) : List Cell → List Char × List Cell
  | [] => ([], [])
  | c :: cs =>
    if c.char = ' ' ∧ c.column < indent then blankLines indent cs
    else if isBreak c.char then
      let (breaks, rest) := blankLines indent cs
      (c.char :: breaks, rest)
    else ([], c :: cs)

/-- Reads the blank lines before the first line, and all spaces in front of it.  Gives the deepest
column that was reached. -/
def leadingLines (deepest : Nat) : List Cell → List Char × Nat × List Cell
  | [] => ([], deepest, [])
  | c :: cs =>
    if c.char = ' ' then leadingLines (max deepest (c.column + 1)) cs
    else if isBreak c.char then
      let (breaks, deepest, rest) := leadingLines deepest cs
      (c.char :: breaks, deepest, rest)
    else ([], deepest, c :: cs)

/-- Whether a line of the scalar starts here. -/
def atColumn (indent : Nat) (cs : List Cell) : Bool :=
  cs.head?.any (·.column == indent)

/-- What stands between two lines: a single break between two lines that start with no blank is
folded to a space. -/
def lineGap (isFolded : Bool) (lineEnd breaks : List Char) (foldable : Bool) : List Char :=
  if isFolded && foldable && lineEnd == ['\n'] then
    if breaks = [] then [' '] else breaks
  else lineEnd ++ breaks

/-- The line breaks at the end of a scalar. -/
def literalEnd (chomping : Chomping) (lineEnd breaks : List Char) : List Char :=
  match chomping with
  | .clip => lineEnd
  | .strip => []
  | .keep => lineEnd ++ breaks

/-- Whether a blank comes next. -/
def atInnerBlank (cs : List Cell) : Bool :=
  (next? cs).any fun c => c == ' ' || c == '\t'

/-- Reads the lines of a block scalar from one of them on. -/
def literalLines (isFolded : Bool) (chomping : Chomping) (indent : Nat) :
    Nat → List Cell → List Char × List Cell
  | 0, cs => ([], cs)
  | fuel + 1, cs =>
    let line := charsWhile (!isBreak ·) cs
    let after := cs.drop line.length
    let lineEnd := (after.take 1).map (·.char)
    let (breaks, rest) := blankLines indent (after.drop 1)
    if atColumn indent rest then
      let foldable := !atInnerBlank cs && !atInnerBlank rest
      let (more, rest) := literalLines isFolded chomping indent fuel rest
      (line ++ lineGap isFolded lineEnd breaks foldable ++ more, rest)
    else (line ++ literalEnd chomping lineEnd breaks, rest)

/-! ## §3 Whole scalars -/

/-- Reads a block scalar after its indicator.  Its lines start in the given column or after it. -/
def readLiteral (isFolded : Bool) (column : Nat) (cs : List Cell) :
    Except ReadError (String × List Cell) := do
  let (header, cs) ← readHeader cs
  let least := max 1 column
  let (breaks, indent, rest) :=
    match header.increment with
    | some n =>
      let indent := least + n - 1
      let (breaks, rest) := blankLines indent cs
      (breaks, indent, rest)
    | none =>
      let (breaks, deepest, rest) := leadingLines 0 cs
      (breaks, max least deepest, rest)
  let (text, rest) :=
    if atColumn indent rest then
      let (text, rest) := literalLines isFolded header.chomping indent rest.length rest
      (breaks ++ text, rest)
    else (literalEnd header.chomping [] breaks, rest)
  return (String.ofList text, rest)

end Visibility.Document
