/-!
# Cells of a document

The characters of a document with the places they stand in.  A text is cut into cells once, and all
reading goes on from a list of cells: the places of the next character are those of the first cell.

Three line breaks are told apart: the usual one, as which all its spellings count, and the
separators of lines and of paragraphs, which are kept as they are.
-/

namespace Visibility.Document

/-! ## §1 Cells -/

/-- A character of a document and its place: how many characters are before it, how many lines are
before its line, and how many characters are before it in its line. -/
structure Cell where
  char : Char
  index : Nat
  line : Nat
  column : Nat
  deriving Repr

/-- Whether a character may stand in a document. -/
def isAllowed (c : Char) : Bool :=
  let n := c.toNat
  n == 0x09 || n == 0x0A || n == 0x0D || (0x20 ≤ n && n ≤ 0x7E) || n == 0x85 ||
    (0xA0 ≤ n && n ≤ 0xD7FF) || (0xE000 ≤ n && n ≤ 0xFFFD) || 0x10000 ≤ n

/-- A mark of the order of bytes, which takes no column. -/
def byteOrderMark : Char := '\ufeff'

/-- Writes the usual line break in one way. -/
def unifyBreaks : List Char → List Char
  | [] => []
  | '\r' :: '\n' :: cs => '\n' :: unifyBreaks cs
  | c :: cs => (if c = '\r' ∨ c = '\u0085' then '\n' else c) :: unifyBreaks cs

/-- Whether a character is a line break. -/
def isBreak (c : Char) : Bool :=
  c == '\n' || c == '\u2028' || c == '\u2029'

/-- Gives each character its place. -/
def cellsFrom (index line column : Nat) : List Char → List Cell
  | [] => []
  | c :: cs =>
    ⟨c, index, line, column⟩ ::
      if isBreak c then cellsFrom (index + 1) (line + 1) 0 cs
      else cellsFrom (index + 1) line (if c = byteOrderMark then column else column + 1) cs

/-- The cells of a text; a byte order mark in front is left out. -/
def cellsOf (cs : List Char) : List Cell :=
  cellsFrom 0 0 0 (unifyBreaks (if cs.head? = some byteOrderMark then cs.drop 1 else cs))

/-! ## §2 What comes next -/

/-- The next character, if there is one. -/
def next? (cs : List Cell) : Option Char :=
  cs.head?.map (·.char)

/-- Whether the given character comes next. -/
def atChar (c : Char) (cs : List Cell) : Bool :=
  next? cs == some c

/-- Whether a line break or the end comes next. -/
def atLineEnd (cs : List Cell) : Bool :=
  (next? cs).all isBreak

/-- Whether a space, a line break or the end comes next. -/
def atSpace (cs : List Cell) : Bool :=
  (next? cs).all fun c => c == ' ' || isBreak c

/-- Whether a space, a tab, a line break or the end comes next. -/
def atBlank (cs : List Cell) : Bool :=
  (next? cs).all fun c => c == ' ' || c == '\t' || isBreak c

/-- Whether three of the given character stand at the start of a line, with nothing behind them. -/
def atMark (mark : Char) (cs : List Cell) : Bool :=
  (cs.take 3).map (·.char) == [mark, mark, mark] && (cs.head?.map (·.column)) == some 0 &&
    atBlank (cs.drop 3)

/-- Whether a document starts or ends here. -/
def atDocumentMark (cs : List Cell) : Bool :=
  atMark '-' cs || atMark '.' cs

/-! ## §3 Going on -/

/-- The characters up to the first that does not satisfy `p`. -/
def charsWhile (p : Char → Bool) (cs : List Cell) : List Char :=
  (cs.takeWhile fun c => p c.char).map (·.char)

/-- Skips the characters that satisfy `p`. -/
def skipWhile (p : Char → Bool) (cs : List Cell) : List Cell :=
  cs.dropWhile fun c => p c.char

/-- Skips the spaces in a line. -/
def skipSpaces (cs : List Cell) : List Cell :=
  skipWhile (· == ' ') cs

/-- Skips the rest of a line. -/
def skipLine (cs : List Cell) : List Cell :=
  skipWhile (!isBreak ·) cs

/-- Skips spaces and a comment, which may stand at the end of a line; nothing else may. -/
def skipLineRest? (cs : List Cell) : Option (List Cell) :=
  let rest := skipSpaces cs
  let rest := if atChar '#' rest then skipLine rest else rest
  if atLineEnd rest then some (rest.drop 1) else none

/-! ## §4 Folding -/

/-- What blanks and line breaks are folded to.  Blanks count only where no break is; a single usual
break is a space, and more of them count one less. -/
def folded (blanks breaks : List Char) : List Char :=
  match breaks with
  | [] => blanks
  | ['\n'] => [' ']
  | '\n' :: others => others
  -- The first break is kept if it is a separator.
  | _ => breaks

end Visibility.Document
