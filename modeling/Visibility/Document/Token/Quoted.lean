import Visibility.Document.Cell
import Visibility.Document.ReadError
import Visibility.Text.Digit

/-!
# Quoted scalars

Scalars between single or double quotes.  Between single quotes only the quote itself is special and
is written twice; between double quotes a backslash starts an escape.

Line breaks between quotes are folded together with the blanks around them.  What an escape stands
for is never folded, and an escaped line break is left out with the blanks after it.
-/

namespace Visibility.Document

/-! ## §1 Pieces -/

/-- The number of a character between quotes, and whether it was escaped and so is kept as it is. -/
structure Piece where
  escaped : Bool
  code : Nat

/-- A piece that is a line break. -/
def Piece.isBreak (p : Piece) : Bool :=
  !p.escaped && Document.isBreak (Char.ofNat p.code)

/-- A piece that is a space or a tab. -/
def Piece.isBlank (p : Piece) : Bool :=
  !p.escaped && (p.code == ' '.toNat || p.code == '\t'.toNat)

/-- Folds the line breaks among pieces; the blanks and breaks passed just before are given. -/
def foldPieces (blanks breaks : List Char) : List Piece → List Nat
  | [] => (folded blanks breaks).map Char.toNat
  | p :: ps =>
    if p.isBreak then foldPieces blanks (breaks ++ [Char.ofNat p.code]) ps
    else if p.isBlank then
      -- After a break, blanks are the indentation of a line.
      foldPieces (if breaks = [] then blanks ++ [Char.ofNat p.code] else blanks) breaks ps
    else (folded blanks breaks).map Char.toNat ++ p.code :: foldPieces [] [] ps

/-! ## §2 Single quotes -/

/-- Reads up to the closing single quote. -/
def singlePieces : List Cell → Except ReadError (List Piece × List Cell)
  | [] => .error .malformed
  | c :: cs =>
    if c.char = '\'' then
      match cs with
      | d :: ds =>
        if d.char = '\'' then
          (singlePieces ds).map fun (ps, rest) => (⟨true, '\''.toNat⟩ :: ps, rest)
        else .ok ([], cs)
      | [] => .ok ([], [])
    -- A quoted scalar cannot go on after the mark of another document.
    else if isBreak c.char && atDocumentMark cs then .error .malformed
    else (singlePieces cs).map fun (ps, rest) => (⟨false, c.char.toNat⟩ :: ps, rest)

/-! ## §3 Double quotes -/

/-- The character of an escape of one letter. -/
def simpleEscape? : Char → Option Char
  | '0' => some '\x00'
  | 'a' => some '\x07'
  | 'b' => some '\x08'
  | 't' | '\t' => some '\t'
  | 'n' => some '\n'
  | 'v' => some '\x0b'
  | 'f' => some '\x0c'
  | 'r' => some '\r'
  | 'e' => some '\x1b'
  | ' ' => some ' '
  | '"' => some '"'
  | '\\' => some '\\'
  | '/' => some '/'
  | 'N' => some '\u0085'
  | '_' => some '\u00a0'
  | 'L' => some '\u2028'
  | 'P' => some '\u2029'
  | _ => none

/-- How many hexadecimal digits an escape has. -/
def escapeDigits? : Char → Option Nat
  | 'x' => some 2
  | 'u' => some 4
  | 'U' => some 8
  | _ => none

/-- The piece of an escape by number. -/
def numberPiece (code : Nat) : Except ReadError Piece :=
  if code < 0x110000 then .ok ⟨true, code⟩
  else if code < 0x80000000 then .error .noCharacter
  else .error .characterTooLarge

/-- Where between double quotes reading stands. -/
inductive EscapeState where
  | outside
  | afterBackslash
  /-- Inside an escape with `left` more digits, those read so far having a value. -/
  | digits (left value : Nat)
  /-- After an escaped line break, whose following blanks are left out. -/
  | lineStart

/-- Reads up to the closing double quote. -/
def doublePieces : EscapeState → List Cell → Except ReadError (List Piece × List Cell)
  | _, [] => .error .malformed
  | .outside, c :: cs => plain c cs
  | .lineStart, c :: cs =>
    if c.char = ' ' ∨ c.char = '\t' then doublePieces .lineStart cs
    else if isBreak c.char then
      -- Further breaks are kept, and their lines start in the same way.
      if atDocumentMark cs then .error .malformed
      else (doublePieces .lineStart cs).map fun (ps, rest) => (⟨true, c.char.toNat⟩ :: ps, rest)
    else plain c cs
  | .afterBackslash, c :: cs =>
    if isBreak c.char then
      if atDocumentMark cs then .error .malformed else doublePieces .lineStart cs
    else
      match simpleEscape? c.char, escapeDigits? c.char with
      | some e, _ => (doublePieces .outside cs).map fun (ps, rest) => (⟨true, e.toNat⟩ :: ps, rest)
      | none, some n => doublePieces (.digits n 0) cs
      | none, none => .error .malformed
  | .digits left value, c :: cs =>
    if !isHexDigit c.char then .error .malformed
    else
      let value := value * 16 + digitValue c.char
      if 1 < left then doublePieces (.digits (left - 1) value) cs
      else
        match numberPiece value with
        | .error e => .error e
        | .ok p => (doublePieces .outside cs).map fun (ps, rest) => (p :: ps, rest)
where
  plain (c : Cell) (cs : List Cell) : Except ReadError (List Piece × List Cell) :=
    if c.char = '"' then .ok ([], cs)
    else if c.char = '\\' then doublePieces .afterBackslash cs
    else if isBreak c.char && atDocumentMark cs then .error .malformed
    else (doublePieces .outside cs).map fun (ps, rest) => (⟨false, c.char.toNat⟩ :: ps, rest)

/-! ## §4 Whole scalars -/

/-- The characters of numbers.  Two halves of a surrogate pair make one character, and one half
alone makes none. -/
def charsOfCodes? : List Nat → Option (List Char)
  | [] => some []
  | n :: ns =>
    if 0xD800 ≤ n ∧ n < 0xDC00 then
      match ns with
      | low :: ns =>
        if 0xDC00 ≤ low ∧ low < 0xE000 then
          (charsOfCodes? ns).map
            (Char.ofNat (0x10000 + (n - 0xD800) * 0x400 + (low - 0xDC00)) :: ·)
        else none
      | [] => none
    else if 0xDC00 ≤ n ∧ n < 0xE000 then none
    else (charsOfCodes? ns).map (Char.ofNat n :: ·)

/-- Reads a quoted scalar after its opening quote. -/
def readQuoted (quote : Char) (cs : List Cell) : Except ReadError (String × List Cell) := do
  let (pieces, rest) ← if quote = '\'' then singlePieces cs else doublePieces .outside cs
  match charsOfCodes? (foldPieces [] [] pieces) with
  | some text => return (String.ofList text, rest)
  | none => throw .malformed

end Visibility.Document
