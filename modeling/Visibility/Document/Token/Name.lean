import Visibility.Document.Cell
import Visibility.Document.ReadError
import Visibility.Document.Token
import Visibility.Text.Digit

/-!
# Names in a document

The names of anchors, the tags of nodes and the directives before a document.  A tag is written out
between angle brackets, or by a handle that stands for its start; the handle is one exclamation mark
or a name between two of them.
-/

namespace Visibility.Document

/-! ## §1 Anchors -/

/-- A character of a name. -/
def isNameChar (c : Char) : Bool :=
  isDigit c || ('a' ≤ c && c ≤ 'z') || ('A' ≤ c && c ≤ 'Z') || c == '-' || c == '_'

/-- Whether the name of an anchor can end before the next character. -/
def endsName (cs : List Cell) : Bool :=
  atBlank cs || (next? cs).any fun c => ['?', ':', ',', ']', '}', '%', '@', '\x60'].contains c

/-- Reads the name of an anchor. -/
def readAnchor (cs : List Cell) : Except ReadError (String × List Cell) :=
  let name := charsWhile isNameChar cs
  let rest := cs.drop name.length
  if name ≠ [] && endsName rest then .ok (String.ofList name, rest) else .error .malformed

/-! ## §2 Tags -/

/-- A character of a tag; the percent sign starts an escape. -/
def isTagChar (c : Char) : Bool :=
  isNameChar c || [';', '/', '?', ':', '@', '&', '=', '+', '$', ',', '.', '!', '~', '*', '\'', '(',
    ')', '[', ']', '%'].contains c

/-- Reads the bytes of escapes, each of which is a percent sign and two hexadecimal digits. -/
def readEscapedBytes : List Cell → Except ReadError (List UInt8 × List Cell)
  | c :: high :: low :: cs =>
    if c.char = '%' then
      if isHexDigit high.char && isHexDigit low.char then do
        let (bytes, rest) ← readEscapedBytes cs
        return ((ofDigits 16 [high.char, low.char]).toUInt8 :: bytes, rest)
      else throw .malformed
    else return ([], c :: high :: low :: cs)
  | cs => if atChar '%' cs then throw .malformed else return ([], cs)

/-- Reads the characters of a tag. -/
def readTagChars : Nat → List Cell → Except ReadError (List Char × List Cell)
  | 0, cs => .ok ([], cs)
  | fuel + 1, cs =>
    if atChar '%' cs then do
      let (bytes, rest) ← readEscapedBytes cs
      match String.fromUTF8? bytes.toByteArray with
      | none => throw .malformed
      | some text =>
        let (more, rest) ← readTagChars fuel rest
        return (text.toList ++ more, rest)
    else
      let run := charsWhile (fun c => isTagChar c && c != '%') cs
      let rest := cs.drop run.length
      if run = [] then .ok ([], cs)
      else (readTagChars fuel rest).map fun (more, rest) => (run ++ more, rest)

/-- Reads the text of a tag, which is not empty. -/
def readTagText (cs : List Cell) : Except ReadError (String × List Cell) := do
  let (text, rest) ← readTagChars cs.length cs
  if text = [] then throw .malformed else return (String.ofList text, rest)

/-- Reads a handle: an exclamation mark, or a name between two. -/
def readHandle (cs : List Cell) : Except ReadError (String × List Cell) :=
  if !atChar '!' cs then .error .malformed
  else if atChar ' ' (cs.drop 1) then .ok ("!", cs.drop 1)
  else
    let name := charsWhile isNameChar (cs.drop 1)
    let rest := cs.drop (name.length + 1)
    if atChar '!' rest then .ok (String.ofList ('!' :: (name ++ ['!'])), rest.drop 1)
    else .error .malformed

/-- Reads a tag from its exclamation mark on. -/
def readTag (cs : List Cell) : Except ReadError (Token × List Cell) := do
  let after := cs.drop 1
  let (handle, suffix, rest) ←
    if atChar '<' after then do
      let (text, rest) ← readTagText (after.drop 1)
      if atChar '>' rest then pure (none, text, rest.drop 1) else throw .malformed
    -- An exclamation mark alone is a tag that says nothing.
    else if atBlank after then pure (none, "!", after)
    else if (charsWhile (fun c => c != ' ' && !isBreak c) after).contains '!' then do
      let (handle, rest) ← readHandle cs
      let (text, rest) ← readTagText rest
      pure (some handle, text, rest)
    else do
      let (text, rest) ← readTagText after
      pure (some "!", text, rest)
  if atSpace rest then return (.tag handle suffix, rest) else throw .malformed

/-! ## §3 Directives -/

/-- Reads a whole number. -/
def readCount (cs : List Cell) : Except ReadError (Nat × List Cell) :=
  let digits := charsWhile isDigit cs
  if digits = [] then .error .malformed
  else .ok (ofDigits 10 digits, cs.drop digits.length)

/-- Reads a version, two numbers with a point between them. -/
def readVersion (cs : List Cell) : Except ReadError (Directive × List Cell) := do
  let (major, rest) ← readCount (skipSpaces cs)
  if !atChar '.' rest then throw .malformed
  let (_, rest) ← readCount (rest.drop 1)
  if atSpace rest then return (.version major, rest) else throw .malformed

/-- Reads a handle and the start of tags that it stands for. -/
def readTagHandle (cs : List Cell) : Except ReadError (Directive × List Cell) := do
  let (handle, rest) ← readHandle (skipSpaces cs)
  if !atChar ' ' rest then throw .malformed
  let (start, rest) ← readTagText (skipSpaces rest)
  if atSpace rest then return (.tagHandle handle start, rest) else throw .malformed

/-- Reads a directive after its percent sign, and the rest of its line. -/
def readDirective (cs : List Cell) : Except ReadError (Directive × List Cell) := do
  let name := charsWhile isNameChar cs
  let rest := cs.drop name.length
  if name = [] || !atSpace rest then throw .malformed
  let (directive, rest) ←
    if name = ['Y', 'A', 'M', 'L'] then readVersion rest
    else if name = ['T', 'A', 'G'] then readTagHandle rest
    else pure (.other, skipLine rest)
  match skipLineRest? rest with
  | some rest => return (directive, rest)
  | none => throw .malformed

end Visibility.Document
