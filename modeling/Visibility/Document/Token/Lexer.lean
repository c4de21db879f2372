import Visibility.Document.Token.Literal
import Visibility.Document.Token.Name
import Visibility.Document.Token.Plain
import Visibility.Document.Token.Quoted

/-!
# Tokens of a text

`Token.scan` cuts the cells of a document into tokens.

Only the colon after a key tells that it was one, so a token waits in a queue as long as a key may
start with it: until its colon is found, its line ends, or the key is too long.  A key that starts a
line of a block has to have its colon.

Blocks are opened by the first dash, question mark or key in a deeper column than that of the block
around it, and closed by the first token in a column that is less deep.  Inside brackets, columns
mean nothing.
-/

namespace Visibility.Document

/-! ## §1 The state of reading -/

/-- A place where a key may start. -/
structure KeyStart where
  /-- The number of the token that starts there. -/
  token : Nat
  /-- Whether a key has to start there. -/
  required : Bool
  index : Nat
  line : Nat
  column : Nat

/-- A key is at most this long, from its start to its colon. -/
def maxKeyLength : Nat := 1024

/-- Whether a key cannot have started at a place any more, as seen from a later one. -/
def KeyStart.isStale (k : KeyStart) (here : Cell) : Bool :=
  k.line != here.line || maxKeyLength < here.index - k.index

/-- What was read so far.  The tokens of the queue come after `taken` others. -/
structure Lexer where
  rest : List Cell
  queue : List Token
  taken : Nat
  /-- How many brackets are open. -/
  brackets : Nat
  /-- The columns of the open blocks, the innermost first. -/
  blocks : List Nat
  /-- Whether a key may start with the next token. -/
  keyAllowed : Bool
  /-- Where keys may start, at most one place for each count of open brackets. -/
  keyStarts : List (Nat × KeyStart)
  isDone : Bool

namespace Lexer

/-- The state before reading. -/
def start (cs : List Cell) : Lexer :=
  ⟨cs, [], 0, 0, [], true, [], false⟩

/-- Whether the next token stands inside brackets. -/
def inFlow (l : Lexer) : Bool :=
  l.brackets != 0

/-- Adds tokens to the queue. -/
def add (l : Lexer) (tokens : List Token) : Lexer :=
  { l with queue := l.queue ++ tokens }

/-- The first column that is deeper than that of the innermost open block. -/
def innerColumn (l : Lexer) : Nat :=
  l.blocks.head?.elim 0 (· + 1)

/-! ## §2 Blocks -/

/-- Whether a block in a column would lie within the open ones. -/
def opensBlock (l : Lexer) (column : Nat) : Bool :=
  l.blocks.head?.all (· < column)

/-- Opens a block in a column unless there is one already. -/
def openBlock (l : Lexer) (column : Nat) (token : Token) : Lexer :=
  if l.opensBlock column then { l with blocks := column :: l.blocks, queue := l.queue ++ [token] }
  else l

/-- Closes the innermost blocks as long as their columns satisfy `p`, unless brackets are open. -/
def closeBlocks (l : Lexer) (p : Nat → Bool) : Lexer :=
  if l.inFlow then l
  else
    let closed := l.blocks.takeWhile p
    { l with
      blocks := l.blocks.drop closed.length
      queue := l.queue ++ closed.map fun _ => .blockEnd }

/-- Closes all blocks, unless brackets are open. -/
def closeAllBlocks (l : Lexer) : Lexer :=
  l.closeBlocks fun _ => true

/-! ## §3 Keys -/

/-- Forgets the places at which no key can have started any more. -/
def dropStale (l : Lexer) : Except ReadError Lexer :=
  match l.rest with
  | [] => .ok l
  | here :: _ =>
    let (stale, keyStarts) := l.keyStarts.partition fun entry => entry.2.isStale here
    if stale.any (·.2.required) then .error .malformed else .ok { l with keyStarts }

/-- Forgets the place at which a key may have started, among those inside the open brackets. -/
def dropKeyStart (l : Lexer) : Except ReadError Lexer :=
  match l.keyStarts.lookup l.brackets with
  | none => .ok l
  | some k =>
    if k.required then .error .malformed
    else .ok { l with keyStarts := l.keyStarts.filter (·.1 != l.brackets) }

/-- Notes that a key may start here, if one may. -/
def noteKeyStart (l : Lexer) : Except ReadError Lexer := do
  match l.rest with
  | [] => return l
  | here :: _ =>
    if !l.keyAllowed then return l
    -- In the column of a block there can be nothing but a key.
    let required := !l.inFlow && l.blocks.head? == some here.column
    let k : KeyStart := ⟨l.taken + l.queue.length, required, here.index, here.line, here.column⟩
    let l ← l.dropKeyStart
    return { l with keyStarts := (l.brackets, k) :: l.keyStarts }

/-- Whether the first token of the queue is settled: no key can start with it any more. -/
def isSettled (l : Lexer) : Bool :=
  !l.queue.isEmpty && l.keyStarts.all (·.2.token != l.taken)

/-! ## §4 Reading one token -/

/-- Skips spaces, comments and line breaks.  Says whether a line ended. -/
def skipLayout (inComment crossed : Bool) : List Cell → Bool × List Cell
  | [] => (crossed, [])
  | c :: cs =>
    if isBreak c.char then skipLayout false true cs
    else if inComment then skipLayout true crossed cs
    else if c.char = ' ' then skipLayout false crossed cs
    else if c.char = '#' then skipLayout true crossed cs
    else (crossed, c :: cs)

/-- Goes on to the next token, with which a key may start if its line just starts. -/
def toToken (l : Lexer) : Lexer :=
  let (crossed, rest) := skipLayout false false l.rest
  { l with rest, keyAllowed := l.keyAllowed || (crossed && !l.inFlow) }

/-- Takes an indicator of some characters. -/
def indicator (l : Lexer) (length : Nat) (keyAllowed : Bool) (token : Token) : Lexer :=
  { l with rest := l.rest.drop length, queue := l.queue ++ [token], keyAllowed }

/-- Takes what starts or ends a document, or a directive. -/
def betweenDocuments (l : Lexer) (token : Token) (rest : List Cell) : Except ReadError Lexer := do
  let l ← l.closeAllBlocks.dropKeyStart
  return { l with rest, queue := l.queue ++ [token], keyAllowed := false }

/-- Takes the end of the text. -/
def finish (l : Lexer) : Except ReadError Lexer := do
  let l ← l.closeAllBlocks.dropKeyStart
  return { l with
    queue := l.queue ++ [.theEnd]
    keyAllowed := false
    keyStarts := []
    isDone := true }

/-- Takes an opening bracket, with which a key may start. -/
def openBrackets (l : Lexer) (token : Token) : Except ReadError Lexer := do
  let l ← l.noteKeyStart
  return { l.indicator 1 true token with brackets := l.brackets + 1 }

/-- Takes a closing bracket. -/
def closeBrackets (l : Lexer) (token : Token) : Except ReadError Lexer := do
  let l ← l.dropKeyStart
  return { l.indicator 1 false token with brackets := l.brackets - 1 }

/-- Takes the dash of an item or the question mark of a key, which may open a block. -/
def takeMark (l : Lexer) (column : Nat) (block token : Token) (keyAllowed : Bool) :
    Except ReadError Lexer := do
  if !l.inFlow && !l.keyAllowed then throw .malformed
  let l := if l.inFlow then l else l.openBlock column block
  let l ← l.dropKeyStart
  return l.indicator 1 keyAllowed token

/-- Takes a colon.  If a key may have started before it, it did. -/
def takeColon (l : Lexer) (column : Nat) : Except ReadError Lexer := do
  match l.keyStarts.lookup l.brackets with
  | some k =>
    let opened := !l.inFlow && l.opensBlock k.column
    let before := if opened then [.mappingBlock, .key] else [.key]
    let position := k.token - l.taken
    let l := { l with
      queue := l.queue.take position ++ before ++ l.queue.drop position
      blocks := if opened then k.column :: l.blocks else l.blocks
      keyStarts := l.keyStarts.filter (·.1 != l.brackets) }
    return l.indicator 1 false .value
  | none => l.takeMark column .mappingBlock .value !l.inFlow

/-- Takes a token with which a key may start, and after which none may. -/
def takeNode (l : Lexer) (read : List Cell → Except ReadError (Token × List Cell)) :
    Except ReadError Lexer := do
  let l ← l.noteKeyStart
  let (token, rest) ← read l.rest
  return { l with rest, queue := l.queue ++ [token], keyAllowed := false }

/-- Takes a plain scalar. -/
def takePlain (l : Lexer) : Except ReadError Lexer := do
  let l ← l.noteKeyStart
  let p := readPlain l.inFlow l.innerColumn l.rest
  let token := Token.scalar (String.ofList p.text) true
  return { l with rest := p.rest, queue := l.queue ++ [token], keyAllowed := p.crossed }

/-- Takes a block scalar. -/
def takeLiteral (l : Lexer) (isFolded : Bool) : Except ReadError Lexer := do
  let l ← l.dropKeyStart
  let (text, rest) ← readLiteral isFolded l.innerColumn (l.rest.drop 1)
  return { l with rest, queue := l.queue ++ [.scalar text false], keyAllowed := true }

/-- Takes the token that starts with a character in a column. -/
def takeAt (l : Lexer) (c : Char) (column : Nat) : Except ReadError Lexer :=
  let after := l.rest.drop 1
  if c = '%' ∧ column = 0 then do
    let l ← l.closeAllBlocks.dropKeyStart
    let (directive, rest) ← readDirective after
    return { l with rest, queue := l.queue ++ [.directive directive], keyAllowed := false }
  else if atMark '-' l.rest then l.betweenDocuments .documentStart (l.rest.drop 3)
  else if atMark '.' l.rest then l.betweenDocuments .documentEnd (l.rest.drop 3)
  else if c = '[' then l.openBrackets .openBracket
  else if c = '{' then l.openBrackets .openBrace
  else if c = ']' then l.closeBrackets .closeBracket
  else if c = '}' then l.closeBrackets .closeBrace
  else if c = ',' then do return (← l.dropKeyStart).indicator 1 true .comma
  else if c = '-' ∧ atBlank after then l.takeMark column .sequenceBlock .dash true
  else if c = '?' ∧ (l.inFlow ∨ atBlank after) then l.takeMark column .mappingBlock .key !l.inFlow
  else if c = ':' ∧ (l.inFlow ∨ atBlank after) then l.takeColon column
  else if c = '*' then
    l.takeNode fun cs => (readAnchor (cs.drop 1)).map fun (name, rest) => (.reference name, rest)
  else if c = '&' then
    l.takeNode fun cs => (readAnchor (cs.drop 1)).map fun (name, rest) => (.anchor name, rest)
  else if c = '!' then l.takeNode readTag
  else if c = '|' ∧ !l.inFlow then l.takeLiteral false
  else if c = '>' ∧ !l.inFlow then l.takeLiteral true
  else if c = '\'' ∨ c = '"' then
    l.takeNode fun cs =>
      (readQuoted c (cs.drop 1)).map fun (text, rest) => (.scalar text false, rest)
  else if startsPlain l.inFlow l.rest then l.takePlain
  else .error .malformed

/-- Takes the next token, and those that open and close blocks before it. -/
def takeNext (l : Lexer) : Except ReadError Lexer := do
  let l ← l.toToken.dropStale
  match l.rest with
  | [] => l.finish
  | here :: _ =>
    (l.closeBlocks (here.column < ·)).takeAt here.char here.column

end Lexer

/-! ## §5 All tokens -/

/-- The tokens of a text, and why there are no more of them unless the text is at its end. -/
structure Scanned where
  tokens : List Token
  failure : Option ReadError

/-- Puts a token in front. -/
def Scanned.prepend (token : Token) (s : Scanned) : Scanned :=
  { s with tokens := token :: s.tokens }

/-- Reads tokens until the text is at its end or until reading fails; a token is given as soon as it
is settled. -/
def Lexer.run : Nat → Lexer → Scanned
  | 0, _ => ⟨[], none⟩
  | fuel + 1, l =>
    -- Keys that have become too long are noticed whenever a token is asked for.
    match if l.queue.isEmpty then .ok l else l.dropStale with
    | .error e => ⟨[], some e⟩
    | .ok l =>
      if l.isSettled then
        match l.queue with
        | [] => ⟨[], none⟩
        | token :: queue =>
          (Lexer.run fuel { l with queue, taken := l.taken + 1 }).prepend token
      else if l.isDone then ⟨[], none⟩
      else
        match l.takeNext with
        | .error e => ⟨[], some e⟩
        | .ok l => Lexer.run fuel l

/-- The tokens of the cells of a document.  Each character gives at most one token, to which those
for a key and for a block come. -/
def Token.scan (cs : List Cell) : Scanned :=
  Lexer.run (6 * cs.length + 12) (.start cs)

end Visibility.Document
