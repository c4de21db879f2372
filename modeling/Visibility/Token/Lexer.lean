import Visibility.Failure
import Visibility.Text.Blank
import Visibility.Text.Digit

/-!
# Cutting an expression into tokens

`scan` reads the token at the start of a text, `Lexer.next` skips blanks and then reads a token, and
`tokenize` reads all of them.

The fixed tokens stand in the table `fixedTokens`, longer ones before those they start with, so that
the first match is the longest.  A string that is not closed ends with the text.

Main statements: `scan_rest_length` (a token takes at least one character), on which the recursion
of `tokensFrom` rests.
-/

namespace Visibility

/-! ## §1 Character classes and fixed tokens -/

/-- A character of a number after its first digit. -/
def isNumberPart (c : Char) : Bool :=
  isDigit c || c == '.'

/-- A character that starts a name. -/
def isNameStart (c : Char) : Bool :=
  ('A' ≤ c && c ≤ 'Z') || ('a' ≤ c && c ≤ 'z') || c == '_' || c == '$'

/-- A character of a name after its start. -/
def isNamePart (c : Char) : Bool :=
  isNameStart c || isDigit c

/-- A character that starts and ends strings. -/
def isQuote (c : Char) : Bool :=
  c == '\'' || c == '"'

/-- The tokens that are always spelled alike. -/
def fixedTokens : List (List Char × TokenKind) :=
  [(['=', '=', '='], .operator), (['!', '=', '='], .operator), (['=', '='], .operator),
    (['!', '='], .operator), (['>', '='], .operator), (['<', '='], .operator),
    (['&', '&'], .operator), (['|', '|'], .operator), (['!'], .operator), (['>'], .operator),
    (['<'], .operator), (['.'], .dot), (['('], .lparen), ([')'], .rparen), (['['], .lbracket),
    ([']'], .rbracket), ([','], .comma)]

/-- The fixed token at the start of a text. -/
def fixedToken? (cs : List Char) : Option (List Char × TokenKind) :=
  fixedTokens.find? fun entry => entry.1.isPrefixOf cs

/-- The words with a meaning of their own. -/
def keywordKind : String → TokenKind
  | "true" | "false" => .boolean
  | "null" => .null
  | _ => .identifier

/-! ## §2 Strings -/

/-- What reading the inside of a string gives: its content, how far the position moves, and what
follows the closing quote. -/
structure QuotedText where
  content : List Char
  width : Nat
  rest : List Char

/-- Puts a character before the content, that took `width` characters to write. -/
def QuotedText.cons (c : Char) (width : Nat) (q : QuotedText) : QuotedText :=
  ⟨c :: q.content, q.width + width, q.rest⟩

/-- Reads a string up to the closing quote.  A backslash makes the next character part of the
content; at the very end of the text it stands for nothing and still counts for two. -/
def readQuoted (quote : Char) : List Char → QuotedText
  | [] => ⟨[], 0, []⟩
  | c :: cs =>
    if c = quote then ⟨[], 1, cs⟩
    else if c = '\\' then
      -- The next character is content, be it a quote or another backslash.
      match cs with
      | [] => ⟨[], 2, []⟩
      | d :: ds => (readQuoted quote ds).cons d 2
    else (readQuoted quote cs).cons c 1

theorem readQuoted_rest_length (quote : Char) (cs : List Char) :
    (readQuoted quote cs).rest.length ≤ cs.length := by
  fun_induction readQuoted quote cs with
  | case1 => simp
  | case2 => simp
  | case3 => simp
  | case4 _ _ _ ih => simp only [QuotedText.cons, List.length_cons]; omega
  | case5 _ _ _ _ ih => simp only [QuotedText.cons, List.length_cons]; omega

/-! ## §3 One token -/

/-- What stands at the start of a text that does not start with a blank. -/
inductive Scan where
  | finished
  | token (token : Token) (width : Nat) (rest : List Char)
  | unexpected (c : Char)

/-- Reads the token at the start of a text. -/
def scan : List Char → Scan
  | [] => .finished
  | c :: cs =>
    if isQuote c then
      let q := readQuoted c cs
      .token ⟨.string, String.ofList q.content⟩ (q.width + 1) q.rest
    -- No number and no name starts like a fixed token, so the order of the tests is free.
    else match fixedToken? (c :: cs) with
      | some (spelling, kind) =>
        .token ⟨kind, String.ofList spelling⟩ spelling.length (cs.drop (spelling.length - 1))
      | none =>
        if isDigit c then
          let more := cs.takeWhile isNumberPart
          .token ⟨.number, String.ofList (c :: more)⟩ (more.length + 1) (cs.dropWhile isNumberPart)
        else if isNameStart c then
          let more := cs.takeWhile isNamePart
          let name := String.ofList (c :: more)
          .token ⟨keywordKind name, name⟩ (more.length + 1) (cs.dropWhile isNamePart)
        else .unexpected c

/-- A token takes at least one character. -/
theorem scan_rest_length {cs : List Char} {t : Token} {width : Nat} {rest : List Char}
    (h : scan cs = .token t width rest) : rest.length < cs.length := by
  unfold scan at h
  split at h
  · cases h
  · rename_i c cs
    simp only [List.length_cons]
    split at h
    · cases h
      have := readQuoted_rest_length c cs
      omega
    · split at h
      · cases h
        simp only [List.length_drop]
        omega
      · split at h
        · cases h
          have : (cs.dropWhile isNumberPart).length ≤ cs.length :=
            (List.dropWhile_sublist isNumberPart).length_le
          omega
        · split at h
          · cases h
            have : (cs.dropWhile isNamePart).length ≤ cs.length :=
              (List.dropWhile_sublist isNamePart).length_le
            omega
          · cases h

/-! ## §4 The lexer as a machine -/

/-- What is left of an expression, and the position where it starts. -/
structure Lexer where
  rest : List Char
  position : Nat
  deriving Repr

namespace Lexer

/-- A lexer at the start of an expression. -/
def ofSource (source : String) : Lexer :=
  ⟨source.toList, 0⟩

/-- Skips the blanks in front. -/
def skipBlanks (l : Lexer) : Lexer :=
  ⟨l.rest.dropWhile Text.isBlank, l.position + (l.rest.takeWhile Text.isBlank).length⟩

/-- Reads the next token.  At the end there is an end token, again and again; a character that
starts no token stays where it is. -/
def next (l : Lexer) : Except SyntaxError Token × Lexer :=
  let l := l.skipBlanks
  match scan l.rest with
  | .finished => (.ok .eof, l)
  | .token t width rest => (.ok t, ⟨rest, l.position + width⟩)
  -- The lexer stays in front of the character, so every further reading fails alike.
  | .unexpected c => (.error (.unexpectedCharacter c l.position), l)

/-- The next `n` readings, each with the position after it. -/
def steps : Nat → Lexer → List (Except SyntaxError Token × Nat)
  | 0, _ => []
  | n + 1, l =>
    let (reading, l) := l.next
    (reading, l.position) :: steps n l

/-- All tokens up to and including the first end token. -/
def tokens (l : Lexer) : Except SyntaxError (List Token) :=
  match _h : scan l.skipBlanks.rest with
  | .finished => .ok [.eof]
  | .token t width rest =>
    match tokens ⟨rest, l.skipBlanks.position + width⟩ with
    | .ok ts => .ok (t :: ts)
    | .error e => .error e
  | .unexpected c => .error (.unexpectedCharacter c l.skipBlanks.position)
termination_by l.rest.length
decreasing_by
  -- skipping blanks adds nothing, and the token takes at least one character
  have := scan_rest_length _h
  have : (l.rest.dropWhile Text.isBlank).length ≤ l.rest.length :=
    (List.dropWhile_sublist Text.isBlank).length_le
  simp only [skipBlanks] at *
  omega

end Lexer

/-- All tokens of an expression, with an end token last. -/
def tokenize (source : String) : Except SyntaxError (List Token) :=
  (Lexer.ofSource source).tokens

end Visibility
