/-!
# Tokens

The words of an expression.  A token is a kind and a text: for a string the text is its content
without quotes and escapes, for every other kind it is what stands in the expression.
-/

namespace Visibility

/-- The kinds of tokens. -/
inductive TokenKind where
  | number
  | string
  | boolean
  | null
  | identifier
  | operator
  | dot
  | lparen
  | rparen
  | lbracket
  | rbracket
  | comma
  | eof
  deriving DecidableEq, Repr

/-- The name of a kind of token, as messages give it. -/
def TokenKind.name : TokenKind → String
  | .number => "number"
  | .string => "string"
  | .boolean => "boolean"
  | .null => "null"
  | .identifier => "identifier"
  | .operator => "operator"
  | .dot => "dot"
  | .lparen => "lparen"
  | .rparen => "rparen"
  | .lbracket => "lbracket"
  | .rbracket => "rbracket"
  | .comma => "comma"
  | .eof => "eof"

/-- A token: its kind and its text. -/
structure Token where
  kind : TokenKind
  text : String
  deriving DecidableEq, Repr

/-- The token that stands for the end of an expression. -/
def Token.eof : Token := ⟨.eof, ""⟩

end Visibility
