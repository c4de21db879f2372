import Visibility.Token

/-!
# Failures

Why an expression has no value.  The causes fall into four groups: the expression is not a sentence
of the language (`SyntaxError`), it reaches for something it may not read (`SecurityError`), a
conversion has no result (`CoercionError`), or the context itself refused to be read.  Each cause
has one message.
-/

namespace Visibility

/-! ## §1 Expressions that are no sentences -/

/-- What is wrong with the form of an expression. -/
inductive SyntaxError where
  | unexpectedCharacter (c : Char) (position : Nat)
  | emptyExpression
  | expectedToken (wanted : TokenKind) (found : Token)
  | unexpectedToken (text : String)
  | nestedTooDeeply
  | unknownOperator (text : String)
  | unknownUnaryOperator (text : String)
  | unknownNode (name : String)
  deriving DecidableEq, Repr

/-- The message of a syntax error. -/
def SyntaxError.message : SyntaxError → String
  | .unexpectedCharacter c position =>
    "Unexpected character: '" ++ c.toString ++ "' at position " ++ position.repr
  | .emptyExpression => "Empty expression"
  | .expectedToken wanted found =>
    "Expected " ++ wanted.name ++ ", got " ++ found.kind.name ++ " ('" ++ found.text ++ "')"
  | .unexpectedToken text => "Unexpected token: '" ++ text ++ "'"
  | .nestedTooDeeply => "Expression is nested too deeply"
  | .unknownOperator text => "Unknown operator: '" ++ text ++ "'"
  | .unknownUnaryOperator text => "Unknown unary operator: '" ++ text ++ "'"
  | .unknownNode name => "Unknown node type: " ++ name

/-! ## §2 Expressions that reach too far -/

/-- What an expression may not read or call. -/
inductive SecurityError where
  /-- The name is no key of the context, or no own property of the object. -/
  | accessDenied (name : String)
  /-- Only the membership test of arrays can be called. -/
  | methodDenied (method : String)
  /-- The membership test was called on something other than an array. -/
  | notAnArray (method : String)
  deriving DecidableEq, Repr

/-- The message of a security error. -/
def SecurityError.message : SecurityError → String
  | .accessDenied name => "Access to '" ++ name ++ "' is not allowed"
  | .methodDenied method => "Method '" ++ method ++ "' is not allowed"
  | .notAnArray method => "'" ++ method ++ "' can only be called on arrays"

/-! ## §3 Conversions without a result -/

/-- Why a conversion or a comparison of values has no result. -/
inductive CoercionError where
  /-- A whole number rounds beyond the greatest double. -/
  | integerTooLarge
  /-- A finite decimal rounds beyond the greatest double and is to be written. -/
  | decimalTooLarge
  /-- A signaling NaN takes part in a comparison of numbers. -/
  | signalingNaN
  /-- Arrays are nested too deeply to be written. -/
  | nestedTooDeeply
  /-- The operator does not order its operands. -/
  | notRelational (operator : String)
  deriving DecidableEq, Repr

/-- The message of a conversion without a result. -/
def CoercionError.message : CoercionError → String
  | .integerTooLarge => "integer too large for a double"
  | .decimalTooLarge => "decimal too large to be written"
  | .signalingNaN => "comparison with a signaling NaN"
  | .nestedTooDeeply => "arrays are nested too deeply"
  | .notRelational operator => "Not a relational operator: " ++ operator

/-! ## §4 Failures of an evaluation -/

/-- Why an evaluation ended without a value. -/
inductive Failure where
  | malformed (cause : SyntaxError)
  | denied (cause : SecurityError)
  | coercion (cause : CoercionError)
  /-- Looking up a name in the context failed. -/
  | unreadableContext
  deriving DecidableEq, Repr

end Visibility
