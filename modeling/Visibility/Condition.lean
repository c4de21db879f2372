import Visibility.Evaluation
import Visibility.Expr.Parser
import Visibility.Token.Lexer

/-!
# Conditions

A condition is the text of an expression together with its tree.  It is compiled once and can then
be evaluated in any context.
-/

namespace Visibility

/-- A compiled condition. -/
structure Condition where
  source : String
  expr : Expr

namespace Condition

/-- Compiles a text; texts that are no expressions are refused. -/
def compile (source : String) : Except SyntaxError Condition :=
  match tokenize source with
  | .error cause => .error cause
  | .ok ts =>
    match Expr.ofTokens ts with
    | .error cause => .error cause
    | .ok e => .ok ⟨source, e⟩

/-- The value of a condition in a context, and the trace of its evaluation. -/
def evaluate (c : Condition) (context : Context) : Except Failure Value × Trace :=
  c.expr.evaluate context

end Condition

end Visibility
