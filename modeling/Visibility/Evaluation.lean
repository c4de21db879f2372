import Visibility.Evaluation.Step
import Visibility.Expr
import Visibility.Value.Equality
import Visibility.Value.Order

/-!
# Evaluation of expressions

`Expr.evaluate` computes the value of an expression in a context.  It is the border that an
expression cannot cross: a name is read only from the context, a property only from the object's
own, and the only call is the membership test of arrays.

Operands are evaluated from left to right, and `&&` and `||` leave out the right one if the left one
decides.  The number of nodes within each other is limited by `Expr.evaluationDepth`.
-/

namespace Visibility

/-! ## §1 Parts of the rules -/

namespace Evaluation

/-- The one method that can be called. -/
def membershipTest : String := "includes"

/-- Reads what belongs to an object under a name; other values have nothing but absent properties.
-/
def readProperty (v : Value) (property : String) : Step Value :=
  if v.kind = .object then
    match v.property? property with
    | some w => pure w
    | none => .fail (.denied (.accessDenied property))
  else pure .undefined

/-- Whether one of the items strictly equals the value; those after the first that does are not
compared. -/
def containsStrictly (needle : Value) : List Value → Except CoercionError Bool
  | [] => .ok false
  | item :: items => do
    if ← item.strictEquals needle then return true
    containsStrictly needle items

/-- The result of an operator whose two operands are values. -/
def compareWith (operator : Operator) (a b : Value) : Step Bool :=
  match operator with
  | .strictEqual => .lift (a.strictEquals b)
  | .strictUnequal => .lift ((a.strictEquals b).map (!·))
  | .looseEqual => .lift (a.looseEquals b)
  | .looseUnequal => .lift ((a.looseEquals b).map (!·))
  | .less | .lessEqual | .greater | .greaterEqual => .lift (a.relate operator b)
  | .or | .and | .not | .other _ => .fail (.malformed (.unknownOperator operator.text))

end Evaluation

/-! ## §2 The rules -/

namespace Expr

open Evaluation

/-- The value of an expression whose nodes are at most `depth` levels deep. -/
def evaluateWithin (context : Context) : Nat → Expr → Step Value
  | 0, _ => .fail (.malformed .nestedTooDeeply)
  | depth + 1, e =>
    match e with
    | .literal v => pure v
    | .name key => .lookUp context key
    | .member object property => do
      let v ← evaluateWithin context depth object
      readProperty v property
    | .array elements => do
      let items ← elements.mapM (evaluateWithin context depth)
      .buildList items
    | .call object method arguments => do
      let v ← evaluateWithin context depth object
      -- The name of the method is checked before the value of the object is.
      if method ≠ membershipTest then
        .fail (.denied (.methodDenied method))
      else match v.elements? with
        | none => .fail (.denied (.notAnArray method))
        | some items => do
          -- Only the first argument is evaluated.
          let needle ← match arguments with
            | [] => pure .undefined
            | argument :: _ => evaluateWithin context depth argument
          return .bool (← .lift (containsStrictly needle items))
    -- The operand that decides is the value, as it is.
    | .binary .and left right => do
      let v ← evaluateWithin context depth left
      if ← .lift v.isTruthy then evaluateWithin context depth right else return v
    | .binary .or left right => do
      let v ← evaluateWithin context depth left
      if ← .lift v.isTruthy then return v else evaluateWithin context depth right
    | .binary operator left right => do
      let a ← evaluateWithin context depth left
      let b ← evaluateWithin context depth right
      return .bool (← compareWith operator a b)
    | .unary operator operand => do
      let v ← evaluateWithin context depth operand
      match operator with
      | .not => return .bool !(← .lift v.isTruthy)
      | other => .fail (.malformed (.unknownUnaryOperator other.text))
    | .group inner => evaluateWithin context depth inner
    | .unknown kind => .fail (.malformed (.unknownNode kind))

/-- How many nodes of an expression may be evaluated within each other. -/
def evaluationDepth : Nat := 480

/-- The value of an expression in a context, and the trace of its evaluation. -/
def evaluate (e : Expr) (context : Context) : Except Failure Value × Trace :=
  e.evaluateWithin context evaluationDepth .empty

end Expr

end Visibility
