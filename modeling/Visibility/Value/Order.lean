import Visibility.Expr
import Visibility.Value.Coercion

/-!
# Order of values

The relational operators.  Two values are compared after objects have become texts: two strings by
their characters, everything else as numbers.  Where a number is NaN no relation holds, whatever the
operator.
-/

namespace Visibility

/-- Whether a relational operator holds for two things in the given order. -/
def Operator.holds? (operator : Operator) (order : Ordering) : Except CoercionError Bool :=
  match operator with
  | .less => .ok (order == .lt)
  | .lessEqual => .ok (order != .gt)
  | .greater => .ok (order == .gt)
  | .greaterEqual => .ok (order != .lt)
  | _ => .error (.notRelational operator.text)

namespace Value

/-- Applies a relational operator to two values. -/
def relate (operator : Operator) (a b : Value) : Except CoercionError Bool := do
  let a ← a.toPrimitive
  let b ← b.toPrimitive
  match a, b with
  | .string s, .string t => operator.holds? (compare s t)
  | _, _ =>
    -- Both sides are converted before either is looked at.
    let x ← a.toNumber
    let y ← b.toNumber
    -- A NaN on the left answers without a look at the right side.
    if ← x.isNaN then return false
    match ← x.order? y with
    | none => return false
    | some order => operator.holds? order

end Value

end Visibility
