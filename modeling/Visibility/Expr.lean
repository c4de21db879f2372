import Visibility.Value

/-!
# Expressions

The tree of an expression.  A grouped part of an expression is a node of its own, so the tree shows
which parentheses were written.
-/

namespace Visibility

/-! ## §1 Operators -/

/-- The operators of the language, and any other text in the place of one. -/
inductive Operator where
  | or
  | and
  | strictEqual
  | strictUnequal
  | looseEqual
  | looseUnequal
  | less
  | lessEqual
  | greater
  | greaterEqual
  | not
  | other (text : String)
  deriving DecidableEq, Repr

namespace Operator

/-- How an operator is written. -/
def text : Operator → String
  | .or => "||"
  | .and => "&&"
  | .strictEqual => "==="
  | .strictUnequal => "!=="
  | .looseEqual => "=="
  | .looseUnequal => "!="
  | .less => "<"
  | .lessEqual => "<="
  | .greater => ">"
  | .greaterEqual => ">="
  | .not => "!"
  | .other text => text

/-- The operator that is written so. -/
def ofText : String → Operator
  | "||" => .or
  | "&&" => .and
  | "===" => .strictEqual
  | "!==" => .strictUnequal
  | "==" => .looseEqual
  | "!=" => .looseUnequal
  | "<" => .less
  | "<=" => .lessEqual
  | ">" => .greater
  | ">=" => .greaterEqual
  | "!" => .not
  | text => .other text

theorem text_ofText (s : String) : (ofText s).text = s := by
  unfold ofText
  split <;> rfl

/-- Whether it compares its two operands, by equality or by order. -/
def isComparison : Operator → Bool
  | .strictEqual | .strictUnequal | .looseEqual | .looseUnequal => true
  | .less | .lessEqual | .greater | .greaterEqual => true
  | _ => false

end Operator

/-! ## §2 The tree -/

/-- An expression. -/
inductive Expr where
  | literal (value : Value)
  | name (name : String)
  | member (object : Expr) (property : String)
  | array (elements : List Expr)
  | call (object : Expr) (method : String) (arguments : List Expr)
  | binary (operator : Operator) (left right : Expr)
  | unary (operator : Operator) (operand : Expr)
  | group (inner : Expr)
  /-- A node of no kind of the language, of which only the name is known. -/
  | unknown (kind : String)

instance : Inhabited Expr := ⟨.literal .undefined⟩

end Visibility
