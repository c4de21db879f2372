import Visibility.Number.Numeral
import Visibility.Value

/-!
# Conversions of values

How a value counts as true or false, as a text, and as a number.  An object is converted by way of
its text: an array is the texts of its elements joined by commas, and every other object has one
fixed text.

Arrays nest, and their texts are written down to `textDepth` levels; deeper ones are refused.
-/

namespace Visibility.Value

/-! ## §1 Truth -/

/-- Whether a value counts as true.  False are `false`, zero, NaN, the empty string and the two
absent values; an object is true, even an empty one. -/
def isTruthy : Value → Except CoercionError Bool
  | .undefined | .null => .ok false
  | .bool b => .ok b
  | .number x => x.isTruthy
  | .string s => .ok (s != "")
  | .list .. | .tuple .. | .map .. | .foreign .. => .ok true

/-- Whether a value is the number NaN. -/
def isNaN : Value → Except CoercionError Bool
  | .number x => x.isNaN
  | _ => .ok false

/-! ## §2 Text -/

/-- The text of an object that is no array. -/
def objectText : String := "[object Object]"

/-- How many levels of nested arrays are written. -/
def textDepth : Nat := 300

/-- The text of a value whose arrays are nested at most `depth` levels deep.  The elements of an
array are written from left to right, and an absent one is empty. -/
def textWithin : Nat → Value → Except CoercionError String
  | _, .undefined => .ok "undefined"
  | _, .null => .ok "null"
  | _, .bool b => .ok (if b then "true" else "false")
  | _, .number x => x.text
  | _, .string s => .ok s
  | 0, .list .. | 0, .tuple .. => .error .nestedTooDeeply
  -- The first element without a text decides how the conversion fails.
  | depth + 1, .list _ items | depth + 1, .tuple _ items => do
    let texts ← items.mapM fun item => if item.isAbsent then .ok "" else textWithin depth item
    return String.intercalate "," texts
  | _, .map .. | _, .foreign .. => .ok objectText

/-- The text of a value. -/
def text (v : Value) : Except CoercionError String :=
  v.textWithin textDepth

/-! ## §3 Primitive values -/

/-- An object becomes its text; other values stay as they are. -/
def toPrimitive (v : Value) : Except CoercionError Value :=
  if v.kind = .object then v.text.map .string else .ok v

/-! ## §4 Number -/

/-- The number of a value; NaN where it has no numeric reading. -/
def toNumber : Value → Except CoercionError Number
  | .undefined => .ok (.double .nan)
  | .null => .ok (.int 0)
  | .bool b => .ok (.int (if b then 1 else 0))
  | .number x => .ok x
  | .string s => (Numeral.stringValue s).map .double
  | v@(.list ..) | v@(.tuple ..) | v@(.map ..) | v@(.foreign ..) => do
    return .double (← Numeral.stringValue (← v.text))

end Visibility.Value
