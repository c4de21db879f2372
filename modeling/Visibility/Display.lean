import Visibility.Number.Numeral
import Visibility.Text.Quoted
import Visibility.Value.Coercion
import Visibility.Value.Containment

/-!
# Showing results

The text in which the value of an expression is shown.  Objects and strings are shown as JSON, with
a space after each comma and colon; every other value is shown by its text.

Inside JSON, numbers have the layout of JSON documents, and what JSON has no form for becomes a
string that describes it.  The keys of a mapping are strings in JSON; those that are none must at
least have a text there.  Whole numbers of too many digits and objects that contain themselves
cannot be shown.
-/

namespace Visibility

/-- Why a value cannot be shown. -/
inductive DisplayError where
  | coercion (cause : CoercionError)
  /-- A mapping has a key that JSON cannot write. -/
  | unwritableKey
  /-- A whole number has more digits than are written. -/
  | tooManyDigits
  /-- An object is part of itself. -/
  | endless
  | nestedTooDeeply
  deriving DecidableEq, Repr

namespace Display

/-! ## §1 Parts of a JSON text -/

/-- A description of a decimal, which JSON has no form for. -/
def describeDecimal (d : Decimal) : String :=
  "Decimal('" ++ d.text ++ "')"

/-- A whole number in JSON. -/
def whole (n : Int) : Except DisplayError String :=
  if Numeral.isTooLong n then .error .tooManyDigits else .ok n.repr

/-- A number in JSON. -/
def number : Number → Except DisplayError String
  | .int n => whole n
  | .double x => .ok (Layout.json.write x)
  | .decimal d => .ok (Text.quote (describeDecimal d))

/-- The key of a mapping as a string. -/
def key : Value → Except DisplayError String
  | .string s => .ok s
  | .null => .ok "null"
  | .bool b => .ok (if b then "true" else "false")
  | .number (.int n) => whole n
  | .number (.double x) => .ok (Layout.json.write x)
  | _ => .error .unwritableKey

/-! ## §2 Whole texts -/

/-- The JSON text of a value whose objects are nested at most `depth` levels deep. -/
def jsonWithin : Nat → Value → Except DisplayError String
  | _, .undefined => .ok (Text.quote "undefined")
  | _, .null => .ok "null"
  | _, .bool b => .ok (if b then "true" else "false")
  | _, .number x => number x
  | _, .string s => .ok (Text.quote s)
  | _, .foreign _ thing => .ok (Text.quote thing.describe)
  | 0, .list .. | 0, .tuple .. | 0, .map .. => .error .nestedTooDeeply
  | depth + 1, .list _ items | depth + 1, .tuple _ items => do
    let texts ← items.mapM (jsonWithin depth)
    return "[" ++ String.intercalate ", " texts ++ "]"
  | depth + 1, .map _ entries => do
    let texts ← entries.mapM fun (k, v) => do
      return Text.quote (← key k) ++ ": " ++ (← jsonWithin depth v)
    return "\x7b" ++ String.intercalate ", " texts ++ "\x7d"

/-- How many levels of nested objects are shown. -/
def depth : Nat := 980

end Display

/-- The text in which a value is shown. -/
def Value.display (v : Value) : Except DisplayError String :=
  match v with
  | .list .. | .tuple .. | .map .. | .foreign .. | .string _ =>
    if v.isEndless [] then .error .endless else Display.jsonWithin Display.depth v
  | _ =>
    match v.text with
    | .ok s => .ok s
    | .error cause => .error (.coercion cause)

end Visibility
