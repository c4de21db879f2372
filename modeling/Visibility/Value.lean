import Visibility.Foreign
import Visibility.Number

/-!
# Values

The values that expressions compute with: two absent values, booleans, numbers, strings, and
objects.  Objects are lists, tuples, mappings and foreign things, which cannot be looked into.  Each
object has an identity, because two objects are equal only if they are the same one.

`Value.property?` reads what belongs to an object: the keys of a mapping and the length of an array.
-/

namespace Visibility

/-! ## §1 Identities -/

/-- Which object it is: one of those that were given, one that was assembled for a context, or one
that an evaluation built.  The three are numbered apart, so that they never coincide. -/
inductive Identity where
  | given (n : Nat)
  | assembled (n : Nat)
  | built (n : Nat)
  deriving DecidableEq, Repr

/-! ## §2 Values -/

/-- A value.  The entries of a mapping stand in the order in which their keys were added. -/
inductive Value where
  | undefined
  | null
  | bool (b : Bool)
  | number (x : Number)
  | string (s : String)
  | list (id : Identity) (items : List Value)
  | tuple (id : Identity) (items : List Value)
  | map (id : Identity) (entries : List (Value × Value))
  | foreign (id : Identity) (thing : Foreign)

instance : Inhabited Value := ⟨.undefined⟩

/-- The dynamic types of values. -/
inductive ValueKind where
  | undefined
  | null
  | boolean
  | number
  | string
  | object
  deriving DecidableEq, Repr

/-- The name of a dynamic type. -/
def ValueKind.name : ValueKind → String
  | .undefined => "undefined"
  | .null => "null"
  | .boolean => "boolean"
  | .number => "number"
  | .string => "string"
  | .object => "object"

namespace Value

/-- The whole number `n` as a value. -/
def int (n : Int) : Value := .number (.int n)

/-- A double as a value. -/
def double (x : Double) : Value := .number (.double x)

/-- The dynamic type of a value. -/
def kind : Value → ValueKind
  | .undefined => .undefined
  | .null => .null
  | .bool _ => .boolean
  | .number _ => .number
  | .string _ => .string
  | .list .. | .tuple .. | .map .. | .foreign .. => .object

/-- The identity of an object. -/
def identity? : Value → Option Identity
  | .list id _ | .tuple id _ | .map id _ | .foreign id _ => some id
  | _ => none

/-- The elements of an array; lists and tuples are arrays. -/
def elements? : Value → Option (List Value)
  | .list _ items | .tuple _ items => some items
  | _ => none

/-- Whether a value is an array. -/
def isArray (v : Value) : Bool :=
  v.elements?.isSome

/-- The entries of a mapping. -/
def entries? : Value → Option (List (Value × Value))
  | .map _ entries => some entries
  | _ => none

/-- Whether a value is one of the two absent ones. -/
def isAbsent : Value → Bool
  | .undefined | .null => true
  | _ => false

/-! ## §3 Reading from objects -/

/-- Whether a key of a mapping is the string `name`. -/
def isKey (name : String) : Value → Bool
  | .string s => s == name
  | _ => false

/-- What the string `name` is mapped to in a list of entries. -/
def find? (name : String) (entries : List (Value × Value)) : Option Value :=
  (entries.find? fun entry => isKey name entry.1).map (·.2)

/-- What belongs to an object under a name: an entry of a mapping, or the length of an array. -/
def property? (name : String) : Value → Option Value
  | .map _ entries => find? name entries
  | .list _ items | .tuple _ items => if name = "length" then some (int items.length) else none
  | _ => none

end Value

end Visibility
