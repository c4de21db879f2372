import Visibility.Failure
import Visibility.Value

/-!
# Contexts

What the names of an expression stand for.  A context is a value, and only a mapping gives names a
meaning; a context may also fail whenever it is asked for a name.
-/

namespace Visibility

/-- A source of names. -/
inductive Context where
  | holding (v : Value)
  | unreadable

namespace Context

/-- The context without names. -/
def empty : Context := .holding (.map (.assembled 0) [])

/-- What a name stands for, if anything. -/
def find? (name : String) : Context → Except Failure (Option Value)
  | .holding (.map _ entries) => .ok (Value.find? name entries)
  | .holding _ => .ok none
  | .unreadable => .error .unreadableContext

end Context

end Visibility
