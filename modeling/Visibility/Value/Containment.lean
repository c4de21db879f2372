import Visibility.Value

/-!
# Objects within objects

A value is a tree of values, in which the same object may occur at several places.  If it occurs
within itself, what the value describes has no end, although the tree has one.
-/

namespace Visibility

mutual

/-- Whether an object occurs within itself or within one of those that enclose the value. -/
def Value.isEndless (enclosing : List Identity) : Value → Bool
  | .list id items => enclosing.contains id || anyEndless (id :: enclosing) items
  | .tuple id items => enclosing.contains id || anyEndless (id :: enclosing) items
  | .map id entries => enclosing.contains id || anyEntryEndless (id :: enclosing) entries
  | _ => false

/-- The same for one of the items of an array. -/
def anyEndless (enclosing : List Identity) : List Value → Bool
  | [] => false
  | v :: vs => v.isEndless enclosing || anyEndless enclosing vs

/-- The same for the value of one of the entries of a mapping. -/
def anyEntryEndless (enclosing : List Identity) : List (Value × Value) → Bool
  | [] => false
  | (_, v) :: es => v.isEndless enclosing || anyEntryEndless enclosing es

end

end Visibility
