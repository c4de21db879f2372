import Visibility.Document.Assembly
import Visibility.Document.Node.Reader

/-!
# Documents

A document is a text that denotes a value: scalars, sequences and mappings in a human-friendly
notation.  `Document.read` reads it: the text is cut into cells and these into tokens, from which
the nodes are read that a value is assembled of.
-/

namespace Visibility.Document

/-- How often an object may be repeated within itself.  Where several aliases lead back, each
repetition would multiply the size of the value, so there are few. -/
def repetitions (loops : Nat) : Nat :=
  if loops ≤ 1 then 330 else 1

/-- The value of the nodes of a document; its objects are numbered from `objects` on.  Gives the
value and the number of the next object. -/
def RootedGraph.value (g : RootedGraph) (identity : Nat → Identity) (objects : Nat) :
    Except ReadError (Value × Nat) := do
  match g.root with
  | none => return (.null, objects)
  | some root =>
    let size := g.graph.size
    let start : Shaping :=
      { graph := g.graph, identity := fun n => identity (objects + n),
        shapes := Array.replicate size none, waiting := [], objects := size }
    let shaped ← Shaping.fillAll (size + 1) (← start.visit root)
    let limit := repetitions g.loops
    let depth := (size + 1) * (limit + 2)
    return (shaped.valueOf limit depth [] root, objects + shaped.objects)

/-- Reads a document; the objects of its value are numbered from `objects` on.  Gives the value and
the number of the next object. -/
def read (identity : Nat → Identity) (objects : Nat) (s : String) :
    Except ReadError (Value × Nat) := do
  let cs := s.toList
  if !cs.all isAllowed then throw .malformed
  let nodes ← RootedGraph.ofTokens (Token.scan (cellsOf cs))
  nodes.value identity objects

end Visibility.Document
