import Visibility.Document.Node.Merge
import Visibility.Document.Scalar
import Visibility.Value.Mapping

/-!
# From nodes to values

The value of a document is assembled in two passes.  The first gives each node a *shape*: a scalar
gets its value, and a collection the nodes it is made of, after merging.  Nodes are shaped outside
in, each once, and the parts of a collection when its turn comes; so the first error in this order
is the one that counts.  The second pass puts the shapes together.

Every sequence and mapping has an identity of its own, and an alias stands for the very object of
its anchor.  A document may make an object part of itself; as values are trees, the object is then
repeated within itself a limited number of times.
-/

namespace Visibility.Document

/-! ## §1 Shapes -/

/-- What a node is made of. -/
inductive Shape where
  | whole (v : Value)
  | list (items : List Nat)
  | map (entries : List (Value × Nat))
  /-- A list of pairs, each with its own object number. -/
  | pairs (entries : List (Nat × Nat × Nat))
  | set (members : List Value)

/-- Whether a shape can be a key: what can change cannot. -/
def Shape.keyValue? : Shape → Option Value
  | .whole v => some v
  | .list _ | .map _ | .pairs _ | .set _ => none

/-- A graph whose nodes get their shapes: which identity the object of a number has, the shapes so
far, the collections that wait for their turn, and the number of objects so far. -/
structure Shaping where
  graph : Graph
  identity : Nat → Identity
  shapes : Array (Option Shape)
  waiting : List Nat
  objects : Nat

namespace Shaping

/-- The shape of a node, if it has one. -/
def shape? (w : Shaping) (n : Nat) : Option Shape :=
  (w.shapes[n]?).join

/-- Gives a node its shape. -/
def setShape (w : Shaping) (n : Nat) (shape : Shape) : Shaping :=
  { w with shapes := w.shapes.setIfInBounds n (some shape) }

/-- The text that a node with the tag of a scalar stands for: its own, or that under the key of a
mapping for it. -/
def textOf (g : Graph) : Nat → Nat → Except ReadError String
  | 0, _ => .error .nestedTooDeeply
  | depth + 1, n =>
    match g.find? n with
    | some ⟨_, .scalar text⟩ => .ok text
    | some ⟨_, .mapping entries⟩ =>
      match entries.find? fun entry => (g.find? entry.1).any (·.tag == .scalarKey) with
      | some entry => textOf g depth entry.2
      | none => .error .malformed
    | _ => .error .malformed

/-- The shape that a collection has until its turn comes, if the tag is that of a collection. -/
def emptyShape? : Tag → Option Shape
  | .sequence => some (.list [])
  | .mapping => some (.map [])
  | .orderedMapping | .pairs => some (.pairs [])
  | .set => some (.set [])
  | _ => none

/-- Visits a node: a scalar gets its value, a collection waits for its turn. -/
def visit (w : Shaping) (n : Nat) : Except ReadError Shaping := do
  if (w.shape? n).isSome then return w
  match w.graph.find? n with
  | none => throw .malformed
  | some node =>
    match emptyShape? node.tag with
    | some shape => return { w.setShape n shape with waiting := w.waiting ++ [n] }
    | none =>
      -- A tag that has no scalars is refused before the text is looked at.
      if [Tag.merge, .scalarKey, .unknown].contains node.tag then throw .malformed
      let text ← textOf w.graph (w.graph.size + 1) n
      return w.setShape n (.whole (← scalarValue node.tag (w.identity n) text))

/-! ## §2 Collections -/

/-- Visits the entries of a mapping.  Gives the values of the keys with the nodes under them. -/
def visitEntries (w : Shaping) :
    List (Nat × Nat) → Except ReadError (List (Value × Nat) × Shaping)
  | [] => .ok ([], w)
  | (key, value) :: entries => do
    let w ← w.visit key
    match (w.shape? key).bind Shape.keyValue? with
    | none => throw .malformed
    | some k =>
      let w ← w.visit value
      let (more, w) ← visitEntries w entries
      return ((k, value) :: more, w)

/-- Merges the entries of a mapping and visits them. -/
def visitMapping (w : Shaping) (n : Nat) : Except ReadError (List (Value × Nat) × Shaping) := do
  let graph ← w.graph.merged n
  let w := { w with graph }
  w.visitEntries (← graph.entriesOf n)

/-- Visits the items of a sequence of pairs, each of which is a mapping with one entry. -/
def visitPairs (w : Shaping) : List Nat → Except ReadError (List (Nat × Nat × Nat) × Shaping)
  | [] => .ok ([], w)
  | item :: items => do
    match ← w.graph.entriesOf item with
    | [(key, value)] =>
      let w ← (← w.visit key).visit value
      let object := w.objects
      let (more, w) ← visitPairs { w with objects := object + 1 } items
      return ((object, key, value) :: more, w)
    | _ => throw .malformed

/-- The items of a node that has to be a sequence. -/
def itemsOf (g : Graph) (n : Nat) : Except ReadError (List Nat) :=
  match g.find? n with
  | some ⟨_, .sequence items⟩ => .ok items
  | _ => .error .malformed

/-- Gives a collection its shape when its turn comes. -/
def fill (w : Shaping) (n : Nat) : Except ReadError Shaping := do
  match w.shape? n with
  | some (.list _) =>
    let items ← itemsOf w.graph n
    let w ← items.foldlM visit w
    return w.setShape n (.list items)
  | some (.map _) =>
    let (entries, w) ← w.visitMapping n
    return w.setShape n (.map entries)
  | some (.pairs _) =>
    let (entries, w) ← w.visitPairs (← itemsOf w.graph n)
    return w.setShape n (.pairs entries)
  | some (.set _) =>
    let (entries, w) ← w.visitMapping n
    return w.setShape n (.set (entries.map (·.1)))
  | some (.whole _) | none => return w

/-- Fills the waiting collections, which make others wait.  Each node waits once. -/
def fillAll : Nat → Shaping → Except ReadError Shaping
  | 0, w => .ok w
  | fuel + 1, w =>
    match w.waiting with
    | [] => .ok w
    | n :: waiting => do fillAll fuel (← { w with waiting }.fill n)

/-! ## §3 Values -/

/-- The description of a double. -/
def describeDouble : Double → String
  | .nan => "nan"
  | .infinite negative => if negative then "-inf" else "inf"
  | x => Layout.json.write x

/-- The description of a member of a set. -/
def describeMember : Value → String
  | .null => "None"
  | .bool b => if b then "True" else "False"
  | .number (.int n) => n.repr
  | .number (.double x) => describeDouble x
  | .string s => Text.showQuoted s
  | .foreign _ thing => thing.describe
  | _ => ""

/-- Keys without those that are the same as an earlier one. -/
def distinctKeys (keys : List Value) : List Value :=
  (Value.entriesOf (keys.map fun k => (k, .null))).map (·.1)

/-- The value of a node, in which nodes are at most `depth` levels deep.  On the way to it lie the
nodes of `path`, and a node may be `limit` times among them. -/
def valueOf (w : Shaping) (limit : Nat) : Nat → List Nat → Nat → Value
  | 0, _, _ => .null
  | depth + 1, path, n =>
    let isCut := limit < path.count n
    let part := valueOf w limit depth (n :: path)
    match w.shape? n with
    | none => .null
    | some (.whole v) => v
    | some (.list items) => .list (w.identity n) (if isCut then [] else items.map part)
    | some (.map entries) =>
      .map (w.identity n)
        (if isCut then [] else Value.entriesOf (entries.map fun (k, value) => (k, part value)))
    | some (.pairs entries) =>
      .list (w.identity n) <|
        if isCut then []
        else entries.map fun (object, k, value) =>
          .tuple (w.identity object) [part k, part value]
    | some (.set members) =>
      .foreign (w.identity n) (.set ((distinctKeys members).map describeMember))

end Shaping

end Visibility.Document
