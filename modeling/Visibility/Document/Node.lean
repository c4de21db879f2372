import Visibility.Document.Tag

/-!
# Nodes of a document

What a document says before its scalars are given a value: scalars, sequences and mappings with
their tags.  Nodes are numbered, and a sequence or mapping holds the numbers of its parts, because
an alias makes one node part of several others and even of itself.

Main statement: `Graph.find?_set_self`, that a node which is put into a graph is found there.
-/

namespace Visibility.Document

/-! ## §1 Nodes -/

/-- What a node holds. -/
inductive Content where
  | scalar (text : String)
  | sequence (items : List Nat)
  | mapping (entries : List (Nat × Nat))
  deriving DecidableEq, Repr

/-- A node. -/
structure Node where
  tag : Tag
  content : Content
  deriving DecidableEq, Repr

instance : Inhabited Node := ⟨⟨.null, .scalar ""⟩⟩

/-- The node of a place where nothing is written. -/
def Node.nothing : Node := ⟨.null, .scalar ""⟩

/-! ## §2 Graphs -/

/-- The nodes of a document by their numbers. -/
structure Graph where
  nodes : Array Node

namespace Graph

/-- The graph without nodes. -/
def empty : Graph := ⟨#[]⟩

/-- How many nodes there are. -/
def size (g : Graph) : Nat := g.nodes.size

/-- The node of a number. -/
def find? (g : Graph) (n : Nat) : Option Node := g.nodes[n]?

/-- Adds a node, whose number is the number of nodes before it. -/
def add (g : Graph) (node : Node) : Graph := ⟨g.nodes.push node⟩

/-- Puts a node in the place of another one. -/
def set (g : Graph) (n : Nat) (node : Node) : Graph := ⟨g.nodes.setIfInBounds n node⟩

theorem find?_add (g : Graph) (node : Node) : (g.add node).find? g.size = some node := by
  simp [add, find?, size]

theorem find?_set_self {g : Graph} {n : Nat} (h : n < g.size) (node : Node) :
    (g.set n node).find? n = some node := by
  simp only [size] at h
  simp [set, find?, h]

theorem find?_set_of_ne {g : Graph} {n m : Nat} (h : n ≠ m) (node : Node) :
    (g.set n node).find? m = g.find? m := by
  simp [set, find?, h]

theorem size_set (g : Graph) (n : Nat) (node : Node) : (g.set n node).size = g.size := by
  simp [set, size]

end Graph

end Visibility.Document
