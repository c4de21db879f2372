import Visibility.Document.Node
import Visibility.Document.ReadError

/-!
# Merged entries

An entry of a mapping whose key has the tag for merging stands for the entries of its value, a
mapping or a sequence of mappings.  They come before the mapping's own entries, which so replace
them; of the mappings of a sequence, the entries of the first come last.

The key for the scalar that a mapping stands for becomes a plain string on the way.
-/

namespace Visibility.Document.Graph

/-- The entries of a node that has to be a mapping. -/
def entriesOf (g : Graph) (n : Nat) : Except ReadError (List (Nat × Nat)) :=
  match g.find? n with
  | some ⟨_, .mapping entries⟩ => .ok entries
  | _ => .error .malformed

/-- Gives a mapping other entries. -/
def setEntries (g : Graph) (n : Nat) (entries : List (Nat × Nat)) : Graph :=
  match g.find? n with
  | some node => g.set n { node with content := .mapping entries }
  | none => g

/-- The first entry that merges others into a mapping, as the value of its key, and the entries
without it. -/
def splitMerge (g : Graph) : List (Nat × Nat) → Option (Nat × List (Nat × Nat))
  | [] => none
  | (key, value) :: entries =>
    if (g.find? key).any (·.tag == .merge) then some (value, entries)
    else (splitMerge g entries).map fun (found, others) => (found, (key, value) :: others)

/-- Makes plain strings of the keys among entries that stand for the scalar of a mapping. -/
def plainKeys (g : Graph) (entries : List (Nat × Nat)) : Graph :=
  entries.foldl
    (fun g entry =>
      match g.find? entry.1 with
      | some node => if node.tag = .scalarKey then g.set entry.1 { node with tag := .string } else g
      | none => g)
    g

/-- A step that puts the merged entries of a mapping in front of its own. -/
abbrev MergeStep := Graph → Nat → Except ReadError Graph

/-- The entries that merged mappings bring, those of the last one first. -/
def mergedItems (merge : MergeStep) (g : Graph) :
    List Nat → Except ReadError (Graph × List (Nat × Nat))
  | [] => .ok (g, [])
  | item :: items => do
    -- Each item has to be a mapping.
    let _ ← g.entriesOf item
    let g ← merge g item
    let entries ← g.entriesOf item
    let (g, more) ← mergedItems merge g items
    return (g, more ++ entries)

/-- The entries that a merged value brings. -/
def mergedValue (merge : MergeStep) (g : Graph) (value : Nat) :
    Except ReadError (Graph × List (Nat × Nat)) := do
  match g.find? value with
  | some ⟨_, .sequence items⟩ => mergedItems merge g items
  | _ => mergedItems merge g [value]

/-- Takes the entries that merge others out of a mapping, and gives the merged ones. -/
def mergedFront (merge : MergeStep) :
    Nat → Graph → Nat → Except ReadError (Graph × List (Nat × Nat))
  | 0, g, _ => .ok (g, [])
  | rounds + 1, g, n => do
    match g.splitMerge (← g.entriesOf n) with
    | none => return (g, [])
    | some (value, others) =>
      let (g, entries) ← mergedValue merge (g.setEntries n others) value
      let (g, more) ← mergedFront merge rounds g n
      return (g, entries ++ more)

/-- Puts the merged entries of a mapping in front of its own.  An entry that merges others is taken
out of the graph before its value is looked at, so `fuel` of them at most lead to one another. -/
def mergedWithin : Nat → MergeStep
  | 0 => fun g _ => .ok g
  | fuel + 1 => fun g n => do
    let rounds := (← g.entriesOf n).length + 1
    let (g, front) ← mergedFront (mergedWithin fuel) rounds g n
    let own ← g.entriesOf n
    return (g.plainKeys own).setEntries n (front ++ own)

/-- How many entries there are in all mappings. -/
def entryCount (g : Graph) : Nat :=
  g.nodes.foldl (fun count node =>
    match node.content with
    | .mapping entries => count + entries.length
    | _ => count) 0

/-- Puts the merged entries of a mapping in front of its own. -/
def merged (g : Graph) (n : Nat) : Except ReadError Graph :=
  mergedWithin (g.entryCount + 1) g n

end Visibility.Document.Graph
