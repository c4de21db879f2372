import Visibility.Proofs.Assembly

/-!
# Documents under other identities

Reading a document gives its objects identities and asks for them only to tell whether two keys are
one.  So under other identities the same document is read, with these in it; above all, the number
that its objects start with decides neither whether it is read nor what it says.

* `Shaping.visit_relabel`, …, `Shaping.fillAll_relabel` — one lemma for each step of shaping
* `Shaping.valueOf_relabel` — the value of a node
* `read_relabel`, `read_add` — documents under other identities, and with greater numbers
-/

namespace Visibility.Document

/-- The shape with other identities. -/
def Shape.relabel (f : Identity → Identity) : Shape → Shape
  | .whole v => .whole (v.relabel f)
  | .list items => .list items
  | .map entries => .map (entries.map fun entry => (entry.1.relabel f, entry.2))
  | .pairs entries => .pairs entries
  | .set members => .set (members.map (Value.relabel f))

namespace Shaping

variable {f : Identity → Identity}

/-- The same shaping under other identities. -/
def relabel (f : Identity → Identity) (w : Shaping) : Shaping :=
  { w with identity := f ∘ w.identity, shapes := w.shapes.map (Option.map (Shape.relabel f)) }

/-! ## §1 Nodes -/

theorem shape?_relabel (w : Shaping) (n : Nat) :
    (w.relabel f).shape? n = (w.shape? n).map (Shape.relabel f) := by
  simp only [shape?, relabel, Array.getElem?_map]
  cases w.shapes[n]? <;> rfl

theorem setShape_relabel (w : Shaping) (n : Nat) (shape : Shape) :
    (w.setShape n shape).relabel f = (w.relabel f).setShape n (shape.relabel f) := by
  simp only [setShape, relabel, Array.map_setIfInBounds, Option.map_some]

theorem keyValue?_relabel (shape : Shape) :
    (shape.relabel f).keyValue? = shape.keyValue?.map (Value.relabel f) := by
  cases shape <;> rfl

theorem relabel_emptyShape? {tag : Tag} {shape : Shape} (h : emptyShape? tag = some shape) :
    shape.relabel f = shape := by
  cases tag <;> cases h <;> rfl

theorem scalarValue_relabel (tag : Tag) (id : Identity) (text : String) :
    scalarValue tag (f id) text = (scalarValue tag id text).map (Value.relabel f) := by
  cases tag <;> simp only [scalarValue, Except.map] <;> first | rfl | (split <;> rfl)

theorem visit_relabel (w : Shaping) (n : Nat) :
    (w.relabel f).visit n = (w.visit n).map (relabel f) := by
  have graph : (w.relabel f).graph = w.graph := rfl
  simp only [visit, shape?_relabel, Option.isSome_map, graph]
  split
  · rfl
  · cases w.graph.find? n with
    | none => rfl
    | some node =>
      cases empty : emptyShape? node.tag with
      | some shape =>
        simp only [empty]
        -- A collection that waits for its turn brings no identities yet.
        have set : (w.setShape n shape).relabel f = (w.relabel f).setShape n shape := by
          rw [setShape_relabel, relabel_emptyShape? empty]
        exact congrArg (fun w' : Shaping => Except.ok { w' with waiting := w.waiting ++ [n] })
          set.symm
      | none =>
        simp only [empty]
        split
        · rfl
        · refine Except.bind_of_map fun text => ?_
          have scalar : scalarValue node.tag ((w.relabel f).identity n) text =
              (scalarValue node.tag (w.identity n) text).map (Value.relabel f) :=
            scalarValue_relabel node.tag (w.identity n) text
          rw [scalar]
          refine Except.map_bind_of_map fun v => ?_
          exact congrArg Except.ok (setShape_relabel w n (.whole v)).symm

theorem visitAll_relabel (items : List Nat) (w : Shaping) :
    items.foldlM visit (w.relabel f) = (items.foldlM visit w).map (relabel f) := by
  induction items generalizing w with
  | nil => rfl
  | cons item items ih =>
    rw [List.foldlM_cons, List.foldlM_cons, visit_relabel]
    exact Except.map_bind_of_map ih

/-! ## §2 Collections -/

/-- The entries of a mapping under other identities. -/
def relabelKeys (f : Identity → Identity) (entries : List (Value × Nat)) : List (Value × Nat) :=
  entries.map fun entry => (entry.1.relabel f, entry.2)

theorem visitEntries_relabel (entries : List (Nat × Nat)) (w : Shaping) :
    (w.relabel f).visitEntries entries =
      (w.visitEntries entries).map (Prod.map (relabelKeys f) (relabel f)) := by
  induction entries generalizing w with
  | nil => rfl
  | cons entry entries ih =>
    obtain ⟨key, value⟩ := entry
    rw [visitEntries, visitEntries, visit_relabel]
    refine Except.map_bind_of_map fun w₁ => ?_
    -- Whether a node is fit for a key is a matter of its shape.
    have known : ((w₁.relabel f).shape? key).bind Shape.keyValue? =
        ((w₁.shape? key).bind Shape.keyValue?).map (Value.relabel f) := by
      rw [shape?_relabel]
      cases w₁.shape? key with
      | none => rfl
      | some shape => exact keyValue?_relabel shape
    rw [known]
    cases (w₁.shape? key).bind Shape.keyValue? with
    | none => rfl
    | some k =>
      dsimp only [Option.map_some]
      rw [visit_relabel]
      refine Except.map_bind_of_map fun w₂ => ?_
      rw [ih]
      exact Except.map_bind_of_map fun _ => rfl

theorem visitMapping_relabel (w : Shaping) (n : Nat) :
    (w.relabel f).visitMapping n =
      (w.visitMapping n).map (Prod.map (relabelKeys f) (relabel f)) := by
  refine Except.bind_of_map fun graph => Except.bind_of_map fun entries => ?_
  exact visitEntries_relabel entries { w with graph }

theorem visitPairs_relabel (items : List Nat) (w : Shaping) :
    (w.relabel f).visitPairs items = (w.visitPairs items).map (Prod.map id (relabel f)) := by
  induction items generalizing w with
  | nil => rfl
  | cons item items ih =>
    rw [visitPairs, visitPairs]
    refine Except.bind_of_map fun entries => ?_
    split
    · rw [visit_relabel]
      refine Except.map_bind_of_map fun w₁ => ?_
      rw [visit_relabel]
      refine Except.map_bind_of_map fun w₂ => ?_
      have counted := ih { w₂ with objects := w₂.objects + 1 }
      exact (congrArg (· >>= _) counted).trans (Except.map_bind_of_map fun _ => rfl)
    · rfl

theorem fill_relabel (w : Shaping) (n : Nat) :
    (w.relabel f).fill n = (w.fill n).map (relabel f) := by
  -- Each kind of collection ends with giving the node its shape.
  have set (w : Shaping) (shape : Shape) :
      Except.ok ((w.relabel f).setShape n (shape.relabel f)) =
        (Except.ok (w.setShape n shape) : Except ReadError Shaping).map (relabel f) :=
    congrArg Except.ok (setShape_relabel w n shape).symm
  rw [fill, fill, shape?_relabel]
  cases w.shape? n with
  | none => rfl
  | some shape =>
    cases shape with
    | whole v => rfl
    | list items =>
      refine Except.bind_of_map fun items => ?_
      rw [visitAll_relabel]
      exact Except.map_bind_of_map fun w₁ => set w₁ (.list items)
    | map entries =>
      dsimp only [Option.map_some, Shape.relabel]
      rw [visitMapping_relabel]
      exact Except.map_bind_of_map fun (entries, w₁) => set w₁ (.map entries)
    | pairs entries =>
      refine Except.bind_of_map fun items => ?_
      rw [visitPairs_relabel]
      exact Except.map_bind_of_map fun (entries, w₁) => set w₁ (.pairs entries)
    | set members =>
      dsimp only [Option.map_some, Shape.relabel]
      rw [visitMapping_relabel]
      refine Except.map_bind_of_map fun (entries, w₁) => ?_
      -- Of the entries of a set only the keys are kept.
      have keys : (relabelKeys f entries).map (·.1) =
          (entries.map (·.1)).map (Value.relabel f) := by
        simp only [relabelKeys, List.map_map, Function.comp_def]
      have same := congrArg (fun members => (w₁.relabel f).setShape n (.set members)) keys
      exact (congrArg Except.ok same).trans (set w₁ (.set (entries.map Prod.fst)))

theorem fillAll_relabel (fuel : Nat) (w : Shaping) :
    fillAll fuel (w.relabel f) = (fillAll fuel w).map (relabel f) := by
  induction fuel generalizing w with
  | zero => rfl
  | succ fuel ih =>
    rw [fillAll, fillAll]
    have waiting : (w.relabel f).waiting = w.waiting := rfl
    rw [waiting]
    cases w.waiting with
    | nil => rfl
    | cons n waiting =>
      dsimp only
      rw [show ({ w.relabel f with waiting } : Shaping) = relabel f { w with waiting } from rfl,
        fill_relabel]
      exact Except.map_bind_of_map ih

/-! ## §3 Values -/

/-- What shows of a member of a set has no identity. -/
theorem describeMember_relabel (v : Value) : describeMember (v.relabel f) = describeMember v := by
  cases v <;> rfl

theorem distinctKeys_relabel (injective : Function.Injective f) (keys : List Value) :
    distinctKeys (keys.map (Value.relabel f)) = (distinctKeys keys).map (Value.relabel f) := by
  have pairs : (keys.map (Value.relabel f)).map (fun k => (k, Value.null)) =
      relabelEntries f (keys.map fun k => (k, .null)) := by
    rw [Value.relabelEntries_eq_map, List.map_map, List.map_map]
    rfl
  rw [distinctKeys, distinctKeys, pairs, ← Value.relabelEntries_entriesOf injective,
    Value.relabelEntries_eq_map, List.map_map, List.map_map]
  rfl

/-- The value of a node under other identities is that of its shape under them. -/
theorem valueOf_relabel (injective : Function.Injective f) (w : Shaping) (limit depth : Nat)
    (above : List Nat) (n : Nat) :
    (w.relabel f).valueOf limit depth above n = (w.valueOf limit depth above n).relabel f := by
  induction depth generalizing above n with
  | zero => rfl
  | succ depth ih =>
    rw [valueOf, valueOf, shape?_relabel]
    -- Whatever the collection, its parts are values of nodes with one level less below them.
    have part : (w.relabel f).valueOf limit depth (n :: above) =
        Value.relabel f ∘ w.valueOf limit depth (n :: above) := funext fun m => ih (n :: above) m
    cases w.shape? n with
    | none => rfl
    | some shape =>
      cases shape with
      | whole v => rfl
      | list items =>
        dsimp only [Option.map_some, Shape.relabel]
        rw [Value.relabel, Value.relabelItems_eq_map, part]
        split
        · rfl
        · rw [List.map_map]
          rfl
      | map entries =>
        dsimp only [Option.map_some, Shape.relabel]
        rw [Value.relabel, part]
        split
        · rfl
        · rw [Value.relabelEntries_entriesOf injective, Value.relabelEntries_eq_map, List.map_map,
            List.map_map]
          rfl
      | pairs entries =>
        dsimp only [Option.map_some, Shape.relabel]
        rw [Value.relabel, Value.relabelItems_eq_map, part]
        split
        · rfl
        · rw [List.map_map]
          rfl
      | set members =>
        dsimp only [Option.map_some, Shape.relabel]
        rw [distinctKeys_relabel injective, List.map_map]
        have shown : describeMember ∘ Value.relabel f = describeMember :=
          funext describeMember_relabel
        rw [shown]
        rfl

end Shaping

/-! ## §4 Documents -/

theorem RootedGraph.value_relabel {f : Identity → Identity} (injective : Function.Injective f)
    (g : RootedGraph) (identity : Nat → Identity) (n : Nat) :
    g.value (f ∘ identity) n = (g.value identity n).map (Prod.map (Value.relabel f) id) := by
  obtain ⟨g, root, loops⟩ := g
  cases root with
  | none => rfl
  | some root =>
    have start : Shaping.start g (f ∘ identity) n = (Shaping.start g identity n).relabel f := by
      simp [Shaping.start, Shaping.relabel, Function.comp_def]
    show ((Shaping.start g (f ∘ identity) n).visit root >>= _) =
      ((Shaping.start g identity n).visit root >>= _).map _
    rw [start, Shaping.visit_relabel]
    refine Except.map_bind_of_map fun w₁ => ?_
    rw [Shaping.fillAll_relabel]
    refine Except.map_bind_of_map fun w₂ => ?_
    exact congrArg (fun v => Except.ok (v, n + w₂.objects))
      (Shaping.valueOf_relabel injective w₂ _ _ [] root)

/-- A document is read in the same way under other identities, if different ones stay different. -/
theorem read_relabel {f : Identity → Identity} (injective : Function.Injective f)
    (identity : Nat → Identity) (n : Nat) (s : String) :
    Document.read (f ∘ identity) n s =
      (Document.read identity n s).map (Prod.map (Value.relabel f) id) := by
  simp only [Document.read]
  split
  · rfl
  · exact Except.bind_of_map fun g => g.value_relabel injective identity n

/-- The number that reading starts with matters only as a part of the numbers of objects. -/
theorem RootedGraph.value_add (g : RootedGraph) (identity : Nat → Identity) (n k : Nat) :
    g.value identity (n + k) =
      (g.value (fun m => identity (m + k)) n).map (Prod.map id (· + k)) := by
  obtain ⟨g, root, loops⟩ := g
  cases root with
  | none => rfl
  | some root =>
    have start : Shaping.start g identity (n + k) =
        Shaping.start g (fun m => identity (m + k)) n := by
      simp only [Shaping.start, Nat.add_right_comm]
    show ((Shaping.start g identity (n + k)).visit root >>= _) =
      ((Shaping.start g (fun m => identity (m + k)) n).visit root >>= _).map _
    rw [start]
    refine Except.bind_of_map fun w₁ => Except.bind_of_map fun w₂ => ?_
    exact congrArg (fun m => Except.ok (w₂.valueOf _ _ [] root, m)) (Nat.add_right_comm _ _ _)

/-- Reading that starts with a greater number gives the same with greater numbers. -/
theorem read_add (n k : Nat) (s : String) :
    Document.read .assembled (n + k) s = (Document.read .assembled n s).map
      (Prod.map (Value.relabel (Identity.renumber (· + k))) (· + k)) := by
  have injective : Function.Injective (Identity.renumber (· + k)) :=
    Identity.renumber_injective fun _ _ => Nat.add_right_cancel
  have shifted : Document.read .assembled (n + k) s =
      (Document.read (Identity.renumber (· + k) ∘ .assembled) n s).map (Prod.map id (· + k)) := by
    simp only [Document.read]
    split
    · rfl
    · exact Except.bind_of_map fun g => g.value_add .assembled n k
  rw [shifted, read_relabel injective]
  cases Document.read .assembled n s <;> rfl

end Visibility.Document
