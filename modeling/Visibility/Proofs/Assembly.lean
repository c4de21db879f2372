import Visibility.Proofs.Conversion
import Visibility.Proofs.Relabelling

/-!
# The objects of a document

The objects of a document are numbered on from the number that reading starts with, so that they are
none of those that were there before.

* `Shaping.Continues` — what shaping a node or a collection keeps; one lemma for each step
* `Shaping.valueOf_along?` — paths of keys in the value of a node lead to values of nodes
* `Shaping.valueOf_identities` — the objects of the value of a node were numbered while shaping
* `read_identities` — the objects of a document have numbers between the first one and the next one
* `read_number` — the numbers of a document are those of its scalars
-/

namespace Visibility.Document

/-! ## §1 What shaping keeps -/

/-- The identities that a shape brings into a value: those in its scalar or its keys, and those of
pairs.  A collection that is a node has the identity of the node. -/
def Shape.identities (identity : Nat → Identity) : Shape → List Identity
  | .whole v => v.identities
  | .map entries => entries.flatMap (·.1.identities)
  | .pairs entries => entries.map fun pair => identity pair.1
  | .list _ | .set _ => []

namespace Shaping

/-- The value is that of a scalar. -/
def IsScalar (v : Value) : Prop :=
  ∃ tag id text, scalarValue tag id text = .ok v

/-- Every node whose value is known is a scalar. -/
def Scalars (w : Shaping) : Prop :=
  ∀ n v, w.shape? n = some (.whole v) → IsScalar v

/-- The identity is that of one of the objects so far. -/
def Owns (w : Shaping) (id : Identity) : Prop :=
  ∃ k < w.objects, id = w.identity k

/-- Every shape brings only identities of the objects so far, among which are all nodes. -/
structure Numbered (w : Shaping) : Prop where
  nodes : w.shapes.size ≤ w.objects
  owned : ∀ n shape, w.shape? n = some shape → ∀ id ∈ shape.identities w.identity, w.Owns id

/-- What stays the same when nodes get their shapes. -/
structure Continues (w w' : Shaping) : Prop where
  identity : w'.identity = w.identity
  size : w'.shapes.size = w.shapes.size
  objects : w.objects ≤ w'.objects
  scalars : w.Scalars → w'.Scalars
  numbered : w.Numbered → w'.Numbered

namespace Continues

variable {w w₁ w₂ : Shaping}

theorem refl (w : Shaping) : Continues w w :=
  ⟨rfl, rfl, Nat.le_refl _, id, id⟩

theorem trans (h₁ : Continues w w₁) (h₂ : Continues w₁ w₂) : Continues w w₂ where
  identity := h₂.identity.trans h₁.identity
  size := h₂.size.trans h₁.size
  objects := Nat.le_trans h₁.objects h₂.objects
  scalars scalars := h₂.scalars (h₁.scalars scalars)
  numbered numbered := h₂.numbered (h₁.numbered numbered)

/-- Which nodes wait does not matter. -/
theorem ofWaiting (w : Shaping) (waiting : List Nat) : Continues w { w with waiting } :=
  ⟨rfl, rfl, Nat.le_refl _, id, fun numbered => ⟨numbered.nodes, numbered.owned⟩⟩

/-- Merging changes the graph only. -/
theorem ofGraph (w : Shaping) (graph : Graph) : Continues w { w with graph } :=
  ⟨rfl, rfl, Nat.le_refl _, id, fun numbered => ⟨numbered.nodes, numbered.owned⟩⟩

/-- A pair is an object of its own. -/
theorem ofObject (w : Shaping) : Continues w { w with objects := w.objects + 1 } where
  identity := rfl
  size := rfl
  objects := Nat.le_succ _
  scalars := id
  numbered numbered :=
    ⟨Nat.le_succ_of_le numbered.nodes, fun n shape known id mem =>
      (numbered.owned n shape known id mem).imp fun _ ⟨below, same⟩ =>
        ⟨Nat.lt_succ_of_lt below, same⟩⟩

/-- Objects are kept. -/
theorem owns (h : Continues w w₁) {id : Identity} (owns : w.Owns id) : w₁.Owns id := by
  obtain ⟨k, below, same⟩ := owns
  exact ⟨k, Nat.lt_of_lt_of_le below h.objects, by rw [h.identity, same]⟩

end Continues

variable {w w' : Shaping} {n : Nat}

theorem shape?_setShape (w : Shaping) (n m : Nat) (shape : Shape) :
    (w.setShape n shape).shape? m =
      if n = m ∧ n < w.shapes.size then some shape else w.shape? m := by
  simp only [shape?, setShape, Array.getElem?_setIfInBounds]
  by_cases same : n = m
  · subst same
    by_cases inside : n < w.shapes.size
    · simp [inside]
    · simp [inside]
  · simp [same]

/-- Giving a node its shape goes on from what was shaped before. -/
theorem Continues.setShape (before : Continues w w') (n : Nat) {shape : Shape}
    (scalar : ∀ v, shape = .whole v → IsScalar v)
    (owned : n < w'.shapes.size → w.Numbered → ∀ id ∈ shape.identities w'.identity, w'.Owns id) :
    Continues w (w'.setShape n shape) where
  identity := before.identity
  size := Array.size_setIfInBounds.trans before.size
  objects := before.objects
  scalars scalars m v h := by
    rw [shape?_setShape] at h
    split at h
    · exact scalar v (Option.some.inj h)
    · exact before.scalars scalars m v h
  numbered numbered := by
    have numbered' := before.numbered numbered
    refine ⟨Nat.le_trans (Nat.le_of_eq Array.size_setIfInBounds) numbered'.nodes,
      fun m known h id mem => ?_⟩
    rw [shape?_setShape] at h
    split at h
    · rename_i here
      cases h
      exact owned here.2 numbered id mem
    · exact numbered'.owned m known h id mem

/-- A scalar is neither an array nor a mapping. -/
theorem IsScalar.plain {v : Value} (scalar : IsScalar v) :
    v.elements? = none ∧ v.entries? = none := by
  obtain ⟨tag, id, text, h⟩ := scalar
  cases tag with
  | null | string =>
    cases h
    exact ⟨rfl, rfl⟩
  | bool | int | float | binary | timestamp =>
    obtain ⟨_, -, rfl⟩ := Except.map_eq_ok.mp h
    exact ⟨rfl, rfl⟩
  | _ => cases h

/-- If a scalar is an object, it has the identity that it was given. -/
theorem identities_of_scalarValue {tag : Tag} {id id' : Identity} {text : String} {v : Value}
    (h : scalarValue tag id text = .ok v) (mem : id' ∈ v.identities) : id' = id := by
  cases tag with
  | null | string =>
    cases h
    cases mem
  | bool | int | float =>
    obtain ⟨_, -, rfl⟩ := Except.map_eq_ok.mp h
    cases mem
  | binary | timestamp =>
    obtain ⟨_, -, rfl⟩ := Except.map_eq_ok.mp h
    exact List.mem_singleton.mp mem
  | _ => cases h

/-- A collection that waits for its turn brings nothing yet. -/
theorem identities_of_emptyShape? {tag : Tag} {shape : Shape} (h : emptyShape? tag = some shape)
    (identity : Nat → Identity) : shape.identities identity = [] := by
  cases tag <;> cases h <;> rfl

theorem emptyShape?_ne_whole {tag : Tag} {shape : Shape} (h : emptyShape? tag = some shape)
    (v : Value) : shape ≠ .whole v := by
  rintro rfl
  cases tag <;> cases h

theorem visit_continues (h : w.visit n = .ok w') : Continues w w' := by
  simp only [visit] at h
  split at h
  · -- A node that has its shape is left as it is.
    cases h
    exact .refl _
  · cases node : w.graph.find? n with
    | none =>
      rw [node] at h
      cases h
    | some node' =>
      simp only [node] at h
      cases empty : emptyShape? node'.tag with
      | some shape =>
        -- A collection gets an empty shape and has to wait.
        simp only [empty] at h
        cases h
        have set : Continues w (w.setShape n shape) := by
          refine (Continues.refl w).setShape n (fun v same => ?_) fun _ _ id mem => ?_
          · exact absurd same (emptyShape?_ne_whole empty v)
          · rw [identities_of_emptyShape? empty] at mem
            cases mem
        exact set.trans (.ofWaiting _ _)
      | none =>
        simp only [empty] at h
        split at h
        · cases h
        · obtain ⟨text, -, h⟩ := Except.bind_eq_ok.mp h
          obtain ⟨v, scalar, h⟩ := Except.bind_eq_ok.mp h
          cases h
          refine (Continues.refl w).setShape n (fun u same => ?_) fun inside numbered id mem => ?_
          · cases same
            exact ⟨_, _, _, scalar⟩
          · exact ⟨n, Nat.lt_of_lt_of_le inside numbered.nodes, identities_of_scalarValue scalar mem⟩

/-! ## §2 Collections -/

theorem visitEntries_continues {entries : List (Nat × Nat)} {shaped : List (Value × Nat)}
    (h : w.visitEntries entries = .ok (shaped, w')) : Continues w w' := by
  induction entries generalizing w shaped with
  | nil =>
    cases h
    exact .refl _
  | cons entry entries ih =>
    obtain ⟨key, value⟩ := entry
    obtain ⟨w₁, first, h⟩ := Except.bind_eq_ok.mp h
    split at h
    · cases h
    · obtain ⟨w₂, second, h⟩ := Except.bind_eq_ok.mp h
      obtain ⟨⟨more, w₃⟩, others, h⟩ := Except.bind_eq_ok.mp h
      cases h
      exact (visit_continues first).trans ((visit_continues second).trans (ih others))

theorem visitMapping_continues {entries : List (Value × Nat)}
    (h : w.visitMapping n = .ok (entries, w')) : Continues w w' := by
  obtain ⟨graph, -, h⟩ := Except.bind_eq_ok.mp h
  obtain ⟨own, -, h⟩ := Except.bind_eq_ok.mp h
  exact .trans (.ofGraph w graph) (visitEntries_continues h)

theorem visitPairs_continues {items : List Nat} {pairs : List (Nat × Nat × Nat)}
    (h : w.visitPairs items = .ok (pairs, w')) : Continues w w' := by
  induction items generalizing w pairs with
  | nil =>
    cases h
    exact .refl _
  | cons item items ih =>
    obtain ⟨entries, -, h⟩ := Except.bind_eq_ok.mp h
    split at h
    · obtain ⟨w₁, first, h⟩ := Except.bind_eq_ok.mp h
      obtain ⟨w₂, second, h⟩ := Except.bind_eq_ok.mp h
      obtain ⟨⟨more, w₃⟩, others, h⟩ := Except.bind_eq_ok.mp h
      cases h
      exact (visit_continues first).trans
        ((visit_continues second).trans (.trans (.ofObject w₂) (ih others)))
    · cases h

/-- The keys of entries that were visited have their objects from the shapes of nodes. -/
theorem visitEntries_owned {entries : List (Nat × Nat)} {shaped : List (Value × Nat)}
    (h : w.visitEntries entries = .ok (shaped, w')) (numbered : w.Numbered) :
    ∀ id ∈ (Shape.map shaped).identities w'.identity, w'.Owns id := by
  induction entries generalizing w shaped with
  | nil =>
    cases h
    exact List.forall_mem_nil _
  | cons entry entries ih =>
    obtain ⟨key, value⟩ := entry
    obtain ⟨w₁, first, h⟩ := Except.bind_eq_ok.mp h
    split at h
    · cases h
    · rename_i k isKey
      obtain ⟨w₂, second, h⟩ := Except.bind_eq_ok.mp h
      obtain ⟨⟨more, w₃⟩, others, h⟩ := Except.bind_eq_ok.mp h
      cases h
      have numbered₁ := (visit_continues first).numbered numbered
      have after := (visit_continues second).trans (visitEntries_continues others)
      intro id mem
      rw [Shape.identities, List.flatMap_cons, List.mem_append] at mem
      rcases mem with ofKey | ofMore
      · -- A key is a whole value, and it was brought by the shape of its node.
        obtain ⟨shape, known, whole⟩ := Option.bind_eq_some_iff.mp isKey
        cases shape with
        | whole v =>
          cases whole
          exact after.owns (numbered₁.owned key _ known id ofKey)
        | _ => cases whole
      · exact ih others ((visit_continues second).numbered numbered₁) id ofMore

theorem visitMapping_owned {entries : List (Value × Nat)}
    (h : w.visitMapping n = .ok (entries, w')) (numbered : w.Numbered) :
    ∀ id ∈ (Shape.map entries).identities w'.identity, w'.Owns id := by
  obtain ⟨graph, -, h⟩ := Except.bind_eq_ok.mp h
  obtain ⟨own, -, h⟩ := Except.bind_eq_ok.mp h
  exact visitEntries_owned h ((Continues.ofGraph w graph).numbered numbered)

/-- The pairs that were visited are objects. -/
theorem visitPairs_owned {items : List Nat} {pairs : List (Nat × Nat × Nat)}
    (h : w.visitPairs items = .ok (pairs, w')) :
    ∀ id ∈ (Shape.pairs pairs).identities w'.identity, w'.Owns id := by
  induction items generalizing w pairs with
  | nil =>
    cases h
    exact List.forall_mem_nil _
  | cons item items ih =>
    obtain ⟨entries, -, h⟩ := Except.bind_eq_ok.mp h
    split at h
    · obtain ⟨w₁, first, h⟩ := Except.bind_eq_ok.mp h
      obtain ⟨w₂, second, h⟩ := Except.bind_eq_ok.mp h
      obtain ⟨⟨more, w₃⟩, others, h⟩ := Except.bind_eq_ok.mp h
      cases h
      intro id mem
      rw [Shape.identities, List.map_cons, List.mem_cons] at mem
      rcases mem with rfl | ofMore
      · -- The pair is an object of its own and takes the next number after its two nodes.
        exact ⟨w₂.objects, (visitPairs_continues others).objects, rfl⟩
      · exact ih others id ofMore
    · cases h

theorem visitAll_continues {items : List Nat} (h : items.foldlM visit w = .ok w') :
    Continues w w' := by
  induction items generalizing w with
  | nil =>
    cases h
    exact .refl _
  | cons item items ih =>
    rw [List.foldlM_cons] at h
    obtain ⟨w₁, first, others⟩ := Except.bind_eq_ok.mp h
    exact (visit_continues first).trans (ih others)

theorem fill_continues (h : w.fill n = .ok w') : Continues w w' := by
  unfold fill at h
  -- by the shape of the node: a list, a mapping, a list of pairs, a set; others are filled
  split at h
  · obtain ⟨items, -, h⟩ := Except.bind_eq_ok.mp h
    obtain ⟨w₁, visited, h⟩ := Except.bind_eq_ok.mp h
    cases h
    exact (visitAll_continues visited).setShape n nofun fun _ _ => List.forall_mem_nil _
  · obtain ⟨⟨entries, w₁⟩, visited, h⟩ := Except.bind_eq_ok.mp h
    cases h
    exact (visitMapping_continues visited).setShape n nofun fun _ => visitMapping_owned visited
  · obtain ⟨items, -, h⟩ := Except.bind_eq_ok.mp h
    obtain ⟨⟨pairs, w₁⟩, visited, h⟩ := Except.bind_eq_ok.mp h
    cases h
    exact (visitPairs_continues visited).setShape n nofun fun _ _ => visitPairs_owned visited
  · obtain ⟨⟨entries, w₁⟩, visited, h⟩ := Except.bind_eq_ok.mp h
    cases h
    exact (visitMapping_continues visited).setShape n nofun fun _ _ => List.forall_mem_nil _
  · cases h
    exact .refl _
  · cases h
    exact .refl _

theorem fillAll_continues {fuel : Nat} (h : fillAll fuel w = .ok w') : Continues w w' := by
  induction fuel generalizing w with
  | zero =>
    cases h
    exact .refl _
  | succ fuel ih =>
    unfold fillAll at h
    split at h
    · cases h
      exact .refl _
    · rename_i n waiting _
      obtain ⟨w₁, filled, h⟩ := Except.bind_eq_ok.mp h
      exact .trans (.ofWaiting w waiting) ((fill_continues filled).trans (ih h))

/-! ## §3 Values -/

theorem lt_size_of_shape? {shape : Shape} (h : w.shape? n = some shape) : n < w.shapes.size := by
  by_contra outside
  rw [shape?, Array.getElem?_eq_none (Nat.le_of_not_lt outside)] at h
  cases h

/-- What an entry is replaced by is found under its key, or what was there before. -/
theorem find?_put_cases {name : String} {key v u : Value} {entries : List (Value × Value)}
    (h : Value.find? name (Value.put key v entries) = some u) :
    u = v ∨ Value.find? name entries = some u := by
  induction entries with
  | nil =>
    rw [Value.put, Value.find?_cons] at h
    split at h
    · exact .inl (Option.some.inj h).symm
    · cases h
  | cons entry entries ih =>
    rw [Value.put] at h
    split at h <;> rw [Value.find?_cons] at h
    · rw [Value.find?_cons]
      split at h
      · exact .inl (Option.some.inj h).symm
      · rename_i other
        exact .inr (by rwa [if_neg other])
    · rw [Value.find?_cons]
      split at h
      · rename_i same
        exact .inr (by rwa [if_pos same])
      · rename_i other
        rw [if_neg other]
        exact ih h

/-- What is found among entries is the value of one of the pairs that they are made of. -/
theorem mem_of_find?_entriesOf {name : String} {u : Value} {pairs : List (Value × Value)}
    (h : Value.find? name (Value.entriesOf pairs) = some u) : ∃ pair ∈ pairs, pair.2 = u := by
  induction pairs using List.reverseRecOn with
  | nil => cases h
  | append_singleton pairs pair ih =>
    rw [Value.entriesOf, List.foldl_append] at h
    rcases find?_put_cases h with rfl | earlier
    · exact ⟨pair, by simp, rfl⟩
    · obtain ⟨other, mem, same⟩ := ih earlier
      exact ⟨other, List.mem_append_left _ mem, same⟩

/-- The value of a mapping that is not cut. -/
theorem valueOf_map {nodes : List (Value × Nat)} (known : w.shape? n = some (.map nodes))
    {limit depth : Nat} {above : List Nat} (within : above.count n ≤ limit) :
    w.valueOf limit (depth + 1) above n = .map (w.identity n)
      (Value.entriesOf (nodes.map fun (k, m) => (k, w.valueOf limit depth (n :: above) m))) := by
  simp only [valueOf, known, Nat.not_lt.mpr within, if_false]

/-- The value of a node with another shape than that of a mapping is no mapping. -/
theorem valueOf_entries? (scalars : w.Scalars) {limit depth : Nat} {above : List Nat}
    (other : ∀ nodes, w.shape? n ≠ some (.map nodes)) :
    (w.valueOf limit (depth + 1) above n).entries? = none := by
  unfold valueOf
  cases known : w.shape? n with
  | none => rfl
  | some shape =>
    cases shape with
    | whole v => exact (scalars n v known).plain.2
    | map nodes => exact absurd known (other nodes)
    | list | pairs | set => rfl

/-- A path of keys in the value of a node leads to the value of a node. -/
theorem valueOf_along? (scalars : w.Scalars) {limit depth : Nat} {above : List Nat}
    {path : List String} {u : Value}
    (leads : (w.valueOf limit depth above n).along? path = some u) :
    ∃ depth' above' m, u = w.valueOf limit depth' above' m := by
  induction path generalizing n depth above with
  | nil => exact ⟨depth, above, n, (Option.some.inj leads).symm⟩
  | cons key path ih =>
    obtain ⟨id, entries, v, same, found, rest⟩ := Value.along?_cons_eq_some leads
    cases depth with
    | zero => cases same
    | succ depth =>
      -- Only in a mapping can a path of keys go on.
      by_cases isMap : ∃ nodes, w.shape? n = some (.map nodes)
      · obtain ⟨nodes, known⟩ := isMap
        simp only [valueOf, known] at same
        cases same
        split at found
        · cases found
        · obtain ⟨pair, mem, rfl⟩ := mem_of_find?_entriesOf found
          obtain ⟨⟨k, node⟩, -, rfl⟩ := List.mem_map.mp mem
          exact ih rest
      · have other nodes : w.shape? n ≠ some (.map nodes) := fun known => isMap ⟨nodes, known⟩
        have noMap : (w.valueOf limit (depth + 1) above n).entries? = none :=
          valueOf_entries? scalars other
        rw [same] at noMap
        cases noMap

theorem mem_identities_entriesOf {id : Identity} {pairs : List (Value × Value)}
    (mem : id ∈ identitiesOfEntries (Value.entriesOf pairs)) :
    ∃ pair ∈ pairs, id ∈ pair.1.identities ∨ id ∈ pair.2.identities := by
  induction pairs using List.reverseRecOn with
  | nil => cases mem
  | append_singleton pairs pair ih =>
    rw [Value.entriesOf, List.foldl_append] at mem
    rcases Value.mem_identities_put mem with ofKey | ofValue | earlier
    · exact ⟨pair, by simp, .inl ofKey⟩
    · exact ⟨pair, by simp, .inr ofValue⟩
    · obtain ⟨other, listed, here⟩ := ih earlier
      exact ⟨other, List.mem_append_left _ listed, here⟩

/-- The objects of the value of a node are those that were numbered while shaping. -/
theorem valueOf_identities (numbered : w.Numbered) {limit depth : Nat} {above : List Nat}
    {id : Identity} (mem : id ∈ (w.valueOf limit depth above n).identities) : w.Owns id := by
  induction depth generalizing n above with
  | zero => cases mem
  | succ depth ih =>
    unfold valueOf at mem
    cases known : w.shape? n with
    | none =>
      rw [known] at mem
      cases mem
    | some shape =>
      rw [known] at mem
      -- A collection has the number of its node.
      have own : w.Owns (w.identity n) :=
        ⟨n, Nat.lt_of_lt_of_le (lt_size_of_shape? known) numbered.nodes, rfl⟩
      have brought : ∀ id ∈ shape.identities w.identity, w.Owns id := numbered.owned n shape known
      cases shape with
      | whole v => exact brought id mem
      | set =>
        rw [List.mem_singleton.mp mem]
        exact own
      | list items =>
        rcases (Value.mem_identities_of_elements rfl).mp mem with here | ⟨v, listed, here⟩
        · cases here
          exact own
        · split at listed
          · cases listed
          · obtain ⟨m, -, rfl⟩ := List.mem_map.mp listed
            exact ih here
      | pairs entries =>
        rcases (Value.mem_identities_of_elements rfl).mp mem with here | ⟨v, listed, here⟩
        · cases here
          exact own
        · split at listed
          · cases listed
          · obtain ⟨⟨object, k, value⟩, pair, rfl⟩ := List.mem_map.mp listed
            -- A pair is an object and holds the values of two nodes.
            rcases (Value.mem_identities_of_elements rfl).mp here with here | ⟨v, listed, here⟩
            · cases here
              exact brought _ (List.mem_map_of_mem pair)
            · simp only [List.mem_cons, List.not_mem_nil, or_false] at listed
              rcases listed with rfl | rfl <;> exact ih here
      | map nodes =>
        rcases List.mem_cons.mp mem with rfl | mem
        · exact own
        · split at mem
          · cases mem
          · obtain ⟨_, listed, here⟩ := mem_identities_entriesOf mem
            obtain ⟨⟨k, m⟩, node, rfl⟩ := List.mem_map.mp listed
            rcases here with ofKey | ofValue
            · exact brought id (List.mem_flatMap.mpr ⟨_, node, ofKey⟩)
            · exact ih ofValue

/-- The numbers of the value of a node are those of scalars. -/
theorem valueOf_number (scalars : w.Scalars) {limit depth : Nat} {above : List Nat}
    {path : List String} {x : Number}
    (leads : (w.valueOf limit depth above n).along? path = some (.number x)) :
    IsScalar (.number x) := by
  obtain ⟨depth', above', m, same⟩ := valueOf_along? scalars leads
  cases depth' with
  | zero => cases same
  | succ depth' =>
    unfold valueOf at same
    cases known : w.shape? m with
    | none =>
      rw [known] at same
      cases same
    | some shape =>
      rw [known] at same
      cases shape with
      -- A collection is no number, so only a whole value can be one.
      | whole v =>
        rw [same]
        exact scalars m v known
      | list | map | pairs | set => cases same

end Shaping

/-! ## §4 Documents -/

/-- The shaping that starts with no shapes. -/
def Shaping.start (g : Graph) (identity : Nat → Identity) (n : Nat) : Shaping :=
  { graph := g, identity := fun m => identity (n + m), shapes := Array.replicate g.size none,
    waiting := [], objects := g.size }

/-- The value of a root is that of its shape, once all nodes have theirs. -/
theorem RootedGraph.value_eq_ok {g : Graph} {root loops n n' : Nat} {identity : Nat → Identity}
    {v : Value} : RootedGraph.value ⟨g, some root, loops⟩ identity n = .ok (v, n') ↔
      ∃ w₁ w₂, (Shaping.start g identity n).visit root = .ok w₁ ∧
        Shaping.fillAll (g.size + 1) w₁ = .ok w₂ ∧
        w₂.valueOf (repetitions loops) ((g.size + 1) * (repetitions loops + 2)) [] root = v ∧
        n + w₂.objects = n' := by
  simp only [RootedGraph.value, Except.bind_eq_ok]
  constructor
  · rintro ⟨w₁, visited, w₂, filled, result⟩
    cases result
    exact ⟨w₁, w₂, visited, filled, rfl, rfl⟩
  · rintro ⟨w₁, w₂, visited, filled, rfl, rfl⟩
    exact ⟨w₁, visited, w₂, filled, rfl⟩

/-- When all nodes have their shapes, the values that are known are still those of scalars. -/
theorem Shaping.Continues.scalars_of_start {g : Graph} {identity : Nat → Identity} {n : Nat}
    {w : Shaping} (all : Continues (start g identity n) w) : w.Scalars := by
  refine all.scalars fun m v known => ?_
  -- At the start no node has a shape.
  simp only [start, shape?, Array.getElem?_replicate] at known
  split at known <;> cases known

theorem Shaping.numbered_start (g : Graph) (identity : Nat → Identity) (n : Nat) :
    (start g identity n).Numbered := by
  refine ⟨Nat.le_of_eq Array.size_replicate, fun m shape known => ?_⟩
  simp only [start, shape?, Array.getElem?_replicate] at known
  split at known <;> cases known

/-- The objects of the value of nodes are numbered on. -/
theorem RootedGraph.value_identities {g : RootedGraph} {identity : Nat → Identity} {n n' : Nat}
    {v : Value} (h : g.value identity n = .ok (v, n')) :
    n ≤ n' ∧ ∀ id ∈ v.identities, ∃ k, n ≤ k ∧ k < n' ∧ id = identity k := by
  obtain ⟨g, root, loops⟩ := g
  cases root with
  | none =>
    cases h
    exact ⟨Nat.le_refl _, fun id mem => nomatch mem⟩
  | some root =>
    obtain ⟨w₁, w₂, visited, filled, rfl, rfl⟩ := value_eq_ok.mp h
    have all := (Shaping.visit_continues visited).trans (Shaping.fillAll_continues filled)
    have numbered : w₂.Numbered := all.numbered (Shaping.numbered_start g identity n)
    refine ⟨Nat.le_add_right _ _, fun id mem => ?_⟩
    obtain ⟨m, below, same⟩ := Shaping.valueOf_identities numbered mem
    refine ⟨n + m, Nat.le_add_right _ _, by omega, ?_⟩
    rw [same, all.identity]
    rfl

theorem RootedGraph.value_number {g : RootedGraph} {identity : Nat → Identity} {n n' : Nat}
    {v : Value} {path : List String} {x : Number} (h : g.value identity n = .ok (v, n'))
    (leads : v.along? path = some (.number x)) : Shaping.IsScalar (.number x) := by
  obtain ⟨g, root, loops⟩ := g
  cases root with
  | none =>
    cases h
    cases path <;> cases leads
  | some root =>
    obtain ⟨w₁, w₂, visited, filled, rfl, rfl⟩ := value_eq_ok.mp h
    have all := (Shaping.visit_continues visited).trans (Shaping.fillAll_continues filled)
    exact Shaping.valueOf_number all.scalars_of_start leads

/-- A document that is read is the value of a graph. -/
theorem read_eq_ok {identity : Nat → Identity} {n n' : Nat} {s : String} {v : Value}
    (h : Document.read identity n s = .ok (v, n')) :
    ∃ g : RootedGraph, g.value identity n = .ok (v, n') := by
  simp only [Document.read] at h
  split at h
  · cases h
  · obtain ⟨g, -, h⟩ := Except.bind_eq_ok.mp h
    exact ⟨g, h⟩

/-- The objects of a document are numbered on from the number that reading starts with. -/
theorem read_identities {identity : Nat → Identity} {n n' : Nat} {s : String} {v : Value}
    (h : Document.read identity n s = .ok (v, n')) :
    n ≤ n' ∧ ∀ id ∈ v.identities, ∃ k, n ≤ k ∧ k < n' ∧ id = identity k := by
  obtain ⟨g, value⟩ := read_eq_ok h
  exact g.value_identities value

theorem read_mappings {identity : Nat → Identity} {n n' : Nat} {s : String} {v : Value}
    (h : Document.read identity n s = .ok (v, n')) :
    n ≤ n' ∧ ∀ id ∈ v.mappings, ∃ k, n ≤ k ∧ k < n' ∧ id = identity k :=
  (read_identities h).imp_right fun numbered id mem =>
    numbered id (Value.mem_identities_of_mem_mappings mem)

theorem read_holds {identity : Nat → Identity} {n n' : Nat} {s : String} {v : Value}
    (h : Document.read identity n s = .ok (v, n')) :
    n ≤ n' ∧ ∀ id, v.Holds id → ∃ k, n ≤ k ∧ k < n' ∧ id = identity k := by
  obtain ⟨le, numbered⟩ := read_mappings h
  exact ⟨le, fun id holds => numbered id (Value.mem_mappings_of_holds holds)⟩

/-- The numbers that paths of keys lead to in a document are those of scalars. -/
theorem read_number {identity : Nat → Identity} {n n' : Nat} {s : String} {v : Value}
    {path : List String} {x : Number} (h : Document.read identity n s = .ok (v, n'))
    (leads : v.along? path = some (.number x)) : Shaping.IsScalar (.number x) := by
  obtain ⟨g, value⟩ := read_eq_ok h
  exact g.value_number value leads

end Visibility.Document
