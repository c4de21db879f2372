import Visibility.Proofs.Relabelling

/-!
# Values up to the order of keys

Two values may differ in nothing but the order in which the keys of their mappings were put, at any
depth.  What is found along a path of keys is then the same up to this order, and so is what a
change makes of the two.  Changes of different entries may be made in either order.

* `Value.Rearranged` — the entries of the mappings in a value, in another order
* `Value.Rearranged.along?` — paths lead to values that are the same up to order
* `Value.Rearranged.putAt`, `Value.Rearranged.relabel` — changes and other identities
* `Value.putAt_comm` — two changes in either order
* `Value.SameUpToOrder` — the same up to the order of keys and to which identities objects have
-/

namespace Visibility.Value

/-! ## §1 Entries in another order -/

/-- The second value is the first one with the entries of its mappings in another order.  Every such
order is reached by letting neighbours change places that are under different keys. -/
inductive Rearranged : Value → Value → Prop
  | refl (v) : Rearranged v v
  | trans {v w u} : Rearranged v w → Rearranged w u → Rearranged v u
  | swap (id before after v w) {a b : String} : a ≠ b →
      Rearranged (.map id (before ++ (.string a, v) :: (.string b, w) :: after))
        (.map id (before ++ (.string b, w) :: (.string a, v) :: after))
  | entry (id before key after) {v w} : Rearranged v w →
      Rearranged (.map id (before ++ (key, v) :: after)) (.map id (before ++ (key, w) :: after))
  | listItem (id before after) {v w} : Rearranged v w →
      Rearranged (.list id (before ++ v :: after)) (.list id (before ++ w :: after))
  | tupleItem (id before after) {v w} : Rearranged v w →
      Rearranged (.tuple id (before ++ v :: after)) (.tuple id (before ++ w :: after))

/-- The values are the same up to the order of the keys of mappings and to which identities the
objects have that were made or read for a context.  What is one object in the one is one in the
other. -/
def SameUpToOrder (v w : Value) : Prop :=
  ∃ σ : Equiv.Perm Nat, (v.relabel (Identity.renumber σ)).Rearranged w

variable {v w u : Value} {id target other : Identity} {key name : String} {path : List String}
variable {items items' : List Value} {entries entries' : List (Value × Value)}

namespace Rearranged

theorem symm (h : v.Rearranged w) : w.Rearranged v := by
  induction h with
  | refl v => exact .refl v
  | trans _ _ ih ih' => exact ih'.trans ih
  | swap id before after v w different => exact .swap id before after w v different.symm
  | entry id before key after _ ih => exact .entry id before key after ih
  | listItem id before after _ ih => exact .listItem id before after ih
  | tupleItem id before after _ ih => exact .tupleItem id before after ih

/-- A mapping stays the mapping that it is. -/
theorem eq_map (h : (Value.map id entries).Rearranged w) : ∃ entries', w = .map id entries' := by
  generalize start : Value.map id entries = v at h
  induction h generalizing entries with
  | refl v => exact ⟨entries, start.symm⟩
  | trans _ _ ih ih' =>
    obtain ⟨between, rfl⟩ := ih start
    exact ih' rfl
  | swap | entry =>
    cases start
    exact ⟨_, rfl⟩
  | listItem | tupleItem => cases start

/-- Entries in another order behind a first one. -/
theorem behind (entry : Value × Value)
    (h : (Value.map id entries).Rearranged (.map id entries')) :
    (Value.map id (entry :: entries)).Rearranged (.map id (entry :: entries')) := by
  -- Both sides are generalized, since a rearrangement is between values and not between lists of
  -- entries.
  generalize start : Value.map id entries = v at h
  generalize finish : Value.map id entries' = w at h
  induction h generalizing entries entries' with
  | refl v =>
    cases start
    cases finish
    exact .refl _
  | trans first second ih ih' =>
    subst start
    obtain ⟨between, rfl⟩ := first.eq_map
    exact (ih rfl rfl).trans (ih' rfl finish)
  | swap id before after v w different =>
    cases start
    cases finish
    exact .swap id (entry :: before) after v w different
  | «entry» id before key after h =>
    cases start
    cases finish
    exact .entry id (entry :: before) key after h
  | listItem | tupleItem => cases start

end Rearranged

/-! ## §2 What is found -/

theorem find?_append (name : String) (entries entries' : List (Value × Value)) :
    find? name (entries ++ entries') = (find? name entries).or (find? name entries') := by
  rw [find?, List.find?_append, Option.map_or]
  rfl

theorem find?_swap {a b : String} (different : a ≠ b) (name : String)
    (before after : List (Value × Value)) (v w : Value) :
    find? name (before ++ (.string a, v) :: (.string b, w) :: after) =
      find? name (before ++ (.string b, w) :: (.string a, v) :: after) := by
  simp only [find?_append, find?_cons, isKey, beq_iff_eq]
  by_cases first : a = name
  · have second : b ≠ name := fun second => different (first.trans second.symm)
    simp only [if_pos first, if_neg second]
  · simp only [if_neg first]

/-- Under a name is the value of one entry, whatever it is, or always the same. -/
theorem find?_entry (name : String) (before : List (Value × Value)) (key : Value)
    (after : List (Value × Value)) :
    (∀ v, find? name (before ++ (key, v) :: after) = some v) ∨
      ∃ found, ∀ v, find? name (before ++ (key, v) :: after) = found := by
  simp only [find?_append, find?_cons]
  cases find? name before with
  | some u => exact .inr ⟨some u, fun _ => rfl⟩
  | none =>
    by_cases here : isKey name key = true
    · exact .inl fun v => by rw [if_pos here, Option.none_or]
    · exact .inr ⟨find? name after, fun v => by rw [if_neg here, Option.none_or]⟩

namespace Rearranged

/-- A path leads to the same up to order. -/
theorem along? (h : v.Rearranged w) (leads : v.along? path = some u) :
    ∃ u', w.along? path = some u' ∧ u.Rearranged u' := by
  induction path generalizing v w u with
  | nil =>
    cases leads
    exact ⟨w, rfl, h⟩
  | cons name path below =>
    -- A step of the path is taken in every case; only an entry that was itself rearranged is gone
    -- into.
    induction h generalizing u with
    | refl v => exact ⟨u, leads, .refl u⟩
    | trans _ _ ih ih' =>
      obtain ⟨between, leads', first⟩ := ih leads
      obtain ⟨u', leads'', second⟩ := ih' leads'
      exact ⟨u', leads'', first.trans second⟩
    | swap id before after v w different =>
      rw [along?_map, find?_swap different] at leads
      exact ⟨u, leads, .refl u⟩
    | @«entry» id before key after v w h _ =>
      rw [along?_map] at leads
      rcases find?_entry name before key after with here | ⟨found, elsewhere⟩
      · rw [here, Option.bind_some] at leads
        obtain ⟨u', leads', same⟩ := below h leads
        exact ⟨u', by rw [along?_map, here]; exact leads', same⟩
      · rw [elsewhere, ← elsewhere w] at leads
        exact ⟨u, leads, .refl u⟩
    | listItem | tupleItem => cases leads

theorem along?_eq_none (h : v.Rearranged w) (nothing : v.along? path = none) :
    w.along? path = none := by
  cases found : w.along? path with
  | none => rfl
  | some u =>
    obtain ⟨_, leads, -⟩ := h.symm.along? found
    cases nothing.symm.trans leads

theorem reaches (h : v.Rearranged w) (leads : v.along? path = some (.map id entries)) :
    ∃ entries', w.along? path = some (.map id entries') := by
  obtain ⟨u, leads', same⟩ := h.along? leads
  obtain ⟨entries', rfl⟩ := same.eq_map
  exact ⟨entries', leads'⟩

/-! ## §3 What a change makes -/

/-- Values in another order instead of those under the keys. -/
theorem map_entries {f g : Value → Value} (id : Identity) (entries : List (Value × Value))
    (each : ∀ entry ∈ entries, (f entry.2).Rearranged (g entry.2)) :
    (Value.map id (entries.map fun e => (e.1, f e.2))).Rearranged
      (.map id (entries.map fun e => (e.1, g e.2))) := by
  induction entries with
  | nil => exact .refl _
  | cons entry entries ih =>
    obtain ⟨here, others⟩ := List.forall_mem_cons.mp each
    exact (Rearranged.entry id [] entry.1 _ here).trans ((ih others).behind _)

/-- The same for the items of arrays. -/
theorem map_items {f g : Value → Value} {array : List Value → Value}
    (one : ∀ before after {v w}, v.Rearranged w →
      (array (before ++ v :: after)).Rearranged (array (before ++ w :: after)))
    (before items : List Value) (each : ∀ item ∈ items, (f item).Rearranged (g item)) :
    (array (before ++ items.map f)).Rearranged (array (before ++ items.map g)) := by
  induction items generalizing before with
  | nil => exact .refl _
  | cons item items ih =>
    obtain ⟨here, others⟩ := List.forall_mem_cons.mp each
    rw [List.map_cons, List.map_cons]
    refine (one before _ here).trans ?_
    have next := ih (before ++ [g item]) others
    rwa [List.append_assoc, List.append_assoc] at next

/-- Neighbours under different keys, at most one of which gets the value. -/
theorem put_swap (key : String) (u : Value) (id : Identity) (before after : List (Value × Value))
    (v w : Value) {a b : String} (different : a ≠ b) :
    (Value.map id (put (.string key) u
        (before ++ (.string a, v) :: (.string b, w) :: after))).Rearranged
      (.map id (put (.string key) u (before ++ (.string b, w) :: (.string a, v) :: after))) := by
  induction before with
  | nil =>
    simp only [List.nil_append, put, sameKey_string, isKey, beq_iff_eq]
    by_cases first : a = key
    · rw [if_pos first, if_neg fun second => different (first.trans second.symm), if_pos first]
      exact .swap id [] after u w different
    by_cases second : b = key
    · rw [if_neg first, if_pos second, if_pos second]
      exact .swap id [] after v u different
    -- The value goes behind both of them, or at the end.
    rw [if_neg first, if_neg second, if_neg second, if_neg first]
    exact .swap id [] _ v w different
  | cons e before ih =>
    rw [List.cons_append, List.cons_append, put, put]
    split
    · exact (Rearranged.swap id before after v w different).behind _
    · exact ih.behind e

/-- An entry whose value is the same up to order, and which may be the one that is replaced. -/
theorem put_entry (key : String) (u : Value) (id : Identity) (before : List (Value × Value))
    (k : Value) (after : List (Value × Value)) (h : v.Rearranged w) :
    (Value.map id (put (.string key) u (before ++ (k, v) :: after))).Rearranged
      (.map id (put (.string key) u (before ++ (k, w) :: after))) := by
  induction before with
  | nil =>
    rw [List.nil_append, List.nil_append, put, put]
    split
    · exact .refl _
    · exact .entry id [] k _ h
  | cons e before ih =>
    rw [List.cons_append, List.cons_append, put, put]
    split
    · exact (Rearranged.entry id before k after h).behind _
    · exact ih.behind e

theorem put_congr (key : String) (u : Value)
    (h : (Value.map id entries).Rearranged (.map id entries')) :
    (Value.map id (put (.string key) u entries)).Rearranged
      (.map id (put (.string key) u entries')) := by
  generalize start : Value.map id entries = v at h
  generalize finish : Value.map id entries' = w at h
  induction h generalizing entries entries' with
  | refl v =>
    cases start
    cases finish
    exact .refl _
  | trans first second ih ih' =>
    subst start
    obtain ⟨between, rfl⟩ := first.eq_map
    exact (ih rfl rfl).trans (ih' rfl finish)
  | swap id before after v w different =>
    cases start
    cases finish
    exact put_swap key u id before after v w different
  | «entry» id before k after h =>
    cases start
    cases finish
    exact put_entry key u id before k after h
  | listItem | tupleItem => cases start

/-- A change of the same entry. -/
theorem putAt (h : v.Rearranged w) (target : Identity) (key : String) (u : Value) :
    (v.putAt target key u).Rearranged (w.putAt target key u) := by
  -- A mapping that is itself the target gets its entry after its parts have been changed.
  have within {id : Identity} {entries entries' : List (Value × Value)}
      (h : (Value.map id (putAtEntries entries target key u)).Rearranged
        (.map id (putAtEntries entries' target key u))) :
      ((Value.map id entries).putAt target key u).Rearranged
        ((Value.map id entries').putAt target key u) := by
    rw [putAt_map, putAt_map]
    split
    · exact h.put_congr key u
    · exact h
  induction h with
  | refl v => exact .refl _
  | trans _ _ ih ih' => exact ih.trans ih'
  | swap id before after v w different =>
    refine within ?_
    simp only [putAtEntries_eq_map, List.map_append, List.map_cons]
    exact .swap id _ _ _ _ different
  | «entry» id before k after _ ih =>
    refine within ?_
    simp only [putAtEntries_eq_map, List.map_append, List.map_cons]
    exact .entry id _ k _ ih
  | listItem id before after _ ih =>
    simp only [Value.putAt, putAtItems_eq_map, List.map_append, List.map_cons]
    exact .listItem id _ _ ih
  | tupleItem id before after _ ih =>
    simp only [Value.putAt, putAtItems_eq_map, List.map_append, List.map_cons]
    exact .tupleItem id _ _ ih

theorem relabel (f : Identity → Identity) (h : v.Rearranged w) :
    (v.relabel f).Rearranged (w.relabel f) := by
  induction h with
  | refl v => exact .refl _
  | trans _ _ ih ih' => exact ih.trans ih'
  | swap id before after v w different =>
    simp only [Value.relabel, relabelEntries_eq_map, List.map_append, List.map_cons]
    exact .swap (f id) _ _ _ _ different
  | «entry» id before k after _ ih =>
    simp only [Value.relabel, relabelEntries_eq_map, List.map_append, List.map_cons]
    exact .entry (f id) _ _ _ ih
  | listItem id before after _ ih =>
    simp only [Value.relabel, relabelItems_eq_map, List.map_append, List.map_cons]
    exact .listItem (f id) _ _ ih
  | tupleItem id before after _ ih =>
    simp only [Value.relabel, relabelItems_eq_map, List.map_append, List.map_cons]
    exact .tupleItem (f id) _ _ ih

end Rearranged

/-! ## §4 Two changes -/

/-- Two entries that are put come in the order in which they are put, or not. -/
theorem put_comm {a b : String} (different : a ≠ b) (id : Identity) (v w : Value)
    (entries : List (Value × Value)) :
    (Value.map id (put (.string b) w (put (.string a) v entries))).Rearranged
      (.map id (put (.string a) v (put (.string b) w entries))) := by
  induction entries with
  | nil =>
    simp only [put, sameKey_string, isKey, beq_iff_eq, if_neg different, if_neg different.symm]
    exact .swap id [] [] v w different
  | cons entry entries ih =>
    simp only [put, sameKey_string]
    by_cases first : isKey a entry.1 = true
    · have second : ¬isKey b entry.1 = true := fun second => different (eq_of_isKey first second)
      simp only [put, sameKey_string, if_pos first, if_neg second]
      exact .refl _
    · by_cases second : isKey b entry.1 = true
      · simp only [put, sameKey_string, if_neg first, if_pos second]
        exact .refl _
      · simp only [put, sameKey_string, if_neg first, if_neg second]
        exact ih.behind entry

/-- Changes of different entries are made in either order, if neither changes what the other one
puts. -/
theorem putAt_comm {key' : String} {w' : Value} (different : target = other → key ≠ key')
    (apart : other ∉ w.mappings) (apart' : target ∉ w'.mappings) :
    ((v.putAt target key w).putAt other key' w').Rearranged
      ((v.putAt other key' w').putAt target key w) := by
  induction v using byParts with
  | plain v noItems noEntries =>
    simp only [putAt_plain noItems noEntries]
    exact .refl v
  | array v items array ih =>
    cases v <;> cases array <;>
      simp only [putAt, putAtItems_eq_map, List.map_map]
    · exact Rearranged.map_items (.listItem _) [] items ih
    · exact Rearranged.map_items (.tupleItem _) [] items ih
  | map id entries ih =>
    -- The parts are in the same order up to rearrangement; it remains which of the two targets the
    -- mapping is.
    have below : (Value.map id
          (putAtEntries (putAtEntries entries target key w) other key' w')).Rearranged
        (.map id (putAtEntries (putAtEntries entries other key' w') target key w)) := by
      simp only [putAtEntries_eq_map, List.map_map]
      exact Rearranged.map_entries (f := fun u => (u.putAt target key w).putAt other key' w')
        (g := fun u => (u.putAt other key' w').putAt target key w) id entries ih
    simp only [putAt_map]
    by_cases here : id = target
    · by_cases here' : id = other
      · have key_ne := different (here.symm.trans here')
        simp only [if_pos here, if_pos here', putAtEntries_put, putAt_of_not_mem apart,
          putAt_of_not_mem apart']
        exact (put_comm key_ne id w w' _).trans (((below.put_congr key' w').put_congr key w))
      · simp only [if_pos here, if_neg here', putAtEntries_put, putAt_of_not_mem apart]
        exact below.put_congr key w
    · by_cases here' : id = other
      · simp only [if_neg here, if_pos here', putAtEntries_put, putAt_of_not_mem apart']
        exact below.put_congr key' w'
      · simp only [if_neg here, if_neg here']
        exact below

end Visibility.Value
