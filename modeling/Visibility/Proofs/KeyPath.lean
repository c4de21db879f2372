import Visibility.Context.Assignment
import Visibility.Proofs.Provenance
import Visibility.Value.Containment

/-!
# Changes seen along paths of keys

What a path of keys leads to in a value after an entry was put into one of its mappings.  The
mapping may be part of the value at many places, and a path may come through it more than once.

* `Value.along?_putAt` — a path that does not take the changed entry leads to what it led to, with
  the same change in it
* `Value.along?_putAt_through` — a path that takes the changed entry goes on in the new value
* `Value.along?_putAt_eq_some` — these are all the paths that there are after the change
* `Value.LoopFree.putAt` — if no mapping lies within itself before the change, and the new value
  has mappings of its own only, none does afterwards
-/

namespace Visibility.Value

section Paths

variable {v w u : Value} {target id : Identity} {key : String} {path before after : List String}
variable {entries : List (Value × Value)}

/-! ## §1 Mappings on paths -/

/-- A mapping with the identity stands at the end of a path of keys. -/
def Holds (v : Value) (id : Identity) : Prop :=
  ∃ path entries, v.along? path = some (.map id entries)

/-- The path takes the entry under the key out of the mapping with the identity. -/
def Passes (v : Value) (target : Identity) (key : String) (path : List String) : Prop :=
  ∃ before after entries,
    path = before ++ key :: after ∧ v.along? before = some (.map target entries)

/-- No path of keys leads from a mapping to the same mapping. -/
def LoopFree (v : Value) : Prop :=
  ∀ path more id entries entries', v.along? path = some (.map id entries) →
    v.along? (path ++ more) = some (.map id entries') → more = []

theorem find?_cons (name : String) (entry : Value × Value) (entries : List (Value × Value)) :
    find? name (entry :: entries) =
      if isKey name entry.1 then some entry.2 else find? name entries := by
  simp only [find?, List.find?_cons]
  cases isKey name entry.1 <;> rfl

theorem along?_map (id : Identity) (entries : List (Value × Value)) (key : String)
    (path : List String) :
    (Value.map id entries).along? (key :: path) = (find? key entries).bind (along? path) := rfl

theorem along?_cons_eq_some (h : v.along? (key :: path) = some w) :
    ∃ id entries u, v = .map id entries ∧ find? key entries = some u ∧ u.along? path = some w := by
  cases v with
  | map id entries =>
    obtain ⟨u, found, rest⟩ := Option.bind_eq_some_iff.mp h
    exact ⟨id, entries, u, rfl, found, rest⟩
  | _ => cases h

/-- A path through which something is reached has a place where its first part ends. -/
theorem along?_append_eq_some (h : v.along? (before ++ after) = some w) :
    ∃ u, v.along? before = some u ∧ u.along? after = some w := by
  induction before generalizing v with
  | nil => exact ⟨v, rfl, h⟩
  | cons key before ih =>
    obtain ⟨id, entries, u, rfl, found, rest⟩ := along?_cons_eq_some h
    obtain ⟨m, first, second⟩ := ih rest
    exact ⟨m, by rw [along?_map, found]; exact first, second⟩

theorem along?_concat (leads : v.along? path = some (.map id entries)) (key : String) :
    v.along? (path ++ [key]) = find? key entries := by
  rw [along?_append leads, along?_map]
  cases find? key entries <;> rfl

/-- Only a mapping has mappings on paths of keys. -/
theorem not_holds_of_entries? (h : v.entries? = none) : ¬ v.Holds id := by
  rintro ⟨path, entries, leads⟩
  cases path with
  | nil =>
    cases leads
    cases h
  | cons key path =>
    obtain ⟨_, _, _, rfl, _⟩ := along?_cons_eq_some leads
    cases h

/-- In a mapping without entries only the empty path leads somewhere. -/
theorem along?_map_nil (h : (Value.map id []).along? path = some w) :
    path = [] ∧ w = .map id [] := by
  cases path with
  | nil => exact ⟨rfl, (Option.some.inj h).symm⟩
  | cons key path => cases h

theorem loopFree_map_nil (id : Identity) : (Value.map id []).LoopFree := fun _ _ _ _ _ _ leads =>
  (List.append_eq_nil_iff.mp (along?_map_nil leads).1).2

theorem eq_of_holds_map_nil {id' : Identity} (h : (Value.map id []).Holds id') : id' = id := by
  obtain ⟨path, entries, leads⟩ := h
  cases (along?_map_nil leads).2
  rfl

theorem holds_map {id' : Identity} (h : (Value.map id entries).Holds id') :
    id' = id ∨ ∃ key u, find? key entries = some u ∧ u.Holds id' := by
  obtain ⟨path, entries', leads⟩ := h
  cases path with
  | nil =>
    cases leads
    exact .inl rfl
  | cons key path =>
    obtain ⟨_, _, u, same, found, rest⟩ := along?_cons_eq_some leads
    cases same
    exact .inr ⟨key, u, found, path, entries', rest⟩

theorem not_passes_nil : ¬ v.Passes target key [] := by
  rintro ⟨before, after, entries, split, -⟩
  cases before <;> cases split

/-- A step through another entry brings no new passage. -/
theorem passes_cons {name : String} (other : id = target → name ≠ key)
    (found : find? name entries = some u)
    (h : (Value.map id entries).Passes target key (name :: path)) : u.Passes target key path := by
  obtain ⟨before, after, entries', split, leads⟩ := h
  cases before with
  | nil =>
    obtain ⟨rfl, -⟩ := List.cons.inj split
    cases leads
    exact absurd rfl (other rfl)
  | cons first before =>
    obtain ⟨rfl, rfl⟩ := List.cons.inj split
    rw [along?_map, found] at leads
    exact ⟨before, after, entries', rfl, leads⟩

theorem LoopFree.not_passes (h : v.LoopFree) (leads : v.along? path = some (.map target entries)) :
    ¬ v.Passes target key path := by
  rintro ⟨before, after, entries', rfl, earlier⟩
  cases h _ _ _ _ _ earlier leads

end Paths

/-! ## §2 One change -/

section Change

variable {v w u : Value} {target id : Identity} {key name : String} {path before : List String}
variable {entries : List (Value × Value)}

theorem putAt_map (id : Identity) (entries : List (Value × Value)) (target : Identity)
    (key : String) (w : Value) :
    (Value.map id entries).putAt target key w =
      .map id (if id = target then put (.string key) w (putAtEntries entries target key w)
        else putAtEntries entries target key w) := by
  rw [putAt]

/-- A change makes no mappings out of other values. -/
theorem putAt_eq_map (h : v.putAt target key w = .map id entries) :
    ∃ entries₀, v = .map id entries₀ := by
  cases v with
  | map id' entries₀ =>
    rw [putAt_map] at h
    cases h
    exact ⟨entries₀, rfl⟩
  | _ =>
    simp only [putAt] at h
    cases h

theorem find?_putAtEntries (name : String) (entries : List (Value × Value)) (target : Identity)
    (key : String) (w : Value) :
    find? name (putAtEntries entries target key w) =
      (find? name entries).map (·.putAt target key w) := by
  induction entries with
  | nil => rfl
  | cons entry entries ih =>
    obtain ⟨k, u⟩ := entry
    simp only [putAtEntries, find?_cons, ih]
    split <;> rfl

/-- Every entry but the changed one is the old one with the change in it. -/
theorem find?_putAt_map (other : id = target → name ≠ key) (entries : List (Value × Value))
    (w : Value) :
    find? name (if id = target then put (.string key) w (putAtEntries entries target key w)
        else putAtEntries entries target key w) =
      (find? name entries).map (·.putAt target key w) := by
  split
  · rename_i same
    rw [find?_put_of_ne (other same), find?_putAtEntries]
  · exact find?_putAtEntries name entries target key w

/-- A path that does not take the changed entry leads to what it led to, with the change in it. -/
theorem along?_putAt (h : ¬ v.Passes target key path) (w : Value) :
    (v.putAt target key w).along? path = (v.along? path).map (·.putAt target key w) := by
  induction path generalizing v with
  | nil => rfl
  | cons name path ih =>
    cases v with
    | map id entries =>
      -- If the first step took the changed entry, or a later one did, the whole path would.
      have other : id = target → name ≠ key := by
        rintro rfl rfl
        exact h ⟨[], path, entries, rfl, rfl⟩
      rw [putAt_map, along?_map, along?_map, find?_putAt_map other]
      cases found : find? name entries with
      | none => rfl
      | some u =>
        refine ih fun passes => h ?_
        obtain ⟨before, after, entries', rfl, leads⟩ := passes
        exact ⟨name :: before, after, entries', rfl, by rw [along?_map, found]; exact leads⟩
    | _ =>
      simp only [putAt]
      rfl

/-- At the end of a path to the changed mapping stands the changed mapping. -/
theorem along?_putAt_target (leads : v.along? path = some (.map target entries))
    (first : ¬ v.Passes target key path) (w : Value) :
    (v.putAt target key w).along? path =
      some (.map target (put (.string key) w (putAtEntries entries target key w))) := by
  rw [along?_putAt first, leads, Option.map_some, putAt_map, if_pos rfl]

/-- A path that takes the changed entry goes on in the new value. -/
theorem along?_putAt_through (leads : v.along? before = some (.map target entries))
    (first : ¬ v.Passes target key before) (w : Value) (after : List String) :
    (v.putAt target key w).along? (before ++ key :: after) = w.along? after := by
  rw [along?_append (along?_putAt_target leads first w), along?_map, find?_put_self,
    Option.bind_some]

/-- Every path after a change leads to a changed old value, or through the changed entry for the
first time and on in the new value. -/
theorem along?_putAt_eq_some (h : (v.putAt target key w).along? path = some u) :
    (∃ u₀, v.along? path = some u₀ ∧ u = u₀.putAt target key w) ∨
      ∃ before after entries, path = before ++ key :: after ∧
        v.along? before = some (.map target entries) ∧ ¬ v.Passes target key before ∧
        w.along? after = some u := by
  induction path generalizing v with
  | nil => exact .inl ⟨v, rfl, (Option.some.inj h).symm⟩
  | cons name path ih =>
    obtain ⟨id, entries', u', changed, found, rest⟩ := along?_cons_eq_some h
    obtain ⟨entries, rfl⟩ := putAt_eq_map changed
    by_cases here : id = target ∧ name = key
    · -- From here on the path runs in the new value, even where it meets the mapping again.
      obtain ⟨rfl, rfl⟩ := here
      have through : ((Value.map id entries).putAt id name w).along? ([] ++ name :: path) =
          w.along? path := along?_putAt_through rfl not_passes_nil w path
      exact .inr ⟨[], path, entries, rfl, rfl, not_passes_nil, through.symm.trans h⟩
    · have other : id = target → name ≠ key := fun same eq => here ⟨same, eq⟩
      rw [putAt_map] at changed
      obtain ⟨-, rfl⟩ := Value.map.inj changed
      rw [find?_putAt_map other] at found
      obtain ⟨u₀, found₀, rfl⟩ := Option.map_eq_some_iff.mp found
      rcases ih rest with ⟨u₁, leads, same⟩ | ⟨before, after, entries₁, rfl, leads, first, on⟩
      · exact .inl ⟨u₁, by rw [along?_map, found₀]; exact leads, same⟩
      · refine .inr ⟨name :: before, after, entries₁, rfl, ?_, fun h => first ?_, on⟩
        · rw [along?_map, found₀]
          exact leads
        · exact passes_cons other found₀ h

/-- After a change there are the mappings of before and those of the new value. -/
theorem Holds.of_putAt (h : (v.putAt target key w).Holds id) : v.Holds id ∨ w.Holds id := by
  obtain ⟨path, entries, leads⟩ := h
  rcases along?_putAt_eq_some leads with ⟨u, leads₀, same⟩ | ⟨_, after, _, _, _, _, on⟩
  · obtain ⟨entries₀, rfl⟩ := putAt_eq_map same.symm
    exact .inl ⟨path, entries₀, leads₀⟩
  · exact .inr ⟨after, entries, on⟩

/-- A value whose mappings are its own brings no mapping into itself. -/
theorem LoopFree.putAt (hv : v.LoopFree) (hw : w.LoopFree)
    (apart : ∀ id, v.Holds id → ¬ w.Holds id) : (v.putAt target key w).LoopFree := by
  intro path more id entries entries' leads leads'
  -- The path to the mapping stays in the old value or ends in the new one, and so does the longer
  -- path.
  rcases along?_putAt_eq_some leads with
    ⟨u, leads₀, same⟩ | ⟨before, after, es, rfl, atTarget, first, on⟩
  · obtain ⟨entries₀, rfl⟩ := putAt_eq_map same.symm
    rcases along?_putAt_eq_some leads' with ⟨u', leads₁, same'⟩ | ⟨_, after, _, _, _, _, on'⟩
    · obtain ⟨entries₁, rfl⟩ := putAt_eq_map same'.symm
      exact hv _ _ _ _ _ leads₀ leads₁
    · -- One of the two is a mapping of the old value, the other one of the new value.
      exact absurd ⟨after, entries', on'⟩ (apart id ⟨path, entries₀, leads₀⟩)
  · rw [List.append_assoc, List.cons_append, along?_putAt_through atTarget first] at leads'
    exact hw _ _ _ _ _ on leads'

end Change

/-! ## §3 Values with an end -/

section Endless

variable {v w : Value} {enclosing : List Identity} {path : List String}

theorem not_endless_of_find? {name : String} {entries : List (Value × Value)}
    (h : anyEntryEndless enclosing entries = false) (found : find? name entries = some w) :
    w.isEndless enclosing = false := by
  induction entries with
  | nil => cases found
  | cons entry entries ih =>
    obtain ⟨here, there⟩ := Bool.or_eq_false_iff.mp h
    rw [find?_cons] at found
    split at found
    · rw [← Option.some.inj found]
      exact here
    · exact ih there found

/-- On the way to a part, the enclosing objects become more. -/
theorem not_endless_along? (h : v.isEndless enclosing = false) (leads : v.along? path = some w) :
    ∃ more, w.isEndless (more ++ enclosing) = false := by
  induction path generalizing v enclosing with
  | nil =>
    cases leads
    exact ⟨[], h⟩
  | cons name path ih =>
    obtain ⟨id, entries, u, rfl, found, rest⟩ := along?_cons_eq_some leads
    obtain ⟨-, inside⟩ := Bool.or_eq_false_iff.mp h
    obtain ⟨more, end'⟩ := ih (not_endless_of_find? inside found) rest
    exact ⟨more ++ [id], by rwa [List.append_assoc, List.singleton_append]⟩

/-- A value that is not endless has no mapping within itself. -/
theorem loopFree_of_not_endless (h : v.isEndless [] = false) : v.LoopFree := by
  intro path more id entries entries' leads leads'
  cases more with
  | nil => rfl
  | cons name more =>
    rw [along?_append leads] at leads'
    obtain ⟨_, _, u, same, found, rest⟩ := along?_cons_eq_some leads'
    cases same
    obtain ⟨outside, end'⟩ := not_endless_along? h leads
    obtain ⟨-, inside⟩ := Bool.or_eq_false_iff.mp end'
    obtain ⟨between, end''⟩ := not_endless_along? (not_endless_of_find? inside found) rest
    -- The mapping is among those that enclose it.
    obtain ⟨absent, -⟩ := Bool.or_eq_false_iff.mp end''
    simp at absent

end Endless

end Visibility.Value
