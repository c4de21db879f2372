import Visibility.Proofs.KeyPath

/-!
# The mappings that are part of a value

A mapping may be part of a value at several places, in arrays as well as under keys.  A change of a
mapping that is no part of a value does not change the value, and where no mapping is part of a value
at two places, only one path of keys leads to a mapping.

* `Value.byParts`, `Value.byPartsAndKeys` — induction on the values within each other
* `Value.mappings` — the mappings of a value, as often as they are part of it
* `Value.putAt_of_not_mem`, `Value.mem_mappings_putAt` — what a change does to values and mappings
* `Value.putAt_putAt` — a change of a new mapping is a change of what was put
* `Value.isPrefix_of_mem` — the one way to a mapping that is not shared
-/

namespace Visibility

mutual

/-- The mappings that are part of a value, as often as they are, each before those within it. -/
def Value.mappings : Value → List Identity
  | .list _ items => mappingsOfItems items
  | .tuple _ items => mappingsOfItems items
  | .map id entries => id :: mappingsOfEntries entries
  | _ => []

/-- The same for the items of an array. -/
def mappingsOfItems : List Value → List Identity
  | [] => []
  | v :: vs => v.mappings ++ mappingsOfItems vs

/-- The same for the values of the entries of a mapping. -/
def mappingsOfEntries : List (Value × Value) → List Identity
  | [] => []
  | (_, v) :: es => v.mappings ++ mappingsOfEntries es

end

namespace Value

variable {v w u : Value} {target id : Identity} {key : String} {path : List String}
variable {items : List Value} {entries : List (Value × Value)}

/-! ## §1 Parts -/

theorem sizeOf_lt_of_mem {entry : Value × Value} (mem : entry ∈ entries) :
    sizeOf entry.1 < sizeOf entries ∧ sizeOf entry.2 < sizeOf entries := by
  have smaller : sizeOf entry < sizeOf entries := List.sizeOf_lt_of_mem mem
  cases entry
  simp only [Prod.mk.sizeOf_spec] at smaller ⊢
  omega

/-- Induction on the values within each other, the keys of mappings among them. -/
@[elab_as_elim]
theorem byPartsAndKeys {motive : Value → Prop}
    (plain : ∀ v, v.elements? = none → v.entries? = none → motive v)
    (array : ∀ v items, v.elements? = some items → (∀ item ∈ items, motive item) → motive v)
    (map : ∀ id entries, (∀ entry ∈ entries, motive entry.1 ∧ motive entry.2) →
      motive (.map id entries))
    (v : Value) : motive v :=
  match v with
  | .list _ items | .tuple _ items =>
    array _ items rfl fun item _ => byPartsAndKeys plain array map item
  | .map id entries => map id entries fun entry mem =>
    have := sizeOf_lt_of_mem mem
    ⟨byPartsAndKeys plain array map entry.1, byPartsAndKeys plain array map entry.2⟩
  | .undefined | .null | .bool _ | .number _ | .string _ | .foreign .. => plain _ rfl rfl

/-- Induction on the values within each other. -/
@[elab_as_elim]
theorem byParts {motive : Value → Prop}
    (plain : ∀ v, v.elements? = none → v.entries? = none → motive v)
    (array : ∀ v items, v.elements? = some items → (∀ item ∈ items, motive item) → motive v)
    (map : ∀ id entries, (∀ entry ∈ entries, motive entry.2) → motive (.map id entries))
    (v : Value) : motive v := by
  induction v using byPartsAndKeys with
  | plain v noItems noEntries => exact plain v noItems noEntries
  | array v items elements ih => exact array v items elements ih
  | map id entries ih => exact map id entries fun entry mem => (ih entry mem).2

theorem mappingsOfItems_eq_flatMap (items : List Value) :
    mappingsOfItems items = items.flatMap mappings := by
  induction items with
  | nil => rfl
  | cons v vs ih => rw [mappingsOfItems, ih, List.flatMap_cons]

theorem mappingsOfEntries_eq_flatMap (entries : List (Value × Value)) :
    mappingsOfEntries entries = entries.flatMap (·.2.mappings) := by
  induction entries with
  | nil => rfl
  | cons entry entries ih => rw [mappingsOfEntries, ih, List.flatMap_cons]

theorem mappings_of_elements (h : v.elements? = some items) :
    v.mappings = items.flatMap mappings := by
  cases v <;> cases h <;> exact mappingsOfItems_eq_flatMap items

theorem mappings_map (id : Identity) (entries : List (Value × Value)) :
    (Value.map id entries).mappings = id :: entries.flatMap (·.2.mappings) := by
  rw [mappings, mappingsOfEntries_eq_flatMap]

theorem mappings_plain (noItems : v.elements? = none) (noEntries : v.entries? = none) :
    v.mappings = [] := by
  cases v <;> first | rfl | (cases noItems; done) | cases noEntries

/-! ## §2 What a change does -/

theorem putAtItems_eq_map (items : List Value) (target : Identity) (key : String) (w : Value) :
    putAtItems items target key w = items.map (·.putAt target key w) := by
  induction items with
  | nil => rfl
  | cons v vs ih => rw [putAtItems, ih, List.map_cons]

theorem putAtEntries_eq_map (entries : List (Value × Value)) (target : Identity) (key : String)
    (w : Value) :
    putAtEntries entries target key w = entries.map fun e => (e.1, e.2.putAt target key w) := by
  induction entries with
  | nil => rfl
  | cons entry entries ih => rw [putAtEntries, ih, List.map_cons]

theorem putAt_plain (noItems : v.elements? = none) (noEntries : v.entries? = none) :
    v.putAt target key w = v := by
  cases v <;> first | rfl | (cases noItems; done) | cases noEntries

theorem elements?_putAt (v : Value) (target : Identity) (key : String) (w : Value) :
    (v.putAt target key w).elements? = v.elements?.map (·.map (·.putAt target key w)) := by
  cases v <;> simp [putAt, elements?, putAtItems_eq_map]

/-- An object stays the object that it is. -/
theorem identity?_putAt (v : Value) (target : Identity) (key : String) (w : Value) :
    (v.putAt target key w).identity? = v.identity? := by
  cases v <;> simp [putAt, identity?]

/-- A change of a mapping that is no part of a value does nothing to it. -/
theorem putAt_of_not_mem (apart : target ∉ v.mappings) : v.putAt target key w = v := by
  induction v using byParts with
  | plain v noItems noEntries => exact putAt_plain noItems noEntries
  | array v items array ih =>
    rw [mappings_of_elements array, List.mem_flatMap] at apart
    have same : items.map (·.putAt target key w) = items := by
      rw [List.map_congr_left fun item mem => ih item mem fun here => apart ⟨item, mem, here⟩,
        List.map_id']
    cases v <;> cases array <;> rw [putAt, putAtItems_eq_map, same]
  | map id entries ih =>
    rw [mappings_map, List.mem_cons, List.mem_flatMap, not_or] at apart
    obtain ⟨other, inside⟩ := apart
    have same : entries.map (fun e => (e.1, e.2.putAt target key w)) = entries := by
      rw [List.map_congr_left fun entry mem => by
        rw [ih entry mem fun here => inside ⟨entry, mem, here⟩], List.map_id']
    rw [putAt_map, if_neg (Ne.symm other), putAtEntries_eq_map, same]

theorem mem_mappings_put {k : Value} (mem : ∃ entry ∈ put k u entries, id ∈ entry.2.mappings) :
    id ∈ u.mappings ∨ ∃ entry ∈ entries, id ∈ entry.2.mappings := by
  induction entries with
  | nil => simpa [put] using mem
  | cons entry entries ih =>
    rw [put] at mem
    split at mem
    · -- The value of this entry is replaced.
      rw [List.exists_mem_cons_iff] at mem
      rw [List.exists_mem_cons_iff]
      exact mem.imp_right .inr
    · rw [List.exists_mem_cons_iff] at mem ⊢
      rcases mem with here | mem
      · exact .inr (.inl here)
      · exact (ih mem).imp_right .inr

/-- The mappings after a change are those of before and those that were put. -/
theorem mem_mappings_putAt (mem : id ∈ (v.putAt target key w).mappings) :
    id ∈ v.mappings ∨ id ∈ w.mappings := by
  induction v using byParts with
  | plain v noItems noEntries =>
    rw [putAt_plain noItems noEntries] at mem
    exact .inl mem
  | array v items array ih =>
    have changed := elements?_putAt v target key w
    rw [array, Option.map_some] at changed
    rw [mappings_of_elements changed, List.mem_flatMap] at mem
    rw [mappings_of_elements array, List.mem_flatMap]
    obtain ⟨_, changed, here⟩ := mem
    obtain ⟨item, listed, rfl⟩ := List.mem_map.mp changed
    exact (ih item listed here).imp_left fun here => ⟨item, listed, here⟩
  | map own entries ih =>
    -- A mapping inside of a changed entry was there, or came with the value that was put.
    have inside (entry) (changed : entry ∈ putAtEntries entries target key w)
        (here : id ∈ entry.2.mappings) :
        (∃ entry ∈ entries, id ∈ entry.2.mappings) ∨ id ∈ w.mappings := by
      rw [putAtEntries_eq_map] at changed
      obtain ⟨entry, listed, rfl⟩ := List.mem_map.mp changed
      exact (ih entry listed here).imp_left fun here => ⟨entry, listed, here⟩
    rw [putAt_map, mappings_map, List.mem_cons, List.mem_flatMap] at mem
    rw [mappings_map, List.mem_cons, List.mem_flatMap]
    rcases mem with rfl | mem
    · exact .inl (.inl rfl)
    · split at mem
      · rcases mem_mappings_put mem with new | ⟨entry, listed, here⟩
        · exact .inr new
        · exact (inside entry listed here).imp_left .inr
      · obtain ⟨entry, listed, here⟩ := mem
        exact (inside entry listed here).imp_left .inr

theorem putAtEntries_put (entries : List (Value × Value)) (k u : Value) (target : Identity)
    (key : String) (w : Value) :
    putAtEntries (put k u entries) target key w =
      put k (u.putAt target key w) (putAtEntries entries target key w) := by
  induction entries with
  | nil => rfl
  | cons entry entries ih =>
    rw [put, putAtEntries, put]
    split
    · rfl
    · rw [putAtEntries, ih]

/-- A change of a mapping that came with a value which was put is a change of this value. -/
theorem putAt_putAt {other : Identity} {name : String} (new : other ∉ v.mappings) :
    (v.putAt target key u).putAt other name w = v.putAt target key (u.putAt other name w) := by
  induction v using byParts with
  | plain v noItems noEntries =>
    rw [putAt_plain noItems noEntries, putAt_plain noItems noEntries, putAt_plain noItems noEntries]
  | array v items array ih =>
    rw [mappings_of_elements array, List.mem_flatMap] at new
    have same : (items.map (·.putAt target key u)).map (·.putAt other name w) =
        items.map (·.putAt target key (u.putAt other name w)) := by
      rw [List.map_map]
      exact List.map_congr_left fun item mem => ih item mem fun here => new ⟨item, mem, here⟩
    cases v <;> cases array <;> simp only [putAt, putAtItems_eq_map, same]
  | map id entries ih =>
    rw [mappings_map, List.mem_cons, List.mem_flatMap, not_or] at new
    -- The mapping itself is not the other target, so that the second change passes it by.
    obtain ⟨isOther, inside⟩ := new
    have same : putAtEntries (putAtEntries entries target key u) other name w =
        putAtEntries entries target key (u.putAt other name w) := by
      simp only [putAtEntries_eq_map, List.map_map]
      exact List.map_congr_left fun entry mem => by
        rw [Function.comp_apply, ih entry mem fun here => inside ⟨entry, mem, here⟩]
    rw [putAt_map, putAt_map, putAt_map, if_neg (Ne.symm isOther)]
    split
    · rw [putAtEntries_put, same]
    · rw [same]

/-! ## §3 One way to each mapping -/

/-- What is found under a key is part of the mapping. -/
theorem mappings_sublist_of_find? {name : String} (found : find? name entries = some u) :
    u.mappings.Sublist (entries.flatMap (·.2.mappings)) := by
  induction entries with
  | nil => cases found
  | cons entry entries ih =>
    rw [find?_cons] at found
    rw [List.flatMap_cons]
    split at found
    · cases found
      exact List.sublist_append_left _ _
    · exact (ih found).trans (List.sublist_append_right _ _)

theorem mappings_sublist_of_along? (leads : v.along? path = some u) :
    u.mappings.Sublist v.mappings := by
  induction path generalizing v with
  | nil =>
    cases leads
    exact .refl _
  | cons name path ih =>
    obtain ⟨id, entries, m, rfl, found, rest⟩ := along?_cons_eq_some leads
    rw [mappings_map]
    exact ((ih rest).trans (mappings_sublist_of_find? found)).cons id

theorem mem_mappings_of_along? (leads : v.along? path = some (.map id entries)) :
    id ∈ v.mappings :=
  (mappings_sublist_of_along? leads).subset (by simp [mappings_map])

theorem mem_mappings_of_holds (holds : v.Holds id) : id ∈ v.mappings := by
  obtain ⟨path, entries, leads⟩ := holds
  exact mem_mappings_of_along? leads

theorem eq_of_isKey {name other : String} {k : Value} (h : isKey name k = true)
    (h' : isKey other k = true) : name = other := by
  cases k <;> simp_all [isKey]

/-- Entries under different keys have no mapping in common, unless it is shared. -/
theorem not_mem_of_find? {name other : String} (ne : name ≠ other)
    (unshared : (entries.flatMap (·.2.mappings)).Nodup) (found : find? name entries = some u)
    (found' : find? other entries = some w) (mem : id ∈ u.mappings) : id ∉ w.mappings := by
  induction entries with
  | nil => cases found
  | cons entry entries ih =>
    rw [List.flatMap_cons, List.nodup_append'] at unshared
    obtain ⟨-, others, apart⟩ := unshared
    rw [find?_cons] at found found'
    split at found
    · rename_i first
      rw [if_neg fun second => ne (eq_of_isKey first second)] at found'
      cases found
      exact fun mem' => apart mem ((mappings_sublist_of_find? found').subset mem')
    · split at found'
      · cases found'
        exact fun mem' => apart mem' ((mappings_sublist_of_find? found).subset mem)
      · exact ih others found found'

/-- A path to something with a mapping in it lies on the one path to this mapping. -/
theorem isPrefix_of_mem {front : List String} (unshared : v.mappings.Nodup)
    (leads : v.along? path = some u) (mem : id ∈ u.mappings)
    (here : v.along? front = some (.map id entries)) : path <+: front := by
  induction path generalizing v front with
  | nil => exact List.nil_prefix
  | cons name path ih =>
    obtain ⟨own, es, m, rfl, found, rest⟩ := along?_cons_eq_some leads
    rw [mappings_map, List.nodup_cons] at unshared
    obtain ⟨outside, unshared⟩ := unshared
    have within : id ∈ m.mappings := (mappings_sublist_of_along? rest).subset mem
    cases front with
    | nil =>
      -- The mapping itself is not within its entries.
      cases here
      exact absurd ((mappings_sublist_of_find? found).subset within) outside
    | cons other front =>
      obtain ⟨_, _, m', same, found', rest'⟩ := along?_cons_eq_some here
      cases same
      by_cases eq : name = other
      · subst eq
        cases found.symm.trans found'
        have fewer := (mappings_sublist_of_find? found).nodup unshared
        exact List.cons_prefix_cons.mpr ⟨rfl, ih fewer rest rest'⟩
      · exact absurd (mem_mappings_of_along? rest') (not_mem_of_find? eq unshared found found' within)

/-- Where no mapping is shared, none lies within itself. -/
theorem loopFree_of_nodup (unshared : v.mappings.Nodup) : v.LoopFree := by
  intro path more id entries entries' leads leads'
  have back : path ++ more <+: path := by
    refine isPrefix_of_mem unshared leads' ?_ leads
    simp [mappings_map]
  have shorter := back.length_le
  rw [List.length_append] at shorter
  exact List.eq_nil_of_length_eq_zero (by omega)

end Value

end Visibility
