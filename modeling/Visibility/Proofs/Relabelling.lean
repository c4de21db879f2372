import Visibility.Proofs.Sharing

/-!
# Objects under other identities

Which identity an object has tells nothing but which occurrences are one object.  If all objects get
other identities, and different ones stay different, then keys that were one key still are, the same
is found along every path, and a mapping that is changed is changed under its other identity.

* `Value.relabel` — a value whose objects have other identities
* `Value.identities`, `Value.relabel_congr` — only the identities in a value matter
* `Value.sameKey_relabel`, `Value.relabelEntries_put` — keys and entries
* `Value.along?_relabel`, `Value.putAt_relabel` — paths and changes
-/

namespace Visibility

/-! ## §1 Identities in a value -/

/-- Another number for an object that was made or read for a context. -/
def Identity.renumber (g : Nat → Nat) : Identity → Identity
  | .assembled n => .assembled (g n)
  | id => id

theorem Identity.renumber_injective {g : Nat → Nat} (injective : Function.Injective g) :
    Function.Injective (renumber g) := by
  intro i j same
  cases i <;> cases j <;> simp_all [renumber, injective.eq_iff]

theorem Identity.renumber_comp (g h : Nat → Nat) : renumber g ∘ renumber h = renumber (g ∘ h) := by
  funext id
  cases id <;> rfl

mutual

/-- The value with other identities. -/
def Value.relabel (f : Identity → Identity) (v : Value) : Value :=
  match v with
  | .list id items => .list (f id) (relabelItems f items)
  | .tuple id items => .tuple (f id) (relabelItems f items)
  | .map id entries => .map (f id) (relabelEntries f entries)
  | .foreign id thing => .foreign (f id) thing
  | v => v
termination_by structural v

/-- The same for each item of an array. -/
def relabelItems (f : Identity → Identity) (items : List Value) : List Value :=
  match items with
  | [] => []
  | v :: vs => v.relabel f :: relabelItems f vs
termination_by structural items

/-- The same for the key and the value of each entry of a mapping. -/
def relabelEntries (f : Identity → Identity) (entries : List (Value × Value)) :
    List (Value × Value) :=
  match entries with
  | [] => []
  | (k, v) :: es => (k.relabel f, v.relabel f) :: relabelEntries f es
termination_by structural entries

end

mutual

/-- The identities of the objects that are part of a value, its keys among them. -/
def Value.identities : Value → List Identity
  | .list id items => id :: identitiesOfItems items
  | .tuple id items => id :: identitiesOfItems items
  | .map id entries => id :: identitiesOfEntries entries
  | .foreign id _ => [id]
  | _ => []

/-- The same for the items of an array. -/
def identitiesOfItems : List Value → List Identity
  | [] => []
  | v :: vs => v.identities ++ identitiesOfItems vs

/-- The same for the keys and the values of the entries of a mapping. -/
def identitiesOfEntries : List (Value × Value) → List Identity
  | [] => []
  | (k, v) :: es => k.identities ++ v.identities ++ identitiesOfEntries es

end

namespace Value

variable {f g : Identity → Identity} {v w u : Value} {id target : Identity} {key name : String}
variable {items : List Value} {entries : List (Value × Value)} {path : List String}

theorem relabelItems_eq_map (items : List Value) :
    relabelItems f items = items.map (relabel f) := by
  induction items with
  | nil => rfl
  | cons v vs ih => rw [relabelItems, ih, List.map_cons]

theorem relabelEntries_eq_map (entries : List (Value × Value)) :
    relabelEntries f entries = entries.map fun e => (e.1.relabel f, e.2.relabel f) := by
  induction entries with
  | nil => rfl
  | cons entry entries ih => rw [relabelEntries, ih, List.map_cons]

theorem mem_identitiesOfItems :
    id ∈ identitiesOfItems items ↔ ∃ item ∈ items, id ∈ item.identities := by
  induction items with
  | nil => simp [identitiesOfItems]
  | cons v vs ih => rw [identitiesOfItems, List.mem_append, ih, List.exists_mem_cons_iff]

theorem mem_identitiesOfEntries : id ∈ identitiesOfEntries entries ↔
    ∃ entry ∈ entries, id ∈ entry.1.identities ∨ id ∈ entry.2.identities := by
  induction entries with
  | nil => simp [identitiesOfEntries]
  | cons entry es ih =>
    rw [identitiesOfEntries, List.mem_append, List.mem_append, ih, List.exists_mem_cons_iff]

theorem mem_identities_of_elements (elements : v.elements? = some items) :
    id ∈ v.identities ↔ v.identity? = some id ∨ ∃ item ∈ items, id ∈ item.identities := by
  cases v <;> cases elements <;>
    rw [identities, List.mem_cons, mem_identitiesOfItems, identity?, Option.some_inj, eq_comm]

theorem mem_identities_map {own : Identity} : id ∈ (Value.map own entries).identities ↔
    id = own ∨ ∃ entry ∈ entries, id ∈ entry.1.identities ∨ id ∈ entry.2.identities := by
  rw [identities, List.mem_cons, mem_identitiesOfEntries]

/-- The mappings of a value are among its objects. -/
theorem mem_identities_of_mem_mappings (mem : id ∈ v.mappings) : id ∈ v.identities := by
  induction v using byParts with
  | plain v noItems noEntries =>
    rw [mappings_plain noItems noEntries] at mem
    cases mem
  | array v items array ih =>
    rw [mappings_of_elements array, List.mem_flatMap] at mem
    obtain ⟨item, listed, here⟩ := mem
    exact (mem_identities_of_elements array).mpr (.inr ⟨item, listed, ih item listed here⟩)
  | map own entries ih =>
    rw [mappings_map, List.mem_cons, List.mem_flatMap] at mem
    refine mem_identities_map.mpr (mem.imp_right ?_)
    rintro ⟨entry, listed, here⟩
    exact ⟨entry, listed, .inr (ih entry listed here)⟩

/-- Only the identities in a value matter. -/
theorem relabel_congr (same : ∀ id ∈ v.identities, f id = g id) : v.relabel f = v.relabel g := by
  induction v using byPartsAndKeys with
  | plain v noItems noEntries =>
    cases v with
    | foreign id thing => rw [relabel, relabel, same id (by simp [identities])]
    | list | tuple => cases noItems
    | map => cases noEntries
    | _ => rfl
  | array v items array ih =>
    have own (id : Identity) (here : v.identity? = some id) : f id = g id :=
      same id ((mem_identities_of_elements array).mpr (.inl here))
    have each : items.map (relabel f) = items.map (relabel g) :=
      List.map_congr_left fun item listed => ih item listed fun id mem =>
        same id ((mem_identities_of_elements array).mpr (.inr ⟨item, listed, mem⟩))
    cases v <;> cases array <;>
      rw [relabel, relabel, relabelItems_eq_map, relabelItems_eq_map, each, own _ rfl]
  | map own entries ih =>
    have each : entries.map (fun e => (e.1.relabel f, e.2.relabel f)) =
        entries.map (fun e => (e.1.relabel g, e.2.relabel g)) := by
      refine List.map_congr_left fun entry listed => ?_
      obtain ⟨ofKey, ofValue⟩ := ih entry listed
      rw [ofKey fun id mem => same id (mem_identities_map.mpr (.inr ⟨entry, listed, .inl mem⟩)),
        ofValue fun id mem => same id (mem_identities_map.mpr (.inr ⟨entry, listed, .inr mem⟩))]
    rw [relabel, relabel, relabelEntries_eq_map, relabelEntries_eq_map, each,
      same own (mem_identities_map.mpr (.inl rfl))]

/-- A value keeps the identities that stay the same. -/
theorem relabel_of_fixed (fixed : ∀ id ∈ v.identities, f id = id) : v.relabel f = v := by
  rw [relabel_congr (g := fun id => id) fixed]
  clear fixed
  induction v using byPartsAndKeys with
  | plain v noItems noEntries =>
    cases v <;> first | rfl | (cases noItems; done) | cases noEntries
  | array v items array ih =>
    have each : items.map (relabel fun id => id) = items := by
      rw [List.map_congr_left ih, List.map_id']
    cases v <;> cases array <;> rw [relabel, relabelItems_eq_map, each]
  | map own entries ih =>
    have each : entries.map (fun e => (e.1.relabel fun id => id, e.2.relabel fun id => id)) =
        entries := by
      rw [List.map_congr_left fun e listed => by rw [(ih e listed).1, (ih e listed).2],
        List.map_id']
    rw [relabel, relabelEntries_eq_map, each]

theorem relabel_relabel (f g : Identity → Identity) (v : Value) :
    (v.relabel f).relabel g = v.relabel (g ∘ f) := by
  induction v using byPartsAndKeys with
  | plain v noItems noEntries =>
    cases v <;> first | rfl | (cases noItems; done) | cases noEntries
  | array v items array ih =>
    have each : (items.map (relabel f)).map (relabel g) = items.map (relabel (g ∘ f)) := by
      rw [List.map_map]
      exact List.map_congr_left ih
    cases v <;> cases array <;> simp only [relabel, relabelItems_eq_map, each, Function.comp_apply]
  | map own entries ih =>
    have each : relabelEntries g (relabelEntries f entries) = relabelEntries (g ∘ f) entries := by
      simp only [relabelEntries_eq_map, List.map_map]
      refine List.map_congr_left fun e listed => ?_
      rw [Function.comp_apply, (ih e listed).1, (ih e listed).2]
    rw [relabel, relabel, relabel, each, Function.comp_apply]

/-! ## §2 Keys and entries -/

theorem isKey_relabel (name : String) (v : Value) : isKey name (v.relabel f) = isKey name v := by
  cases v <;> rfl

/-- What was one key still is, and no other one is. -/
theorem sameKey_relabel (injective : Function.Injective f) (a b : Value) :
    sameKey (a.relabel f) (b.relabel f) = sameKey a b := by
  have one (i j : Identity) : (f i == f j) = (i == j) := by
    rw [Bool.eq_iff_iff, beq_iff_eq, beq_iff_eq, injective.eq_iff]
  cases a <;> cases b <;>
    first
    | rfl
    | simp [relabel, sameKey, keyNumber?, kind, identity?, one]

theorem relabelEntries_put (injective : Function.Injective f) (k v : Value)
    (entries : List (Value × Value)) : relabelEntries f (put k v entries) =
      put (k.relabel f) (v.relabel f) (relabelEntries f entries) := by
  induction entries with
  | nil => rfl
  | cons entry entries ih =>
    rw [put, relabelEntries, put, sameKey_relabel injective]
    split
    · rfl
    · rw [relabelEntries, ih]

theorem relabelEntries_entriesOf (injective : Function.Injective f)
    (pairs : List (Value × Value)) : relabelEntries f (entriesOf pairs) =
      entriesOf (relabelEntries f pairs) := by
  induction pairs using List.reverseRecOn with
  | nil => rfl
  | append_singleton pairs pair ih =>
    have last : relabelEntries f (pairs ++ [pair]) =
        relabelEntries f pairs ++ [(pair.1.relabel f, pair.2.relabel f)] := by
      simp only [relabelEntries_eq_map, List.map_append, List.map_singleton]
    rw [entriesOf, List.foldl_append, last, entriesOf, List.foldl_append]
    exact (relabelEntries_put injective _ _ _).trans (by rw [← entriesOf, ih]; rfl)

theorem find?_relabelEntries (name : String) (entries : List (Value × Value)) :
    find? name (relabelEntries f entries) = (find? name entries).map (relabel f) := by
  induction entries with
  | nil => rfl
  | cons entry entries ih =>
    rw [relabelEntries, find?_cons, find?_cons, isKey_relabel, ih]
    split <;> rfl

/-! ## §3 Paths and changes -/

theorem along?_relabel (v : Value) (path : List String) :
    (v.relabel f).along? path = (v.along? path).map (relabel f) := by
  induction path generalizing v with
  | nil => rfl
  | cons name path ih =>
    cases v with
    | map id entries =>
      rw [relabel, along?_map, along?_map, find?_relabelEntries]
      cases find? name entries with
      | none => rfl
      | some u => exact ih u
    | _ => rfl

/-- A change is one of the mapping under its other identity. -/
theorem putAt_relabel (injective : Function.Injective f) (v w : Value) (target : Identity)
    (key : String) :
    (v.putAt target key w).relabel f = (v.relabel f).putAt (f target) key (w.relabel f) := by
  induction v using byParts with
  | plain v noItems noEntries =>
    rw [putAt_plain noItems noEntries]
    cases v <;> first | rfl | (cases noItems; done) | cases noEntries
  | array v items array ih =>
    have each : (items.map (·.putAt target key w)).map (relabel f) =
        (items.map (relabel f)).map (·.putAt (f target) key (w.relabel f)) := by
      rw [List.map_map, List.map_map]
      exact List.map_congr_left ih
    cases v <;> cases array <;>
      simp only [putAt, relabel, putAtItems_eq_map, relabelItems_eq_map, each]
  | map id entries ih =>
    have each : relabelEntries f (putAtEntries entries target key w) =
        putAtEntries (relabelEntries f entries) (f target) key (w.relabel f) := by
      simp only [relabelEntries_eq_map, putAtEntries_eq_map, List.map_map]
      exact List.map_congr_left fun e listed => by
        rw [Function.comp_apply, Function.comp_apply, ih e listed]
    rw [putAt_map, relabel, relabel, putAt_map, ← each]
    by_cases here : id = target
    · rw [if_pos here, if_pos (congrArg f here), relabelEntries_put injective]
      rfl
    · rw [if_neg here, if_neg fun same => here (injective same)]

theorem mem_identities_put {k : Value}
    (mem : id ∈ identitiesOfEntries (put k u entries)) :
    id ∈ k.identities ∨ id ∈ u.identities ∨ id ∈ identitiesOfEntries entries := by
  induction entries with
  | nil => simpa [put, identitiesOfEntries] using mem
  | cons entry entries ih =>
    rw [put] at mem
    rw [identitiesOfEntries, List.mem_append, List.mem_append]
    split at mem
    · rw [identitiesOfEntries, List.mem_append, List.mem_append] at mem
      tauto
    · rw [identitiesOfEntries, List.mem_append, List.mem_append] at mem
      tauto

/-- The objects after a change are those of before and those that were put. -/
theorem mem_identities_putAt (mem : id ∈ (v.putAt target key w).identities) :
    id ∈ v.identities ∨ id ∈ w.identities := by
  induction v using byParts with
  | plain v noItems noEntries =>
    rw [putAt_plain noItems noEntries] at mem
    exact .inl mem
  | array v items array ih =>
    have changed := elements?_putAt v target key w
    rw [array, Option.map_some] at changed
    rw [mem_identities_of_elements changed, identity?_putAt] at mem
    rw [mem_identities_of_elements array]
    rcases mem with own | ⟨_, changed, here⟩
    · exact .inl (.inl own)
    · obtain ⟨item, listed, rfl⟩ := List.mem_map.mp changed
      exact (ih item listed here).imp_left fun here => .inr ⟨item, listed, here⟩
  | map own entries ih =>
    have inside (here : id ∈ identitiesOfEntries (putAtEntries entries target key w)) :
        id ∈ identitiesOfEntries entries ∨ id ∈ w.identities := by
      rw [mem_identitiesOfEntries, putAtEntries_eq_map] at here
      obtain ⟨_, changed, here⟩ := here
      obtain ⟨entry, listed, rfl⟩ := List.mem_map.mp changed
      rw [mem_identitiesOfEntries]
      rcases here with here | here
      · exact .inl ⟨entry, listed, .inl here⟩
      · exact (ih entry listed here).imp_left fun here => ⟨entry, listed, .inr here⟩
    rw [putAt_map, identities, List.mem_cons] at mem
    rw [identities, List.mem_cons]
    rcases mem with rfl | mem
    · exact .inl (.inl rfl)
    · split at mem
      · rcases mem_identities_put mem with ofKey | new | here
        · cases ofKey
        · exact .inr new
        · exact (inside here).imp_left .inr
      · exact (inside mem).imp_left .inr

end Value

end Visibility
