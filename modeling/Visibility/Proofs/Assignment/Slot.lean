import Visibility.Proofs.Assignment

/-!
# The slot that an assignment changes

An assignment goes down from the top along the parts of its key.  It is refused if a part that is
there holds something other than a mapping.  Otherwise it changes one slot, which is an entry of the
last mapping that is there on its way: under the next part it puts its value, within a new mapping
for each part that is left.  Every path of keys that does not take this slot leads to what it led to
before, and every path to the changed mapping sees the change.

* `Value.nestedUnder` — a value within new mappings
* `Value.Blocks`, `Value.IsSlot` — where a path of keys is refused, and the slot it ends in
* `Draft.Numbered` — the mappings of a context have numbers below that of the next one
* `Assignment.descend_slot` — going down and putting a value changes the slot
* `Assignment.Brings`, `Assignment.apply_eq_ok_slot` — an assignment as a change of its slot
* `Value.ChangedAt`, `Value.IsSlot.along?_of_nodup` — what is read after a change
* `buildContext_changes_slot` — what one assignment does, whatever was assigned before
-/

namespace Visibility

namespace Value

variable {v w u : Value} {target id : Identity} {key part : String} {n : Nat}
variable {keys path front rest : List String} {entries : List (Value × Value)}

/-! ## §1 New mappings within each other -/

/-- The value within new mappings, one for each key, which are numbered on from the outside in. -/
def nestedUnder (v : Value) (n : Nat) : List String → Value
  | [] => v
  | key :: keys => .map (.assembled n) [(.string key, v.nestedUnder (n + 1) keys)]

theorem along?_singleton (id : Identity) (entries : List (Value × Value)) (key : String) :
    (Value.map id entries).along? [key] = find? key entries := by
  rw [along?_map]
  cases find? key entries <;> rfl

theorem find?_singleton (name key : String) (v : Value) :
    find? name [(.string key, v)] = if key = name then some v else none := by
  rw [find?_cons]
  simp only [isKey, beq_iff_eq]
  rfl

/-- The keys lead to the value. -/
theorem along?_nestedUnder (v : Value) (n : Nat) (keys : List String) :
    (v.nestedUnder n keys).along? keys = some v := by
  induction keys generalizing n with
  | nil => rfl
  | cons key keys ih =>
    rw [nestedUnder, along?_map, find?_singleton, if_pos rfl]
    exact ih (n + 1)

/-- A path of other keys leads to nothing. -/
theorem along?_nestedUnder_eq_none (v : Value) (n : Nat) (before : ¬path <+: keys)
    (beyond : ¬keys <+: path) : (v.nestedUnder n keys).along? path = none := by
  induction keys generalizing n path with
  | nil => exact absurd List.nil_prefix beyond
  | cons key keys ih =>
    cases path with
    | nil => exact absurd List.nil_prefix before
    | cons name path =>
      rw [nestedUnder, along?_map, find?_singleton]
      split
      · rename_i same
        subst same
        rw [List.cons_prefix_cons] at before beyond
        exact ih (n + 1) (fun h => before ⟨rfl, h⟩) (fun h => beyond ⟨rfl, h⟩)
      · rfl

/-- The mappings are new, or those of the value. -/
theorem mem_mappings_nestedUnder (mem : id ∈ (v.nestedUnder n keys).mappings) :
    (∃ m, n ≤ m ∧ m < n + keys.length ∧ id = .assembled m) ∨ id ∈ v.mappings := by
  induction keys generalizing n with
  | nil => exact .inr mem
  | cons key keys ih =>
    rw [nestedUnder, mappings_map, List.flatMap_singleton, List.mem_cons] at mem
    rw [List.length_cons]
    rcases mem with rfl | mem
    · exact .inl ⟨n, Nat.le_refl n, by omega, rfl⟩
    · exact (ih mem).imp_left fun ⟨m, above, below, same⟩ => ⟨m, by omega, by omega, same⟩

theorem putAt_map_nil (id : Identity) (key : String) (w : Value) :
    (Value.map id []).putAt id key w = .map id [(.string key, w)] := by
  rw [putAt_map, if_pos rfl]
  rfl

/-! ## §2 The way down -/

/-- On the way along the keys, the given part is there and holds something other than a mapping. -/
def Blocks (v : Value) (keys : List String) (part : String) : Prop :=
  ∃ front rest u, keys = front ++ part :: rest ∧ v.along? (front ++ [part]) = some u ∧
    u.entries? = none

/-- The slot in which a path of keys ends: the keys in front lead to the mapping, and the key either
is the last one or has nothing under it. -/
structure IsSlot (v : Value) (keys front : List String) (target : Identity) (key : String)
    (rest : List String) : Prop where
  split : keys = front ++ key :: rest
  reached : ∃ entries, v.along? front = some (.map target entries)
  missing : rest ≠ [] → v.along? (front ++ [key]) = none

theorem Blocks.cons (found : find? key entries = some v) (h : v.Blocks keys part) :
    (Value.map id entries).Blocks (key :: keys) part := by
  obtain ⟨front, rest, u, rfl, leads, noMap⟩ := h
  refine ⟨key :: front, rest, u, rfl, ?_, noMap⟩
  rw [List.cons_append, along?_map, found]
  exact leads

theorem IsSlot.cons {name : String} (found : find? name entries = some v)
    (h : v.IsSlot keys front target key rest) :
    (Value.map id entries).IsSlot (name :: keys) (name :: front) target key rest where
  split := by rw [h.split, List.cons_append]
  reached := by
    obtain ⟨entries', leads⟩ := h.reached
    refine ⟨entries', ?_⟩
    rw [along?_map, found]
    exact leads
  missing more := by
    rw [List.cons_append, along?_map, found]
    exact h.missing more

/-- A path to a slot goes no further than to what is missing. -/
theorem IsSlot.not_beyond {more : List String} (slot : v.IsSlot keys front target key rest)
    (left : rest ≠ []) : v.along? (front ++ key :: more) = none := by
  cases found : v.along? (front ++ key :: more) with
  | none => rfl
  | some u =>
    rw [List.append_cons] at found
    obtain ⟨_, there, -⟩ := along?_append_eq_some found
    cases (slot.missing left).symm.trans there

/-- A path of keys has one slot. -/
theorem IsSlot.unique {front' rest' : List String} {target' : Identity} {key' : String}
    (slot : v.IsSlot keys front target key rest) (slot' : v.IsSlot keys front' target' key' rest') :
    front = front' ∧ target = target' ∧ key = key' ∧ rest = rest' := by
  obtain ⟨entries, leads⟩ := slot.reached
  obtain ⟨entries', leads'⟩ := slot'.reached
  -- If one of the two were further down, the other one would be missing something on its way.
  rcases List.append_eq_append_iff.mp (slot.split.symm.trans slot'.split) with
    ⟨more, rfl, same⟩ | ⟨more, rfl, same⟩
  · cases more with
    | nil =>
      rw [List.append_nil] at leads'
      cases leads.symm.trans leads'
      cases same
      exact ⟨(List.append_nil _).symm, rfl, rfl, rfl⟩
    | cons name more =>
      obtain ⟨rfl, rfl⟩ := List.cons.inj same
      cases (slot.not_beyond (by simp)).symm.trans leads'
  · cases more with
    | nil =>
      rw [List.append_nil] at leads
      cases leads.symm.trans leads'
      cases same
      exact ⟨List.append_nil _, rfl, rfl, rfl⟩
    | cons name more =>
      obtain ⟨rfl, rfl⟩ := List.cons.inj same
      cases (slot'.not_beyond (by simp)).symm.trans leads

/-- A key with a slot is not blocked. -/
theorem IsSlot.not_blocks {parents : List String} {leaf : String}
    (slot : v.IsSlot (parents ++ [leaf]) front target key rest) : ¬v.Blocks parents part := by
  rintro ⟨upper, lower, u, rfl, there, noMap⟩
  obtain ⟨entries, leads⟩ := slot.reached
  have split := slot.split
  rw [List.append_assoc, List.cons_append] at split
  rcases List.append_eq_append_iff.mp split with ⟨more, rfl, same⟩ | ⟨more, rfl, same⟩
  · cases more with
    | nil =>
      obtain ⟨rfl, rfl⟩ := List.cons.inj same
      have missing := slot.missing (by simp)
      rw [List.append_nil] at missing
      cases missing.symm.trans there
    | cons name more =>
      -- The way to the slot does not go through what is no mapping.
      obtain ⟨rfl, -⟩ := List.cons.inj same
      rw [List.append_cons, along?_append there] at leads
      exact not_holds_of_entries? noMap ⟨more, entries, leads⟩
  · cases more with
    | nil =>
      obtain ⟨rfl, rfl⟩ := List.cons.inj same
      have missing := slot.missing (by simp)
      rw [List.append_nil] at there
      cases missing.symm.trans there
    | cons name more =>
      obtain ⟨rfl, rfl⟩ := List.cons.inj same
      rw [List.append_assoc, List.cons_append] at there
      cases (slot.not_beyond (by simp)).symm.trans there

end Value

namespace Draft

variable {d d' : Draft} {target : Identity} {key : String} {v : Value} {objects : Nat}

/-- The mappings of a context that were made or read for it have numbers below that of the next
one. -/
def Numbered (d : Draft) : Prop :=
  ∀ n, .assembled n ∈ d.root.mappings → n < d.objects

theorem Numbered.not_mem (numbered : d.Numbered) {m : Nat} (le : d.objects ≤ m) :
    .assembled m ∉ d.root.mappings :=
  fun mem => absurd (numbered m mem) (Nat.not_lt.mpr le)

/-- A value whose mappings are old ones or are numbered on keeps the context numbered. -/
theorem Numbered.of_putAt (numbered : d.Numbered) (root : d'.root = d.root.putAt target key v)
    (le : d.objects ≤ d'.objects)
    (new : ∀ n, .assembled n ∈ v.mappings → n < d'.objects) : d'.Numbered := by
  intro n mem
  rw [root] at mem
  rcases Value.mem_mappings_putAt mem with old | mem
  · exact Nat.lt_of_lt_of_le (numbered n old) le
  · exact new n mem

/-- A context is its top mapping, with the number of the next object. -/
theorem eq_of_root (root : d.root = d'.root) (objects : d.objects = d'.objects) : d = d' := by
  cases d
  cases d'
  cases root
  cases objects
  rfl

/-- The context with a new mapping under a part that is missing. -/
def make (d : Draft) (id : Identity) (part : String) : Draft :=
  { d.put id part (.map (.assembled d.objects) []) with objects := d.objects + 1 }

theorem root_make (d : Draft) (id : Identity) (part : String) :
    (d.make id part).root = d.root.putAt id part (.map (.assembled d.objects) []) :=
  root_put d id part _

theorem Numbered.make (numbered : d.Numbered) (id : Identity) (part : String) :
    (d.make id part).Numbered := by
  refine numbered.of_putAt (root_make d id part) (Nat.le_succ _) fun n mem => ?_
  rw [Value.mappings_map, List.flatMap_nil, List.mem_singleton] at mem
  rw [Identity.assembled.inj mem]
  exact Nat.lt_succ_self _

/-- What is put into the new mapping comes with it. -/
theorem putAt_root_make (numbered : d.Numbered) (id : Identity) (part key : String) (w : Value) :
    (d.make id part).root.putAt (.assembled d.objects) key w =
      d.root.putAt id part (.map (.assembled d.objects) [(.string key, w)]) := by
  rw [root_make, Value.putAt_putAt (numbered.not_mem (Nat.le_refl _)), Value.putAt_map_nil]

end Draft

namespace Assignment

variable {d d' : Draft} {a : Assignment} {id : Identity} {entries : List (Value × Value)}
variable {part leaf : String} {parts : List String}

/-! ## §3 Going down -/

theorem descend_cons_missing (missing : Value.find? part entries = none) (parts : List String) :
    descend d id entries (part :: parts) =
      descend (d.make id part) (.assembled d.objects) [] parts := by
  rw [descend, missing]
  rfl

theorem descend_cons_found {next : Identity} {entries' : List (Value × Value)}
    (found : Value.find? part entries = some (.map next entries')) (parts : List String) :
    descend d id entries (part :: parts) = descend d next entries' parts := by
  rw [descend, found]

/-- From a part that is missing on, a mapping is made for each part, and the value is put into the
last one. -/
theorem descend_missing (numbered : d.Numbered) (id : Identity)
    (missing : Value.find? part entries = none) (parts : List String) (leaf : String) :
    ∃ d₁ target, descend d id entries (part :: parts) = .ok (d₁, target) ∧
      d₁.objects = d.objects + (parts ++ [leaf]).length ∧
      ∀ v, (d₁.put target leaf v).root =
        d.root.putAt id part (v.nestedUnder d.objects (parts ++ [leaf])) := by
  rw [descend_cons_missing missing]
  induction parts generalizing d id entries part with
  | nil =>
    refine ⟨d.make id part, .assembled d.objects, rfl, rfl, fun v => ?_⟩
    rw [Draft.root_put, Draft.putAt_root_make numbered]
    rfl
  | cons next parts ih =>
    rw [descend_cons_missing rfl]
    -- The mapping that was just made is empty, so the next part is missing as well.
    have nothing : Value.find? next [] = none := rfl
    obtain ⟨d₁, target, down, objects, put⟩ :=
      ih (numbered.make id part) (.assembled d.objects) nothing
    refine ⟨d₁, target, down, ?_, fun v => ?_⟩
    · rw [objects]
      simp only [Draft.make, List.cons_append, List.length_cons]
      omega
    · rw [put, Draft.putAt_root_make numbered]
      rfl

/-- A part that is blocked ends the way down. -/
theorem descend_of_blocks (blocked : (Value.map id entries).Blocks parts part) :
    descend d id entries parts = .error part := by
  obtain ⟨front, rest, u, rfl, leads, noMap⟩ := blocked
  induction front generalizing id entries with
  | nil =>
    rw [List.nil_append, Value.along?_singleton] at leads
    rw [List.nil_append, descend, leads]
    cases u <;> first | rfl | cases noMap
  | cons name front ih =>
    rw [List.cons_append] at leads
    obtain ⟨_, _, w, same, found, on⟩ := Value.along?_cons_eq_some leads
    cases same
    -- Only a mapping has something under the parts that are left.
    obtain ⟨first, others, split⟩ := List.exists_cons_of_ne_nil (List.concat_ne_nil part front)
    have below := on
    rw [split] at below
    obtain ⟨next, entries', _, rfl, _⟩ := Value.along?_cons_eq_some below
    rw [List.cons_append, descend_cons_found found]
    exact ih on

/-- Going down is refused for a part that is blocked, or leads to the slot of the whole key. -/
theorem descend_slot (numbered : d.Numbered) (id : Identity) (entries : List (Value × Value))
    (parts : List String) (leaf : String) :
    (∃ part, (Value.map id entries).Blocks parts part ∧ descend d id entries parts = .error part) ∨
      ∃ front target key rest, (Value.map id entries).IsSlot (parts ++ [leaf]) front target key rest ∧
        ∃ d₁ last, descend d id entries parts = .ok (d₁, last) ∧
          d₁.objects = d.objects + rest.length ∧
          ∀ v, (d₁.put last leaf v).root =
            d.root.putAt target key (v.nestedUnder d.objects rest) := by
  induction parts generalizing id entries with
  | nil =>
    have slot : (Value.map id entries).IsSlot [leaf] [] id leaf [] :=
      ⟨rfl, ⟨entries, rfl⟩, fun more => absurd rfl more⟩
    exact .inr ⟨_, _, _, _, slot, d, id, rfl, rfl, fun v => Draft.root_put d id leaf v⟩
  | cons part parts ih =>
    cases found : Value.find? part entries with
    | none =>
      -- The way ends here, and every part that is left gets a mapping of its own.
      have missing : (Value.map id entries).along? [part] = none :=
        (Value.along?_singleton id entries part).trans found
      have slot : (Value.map id entries).IsSlot (part :: parts ++ [leaf]) [] id part
          (parts ++ [leaf]) := ⟨rfl, ⟨entries, rfl⟩, fun _ => missing⟩
      exact .inr ⟨_, _, _, _, slot, descend_missing numbered id found parts leaf⟩
    | some w =>
      cases w with
      | map next entries' =>
        rw [descend_cons_found found]
        rcases ih next entries' with ⟨blocked, blocks, refused⟩ | ⟨front, target, key, rest, slot, reached⟩
        · exact .inl ⟨blocked, blocks.cons found, refused⟩
        · exact .inr ⟨_, _, _, _, slot.cons found, reached⟩
      | _ =>
        -- What is under the part is no mapping.
        have blocks : (Value.map id entries).Blocks (part :: parts) part :=
          ⟨[], parts, _, rfl, (Value.along?_singleton id entries part).trans found, rfl⟩
        exact .inl ⟨part, blocks, descend_of_blocks blocks⟩

/-- An assignment is refused for a part exactly if this part is blocked. -/
theorem apply_eq_blockedKey (numbered : d.Numbered) :
    a.apply d = .error (.blockedKey a.key part) ↔ d.root.Blocks a.parents part := by
  constructor
  · intro refused
    rcases descend_slot numbered d.id d.entries a.parents a.leaf with
      ⟨blocked, blocks, down⟩ | ⟨_, _, _, _, _, d₁, last, down, -⟩
    · rw [apply, down] at refused
      cases refused
      exact blocks
    · rw [apply, down] at refused
      dsimp only at refused
      split at refused <;> cases refused
  · intro blocks
    rw [apply, descend_of_blocks blocks]

/-- An assignment that is not blocked reads its value and puts it into a slot. -/
theorem apply_slot (numbered : d.Numbered) (free : ∀ part, ¬d.root.Blocks a.parents part) :
    ∃ front target key rest, d.root.IsSlot (a.parents ++ [a.leaf]) front target key rest ∧
      (∀ cause, Document.read .assembled (d.objects + rest.length) a.value = .error cause →
        a.apply d = .error
          (if cause = .malformed then .invalidValue a.text else .unreadableValue cause)) ∧
      ∀ v n, Document.read .assembled (d.objects + rest.length) a.value = .ok (v, n) →
        ∃ d', a.apply d = .ok d' ∧ d'.objects = n ∧
          d'.root = d.root.putAt target key (v.nestedUnder d.objects rest) := by
  rcases descend_slot numbered d.id d.entries a.parents a.leaf with
    ⟨part, blocks, -⟩ | ⟨front, target, key, rest, slot, d₁, last, down, objects, put⟩
  · exact absurd blocks (free part)
  · refine ⟨front, target, key, rest, slot, fun cause failed => ?_, fun v n read => ?_⟩
    · rw [apply, down]
      dsimp only
      rw [objects, failed]
      cases cause <;> rfl
    · have applied : a.apply d = .ok { d₁.put last a.leaf v with objects := n } :=
        apply_eq_ok.mpr ⟨d₁, last, v, n, down, objects ▸ read, rfl⟩
      exact ⟨_, applied, rfl, put v⟩

/-- The keys of the mappings that an assignment comes by, and the last one. -/
def keys (a : Assignment) : List String :=
  a.parents ++ [a.leaf]

/-- What an assignment puts into a slot with these keys left, if the next object has the number `n`,
and the number of the next object afterwards. -/
def Brings (a : Assignment) (n : Nat) (rest : List String) (w : Value) (n' : Nat) : Prop :=
  ∃ v, Document.read .assembled (n + rest.length) a.value = .ok (v, n') ∧ w = v.nestedUnder n rest

/-- An assignment is a change of its slot. -/
theorem apply_eq_ok_slot (numbered : d.Numbered) : a.apply d = .ok d' ↔
    ∃ front target key rest w, d.root.IsSlot a.keys front target key rest ∧
      a.Brings d.objects rest w d'.objects ∧ d'.root = d.root.putAt target key w := by
  constructor
  · intro applied
    have free (part : String) : ¬d.root.Blocks a.parents part := by
      intro blocks
      rw [← apply_eq_blockedKey numbered, applied] at blocks
      cases blocks
    obtain ⟨front, target, key, rest, slot, failed, put⟩ := apply_slot numbered free
    cases read : Document.read .assembled (d.objects + rest.length) a.value with
    | error cause =>
      rw [failed cause read] at applied
      cases applied
    | ok value =>
      obtain ⟨d₁, same, objects, root⟩ := put _ _ read
      cases same.symm.trans applied
      exact ⟨front, target, key, rest, _, slot, ⟨value.1, objects ▸ read, rfl⟩, root⟩
  · rintro ⟨front, target, key, rest, w, slot, ⟨v, read, rfl⟩, root⟩
    -- A key has one slot only, so the one that is found is the one that is given.
    obtain ⟨_, _, _, _, slot', -, put⟩ := apply_slot (a := a) numbered fun _ => slot.not_blocks
    obtain ⟨rfl, rfl, rfl, rfl⟩ := slot.unique slot'
    obtain ⟨d₁, applied, objects, root'⟩ := put _ _ read
    rw [applied, Draft.eq_of_root (root'.trans root.symm) objects]

theorem apply_numbered (numbered : d.Numbered) (applied : a.apply d = .ok d') : d'.Numbered := by
  obtain ⟨_, _, _, rest, _, -, ⟨v, read, rfl⟩, root⟩ := (apply_eq_ok_slot numbered).mp applied
  obtain ⟨le, new⟩ := Document.read_mappings read
  refine numbered.of_putAt root (by omega) fun m mem => ?_
  rcases Value.mem_mappings_nestedUnder mem with ⟨k, -, below, same⟩ | mem
  · cases same
    omega
  · obtain ⟨k, -, below, same⟩ := new _ mem
    cases same
    omega

end Assignment

/-! ## §4 What is read afterwards -/

namespace Value

variable {before after v w u : Value} {target id : Identity} {key : String} {n : Nat}
variable {keys path front rest : List String} {entries : List (Value × Value)}

/-- What is read in a value after the mapping got the new value under the key. -/
structure ChangedAt (before after : Value) (target : Identity) (key : String) (w : Value) :
    Prop where
  /-- Another path leads to what it led to, in which only the slot has changed. -/
  elsewhere : ∀ path, ¬before.Passes target key path →
    after.along? path = (before.along? path).map (·.putAt target key w)
  /-- So it leads to the same object, -/
  sameObject : ∀ path, ¬before.Passes target key path →
    (after.along? path).map identity? = (before.along? path).map identity?
  /-- and to the very same value if the mapping is no part of it. -/
  unchanged : ∀ path u, ¬before.Passes target key path → before.along? path = some u →
    target ∉ u.mappings → after.along? path = some u
  /-- Every path to the mapping sees the new value under the key. -/
  everywhere : ∀ path entries, after.along? path = some (.map target entries) →
    ∀ more, after.along? (path ++ key :: more) = w.along? more

theorem changedAt_putAt (apart : target ∉ w.mappings) :
    before.ChangedAt (before.putAt target key w) target key w where
  elsewhere path other := along?_putAt other w
  sameObject path other := by
    rw [along?_putAt other w]
    cases before.along? path with
    | none => rfl
    | some u => exact congrArg some (identity?_putAt u target key w)
  unchanged path u other leads notIn := by
    rw [along?_putAt other w, leads, Option.map_some, putAt_of_not_mem notIn]
  everywhere path entries leads more := by
    rcases along?_putAt_eq_some leads with ⟨u, leads₀, same⟩ | ⟨_, rest, _, _, _, _, on⟩
    · obtain ⟨entries₀, rfl⟩ := putAt_eq_map same.symm
      rw [along?_append leads, same]
      exact along?_putAt_through rfl not_passes_nil w more
    · -- The new value has no path to the mapping.
      exact absurd (mem_mappings_of_along? on) apart

theorem not_passes_of_not_mem (notIn : key ∉ path) : ¬v.Passes target key path := by
  rintro ⟨first, more, _, rfl, -⟩
  exact notIn (by simp)

/-- A path to the mapping has a beginning that leads to it for the first time. -/
theorem exists_first (leads : before.along? path = some (.map target entries)) (key : String) :
    ∃ first entries, first <+: path ∧ before.along? first = some (.map target entries) ∧
      ¬before.Passes target key first := by
  induction length : path.length using Nat.strong_induction_on generalizing path entries with
  | _ length' ih =>
    by_cases passes : before.Passes target key path
    · obtain ⟨first, others, entries', rfl, leads'⟩ := passes
      have shorter : first.length < length' := by
        rw [← length, List.length_append, List.length_cons]
        omega
      obtain ⟨start, entries'', isStart, there⟩ := ih _ shorter leads' rfl
      exact ⟨start, entries'', isStart.trans (List.prefix_append ..), there⟩
    · exact ⟨path, entries, List.prefix_rfl, leads, passes⟩

/-- Where no mapping is shared, a path takes the slot only if it starts like the path to it. -/
theorem Passes.split_of_nodup (unshared : before.mappings.Nodup)
    (leads : before.along? front = some (.map target entries))
    (passes : before.Passes target key path) : ∃ more, path = front ++ key :: more := by
  obtain ⟨first, more, entries', rfl, leads'⟩ := passes
  have here {es : List (Value × Value)} : target ∈ (Value.map target es).mappings := by
    simp [mappings_map]
  -- Each of the two paths to the mapping is a beginning of the other one.
  have forth : first <+: front := isPrefix_of_mem unshared leads' here leads
  have back : front <+: first := isPrefix_of_mem unshared leads here leads'
  rw [forth.eq_of_length_le back.length_le]
  exact ⟨more, rfl⟩

/-- Where no mapping is shared, a change of a slot is seen only on paths that the path to the slot
begins with, and on those that go on from it. -/
theorem IsSlot.along?_of_nodup (slot : before.IsSlot keys front target key rest)
    (unshared : before.mappings.Nodup) (above : ¬path <+: keys) (below : ¬keys <+: path) :
    (before.putAt target key (v.nestedUnder n rest)).along? path = before.along? path := by
  obtain ⟨entries, leads⟩ := slot.reached
  have split := slot.split
  by_cases passes : before.Passes target key path
  · obtain ⟨more, rfl⟩ := passes.split_of_nodup unshared leads
    have first : ¬before.Passes target key front :=
      (loopFree_of_nodup unshared).not_passes leads
    rw [split, List.prefix_append_right_inj, List.cons_prefix_cons] at above below
    rw [along?_putAt_through leads first, along?_nestedUnder_eq_none v n
      (fun h => above ⟨rfl, h⟩) (fun h => below ⟨rfl, h⟩)]
    -- There was nothing under the key, since the path to the slot goes on from it.
    refine (slot.not_beyond ?_).symm
    rintro rfl
    exact below ⟨rfl, List.nil_prefix⟩
  · rw [along?_putAt passes]
    cases found : before.along? path with
    | none => rfl
    | some u =>
      refine congrArg some (putAt_of_not_mem fun mem => above ?_)
      rw [split]
      exact (isPrefix_of_mem unshared found mem leads).trans (List.prefix_append ..)

end Value

/-! ## §5 One assignment after others -/

namespace Draft

variable {d d' : Draft} {tree : FileTree} {file : Option Path} {texts : List String} {text : String}

/-- The documents of files hold no mappings that were made or read for a context. -/
def StartsApart (tree : FileTree) (file : Option Path) : Prop :=
  ∀ f v, file = some f → tree.read f = .ok (.document v) → ∀ n, .assembled n ∉ v.mappings

theorem numbered_ofEntries {id : Identity} {entries : List (Value × Value)}
    (apart : ∀ n, .assembled n ∉ (Value.map id entries).mappings) :
    (ofEntries entries).Numbered := by
  intro n mem
  rw [root, Value.mappings_map, List.mem_cons] at mem
  rcases mem with same | mem
  · -- The top mapping is the first one that is made.
    cases same
    exact Nat.one_pos
  · refine absurd ?_ (apart n)
    rw [Value.mappings_map]
    exact List.mem_cons_of_mem _ mem

theorem numbered_ofFile? (apart : StartsApart tree file) (start : ofFile? tree file = .ok d) :
    d.Numbered := by
  obtain ⟨entries, rfl, rfl | ⟨f, id, rfl, read⟩⟩ := ofFile?_eq_ok start
  · have nothing (n : Nat) : .assembled n ∉ (Value.map (.given 0) []).mappings := by
      simp [Value.mappings_map]
    exact numbered_ofEntries nothing
  · exact numbered_ofEntries (apart f _ rfl read)

theorem assign_numbered (numbered : d.Numbered) (assigned : d.assign texts = .ok d') :
    d'.Numbered := by
  induction texts generalizing d with
  | nil =>
    cases assigned
    exact numbered
  | cons text texts ih =>
    obtain ⟨a, d₁, -, applied, others⟩ := assign_cons_eq_ok.mp assigned
    exact ih (Assignment.apply_numbered numbered applied) others

/-- After assignments that go well, the next one decides how the building ends. -/
theorem assign_concat {a : Assignment} (assigned : d.assign texts = .ok d')
    (split : Assignment.ofText? text = some a) : d.assign (texts ++ [text]) = a.apply d' := by
  induction texts generalizing d with
  | nil =>
    cases assigned
    simp only [List.nil_append, assign, split]
    cases a.apply d' <;> rfl
  | cons first texts ih =>
    obtain ⟨b, d₁, splitFirst, applied, others⟩ := assign_cons_eq_ok.mp assigned
    simp only [List.cons_append, assign, splitFirst, applied]
    exact ih others

end Draft

theorem buildContext_concat {tree : FileTree} {file : Option Path} {earlier : List String}
    {text : String} {a : Assignment} {before : Value} (apart : Draft.StartsApart tree file)
    (built : buildContext tree file earlier = .ok before)
    (split : Assignment.ofText? text = some a) :
    ∃ d : Draft, d.root = before ∧ d.Numbered ∧
      buildContext tree file (earlier ++ [text]) = (a.apply d).map (·.root) := by
  obtain ⟨d, d', start, assigned, rfl⟩ := buildContext_eq_ok.mp built
  have numbered : d'.Numbered :=
    Draft.assign_numbered (Draft.numbered_ofFile? apart start) assigned
  refine ⟨d', rfl, numbered, ?_⟩
  simp only [buildContext, start, Draft.assign_concat assigned split]

end Visibility
