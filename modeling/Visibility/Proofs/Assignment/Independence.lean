import Visibility.Proofs.Assignment.Slot
import Visibility.Proofs.Assembly.Relabelling

/-!
# Slots that stay where they are

If only one way leads to each mapping that an assignment comes by, then an assignment to another key
leaves its slot alone, as long as neither of the two keys goes on from the other one.  And since
what an assignment puts has new objects only, there still is only one way afterwards.

* `Value.SingleWay` — no other path leads to the mappings on the way along the keys
* `Value.IsSlot.putAt`, `Value.Blocks.putAt` — what another change leaves alone
* `Assignment.brings_add` — what an assignment puts, with greater numbers
* `Assignment.apply_make` — making a mapping before the assignment that would make it
* `Assignment.singleWay_apply` — the ways that an assignment leaves single
-/

namespace Visibility

namespace Value

variable {v w u : Value} {target target' id : Identity} {key key' part : String} {n : Nat}
variable {keys keys' path front front' rest rest' : List String} {entries : List (Value × Value)}

/-! ## §1 Single ways -/

/-- To each mapping on the way along the keys, this way leads and no other path. -/
def SingleWay (v : Value) (keys : List String) : Prop :=
  ∀ front id entries, front <+: keys → v.along? front = some (.map id entries) →
    ∀ path entries', v.along? path = some (.map id entries') → path = front

/-- Where no mapping is shared, every way is single. -/
theorem singleWay_of_nodup (unshared : v.mappings.Nodup) (keys : List String) :
    v.SingleWay keys := by
  intro front id entries _ leads path entries' leads'
  have here {es : List (Value × Value)} : id ∈ (Value.map id es).mappings := by
    simp [mappings_map]
  have forth : path <+: front := isPrefix_of_mem unshared leads' here leads
  have back : front <+: path := isPrefix_of_mem unshared leads here leads'
  exact forth.eq_of_length_le back.length_le

theorem singleWay_map_nil (id : Identity) (keys : List String) : (Value.map id []).SingleWay keys :=
  fun _ _ _ _ leads _ _ leads' =>
    (along?_map_nil leads').1.trans (along?_map_nil leads).1.symm

/-- New mappings keep a way single, if it is single in them too. -/
theorem SingleWay.putAt (single : v.SingleWay keys) (apart : ∀ id ∈ v.mappings, id ∉ w.mappings)
    (within : ∀ front rest entries, keys = front ++ key :: rest →
      v.along? front = some (.map target entries) → w.SingleWay rest) :
    (v.putAt target key w).SingleWay keys := by
  intro front id entries isFront leads path entries' leads'
  -- A mapping is one of before or one of those that are put, and so two paths to it both are.
  rcases along?_putAt_eq_some leads with
    ⟨u, old, same⟩ | ⟨before, after, es, rfl, atTarget, -, new⟩
  · obtain ⟨_, rfl⟩ := putAt_eq_map same.symm
    rcases along?_putAt_eq_some leads' with ⟨u', old', same'⟩ | ⟨_, _, _, _, _, _, new'⟩
    · obtain ⟨_, rfl⟩ := putAt_eq_map same'.symm
      exact single _ _ _ isFront old _ _ old'
    · exact absurd (mem_mappings_of_along? new') (apart id (mem_mappings_of_along? old))
  · rcases along?_putAt_eq_some leads' with
      ⟨u', old', same'⟩ | ⟨before', after', es', rfl, atTarget', -, new'⟩
    · obtain ⟨_, rfl⟩ := putAt_eq_map same'.symm
      exact absurd (mem_mappings_of_along? new) (apart id (mem_mappings_of_along? old'))
    · obtain ⟨more, rfl⟩ := isFront
      have isBefore : before <+: before ++ key :: after ++ more :=
        (List.prefix_append before _).trans (List.prefix_append _ more)
      obtain rfl := single _ _ _ isBefore atTarget _ _ atTarget'
      have inside := within before' (after ++ more) es (by simp) atTarget
      rw [inside after id entries (List.prefix_append after more) new after' entries' new']

theorem along?_cons_singleton {name : String}
    (leads : (Value.map id [(.string key, v)]).along? (name :: path) = some u) :
    name = key ∧ v.along? path = some u := by
  rw [along?_map, find?_singleton] at leads
  split at leads
  · rename_i same
    exact ⟨same.symm, leads⟩
  · cases leads

/-- The mappings around a value are new, so that only one way leads to each of them. -/
theorem singleWay_nestedUnder (n : Nat) (new : ∀ m, .assembled m ∈ v.mappings → n + keys.length ≤ m)
    (beyond : ¬keys <+: keys') : (v.nestedUnder n keys).SingleWay keys' := by
  induction keys generalizing n keys' with
  | nil => exact absurd List.nil_prefix beyond
  | cons key keys ih =>
    rw [List.length_cons] at new
    -- The outermost mapping is not within itself.
    have outside : .assembled n ∉ (v.nestedUnder (n + 1) keys).mappings := by
      intro mem
      rcases mem_mappings_nestedUnder mem with ⟨m, above, -, same⟩ | mem
      · cases same
        omega
      · have := new n mem
        omega
    intro front id entries isFront leads path entries' leads'
    cases front with
    | nil =>
      cases leads
      cases path with
      | nil => rfl
      | cons name path =>
        exact absurd (mem_mappings_of_along? (along?_cons_singleton leads').2) outside
    | cons name front =>
      obtain ⟨rfl, below⟩ := along?_cons_singleton leads
      cases path with
      | nil =>
        cases leads'
        exact absurd (mem_mappings_of_along? below) outside
      | cons name' path =>
        obtain ⟨rfl, below'⟩ := along?_cons_singleton leads'
        obtain ⟨more, rfl⟩ := isFront
        have further : ¬keys <+: front ++ more := fun h =>
          beyond (List.cons_prefix_cons.mpr ⟨rfl, h⟩)
        have new' (m : Nat) (mem : .assembled m ∈ v.mappings) : n + 1 + keys.length ≤ m := by
          have := new m mem
          omega
        rw [ih (n + 1) new' further front id entries (List.prefix_append _ _) below path entries'
          below']

/-! ## §2 Another change -/

theorem IsSlot.isPrefix (slot : v.IsSlot keys front target key rest) : front <+: keys := by
  rw [slot.split]
  exact List.prefix_append _ _

theorem IsSlot.mem_mappings (slot : v.IsSlot keys front target key rest) : target ∈ v.mappings := by
  obtain ⟨entries, leads⟩ := slot.reached
  exact mem_mappings_of_along? leads

/-- A path that leads somewhere and does not go on from the key takes its slot only if another way
leads there. -/
theorem IsSlot.not_passes (slot : v.IsSlot keys front target key rest) (single : v.SingleWay keys)
    (leads : v.along? path = some u) (beyond : ¬keys <+: path) : ¬v.Passes target key path := by
  rintro ⟨before, after, entries, rfl, atTarget⟩
  obtain ⟨entries', reached⟩ := slot.reached
  obtain rfl := single _ _ _ slot.isPrefix reached _ _ atTarget
  by_cases left : rest = []
  · refine beyond ?_
    rw [slot.split, left, List.prefix_append_right_inj, List.cons_prefix_cons]
    exact ⟨rfl, List.nil_prefix⟩
  · cases (slot.not_beyond left).symm.trans leads

/-- The slot of another key stays a slot. -/
theorem IsSlot.putAt (slot : v.IsSlot keys front target key rest)
    (slot' : v.IsSlot keys' front' target' key' rest') (single' : v.SingleWay keys')
    (beyond : ¬keys' <+: keys) (different : target = target' → key ≠ key') (w : Value) :
    (v.putAt target' key' w).IsSlot keys front target key rest := by
  obtain ⟨entries, leads⟩ := slot.reached
  have notFront : ¬v.Passes target' key' front :=
    slot'.not_passes single' leads fun h => beyond (h.trans slot.isPrefix)
  refine ⟨slot.split, ?_, fun left => ?_⟩
  · rw [along?_putAt notFront, leads, Option.map_some, putAt_map]
    exact ⟨_, rfl⟩
  · rw [along?_putAt, slot.missing left, Option.map_none]
    rintro ⟨before, after, es, split, atTarget⟩
    rcases List.eq_nil_or_concat after with rfl | ⟨after, last, rfl⟩
    · -- The last key is the other one, of the same mapping.
      obtain ⟨rfl, same⟩ := List.append_inj' split rfl
      cases leads.symm.trans atTarget
      exact different rfl (List.cons.inj same).1
    · rw [List.concat_eq_append, ← List.cons_append, ← List.append_assoc] at split
      obtain ⟨same, -⟩ := List.append_inj' split rfl
      exact notFront ⟨before, after, es, same, atTarget⟩

/-- What blocks a key stays there. -/
theorem Blocks.putAt (blocks : v.Blocks path part)
    (slot : v.IsSlot keys front target key rest) (single : v.SingleWay keys)
    (beyond : ¬keys <+: path) (w : Value) : (v.putAt target key w).Blocks path part := by
  obtain ⟨before, after, u, rfl, leads, noMap⟩ := blocks
  refine ⟨before, after, u.putAt target key w, rfl, ?_, ?_⟩
  · rw [along?_putAt, leads, Option.map_some]
    refine slot.not_passes single leads fun h => beyond (h.trans ?_)
    rw [List.prefix_append_right_inj, List.cons_prefix_cons]
    exact ⟨rfl, List.nil_prefix⟩
  · cases u <;> first | rfl | cases noMap

/-! ## §3 What is put -/

theorem mem_identities_nestedUnder (mem : id ∈ (v.nestedUnder n keys).identities) :
    (∃ m, n ≤ m ∧ m < n + keys.length ∧ id = .assembled m) ∨ id ∈ v.identities := by
  induction keys generalizing n with
  | nil => exact .inr mem
  | cons key keys ih =>
    rw [nestedUnder, mem_identities_map] at mem
    rw [List.length_cons]
    rcases mem with rfl | ⟨entry, listed, mem⟩
    · exact .inl ⟨n, Nat.le_refl n, by omega, rfl⟩
    · obtain rfl := List.mem_singleton.mp listed
      rcases mem with ofKey | mem
      · cases ofKey
      · rcases ih mem with ⟨m, above, below, same⟩ | here
        · exact .inl ⟨m, by omega, by omega, same⟩
        · exact .inr here

/-- The new mappings get other numbers together with the value. -/
theorem nestedUnder_add (v : Value) (n k : Nat) (keys : List String) :
    (v.nestedUnder n keys).relabel (Identity.renumber (· + k)) =
      (v.relabel (Identity.renumber (· + k))).nestedUnder (n + k) keys := by
  induction keys generalizing n with
  | nil => rfl
  | cons key keys ih =>
    rw [nestedUnder, nestedUnder, relabel, relabelEntries, relabelEntries, ih, Nat.add_right_comm]
    rfl

end Value

namespace Draft

variable {d d' : Draft}

/-- The objects of a context that were made or read for it have numbers below that of the next
one. -/
def Counted (d : Draft) : Prop :=
  ∀ n, .assembled n ∈ d.root.identities → n < d.objects

theorem Counted.numbered (counted : d.Counted) : d.Numbered :=
  fun n mem => counted n (Value.mem_identities_of_mem_mappings mem)

end Draft

namespace Assignment

variable {a : Assignment} {d d' : Draft} {target : Identity} {key part : String}
variable {front rest : List String} {v w : Value} {n n' k : Nat}

/-- What an assignment puts has new objects only. -/
theorem Brings.identities (brings : a.Brings n rest w n') :
    n ≤ n' ∧ ∀ id ∈ w.identities, ∃ m, n ≤ m ∧ m < n' ∧ id = .assembled m := by
  obtain ⟨v, read, rfl⟩ := brings
  obtain ⟨le, new⟩ := Document.read_identities read
  refine ⟨by omega, fun id mem => ?_⟩
  rcases Value.mem_identities_nestedUnder mem with ⟨m, above, below, same⟩ | mem
  · exact ⟨m, above, by omega, same⟩
  · obtain ⟨m, above, below, same⟩ := new id mem
    exact ⟨m, by omega, below, same⟩

/-- With greater numbers, an assignment puts the same. -/
theorem brings_add : a.Brings (n + k) rest w n' ↔
    ∃ w₀ n₀, a.Brings n rest w₀ n₀ ∧ w = w₀.relabel (Identity.renumber (· + k)) ∧ n' = n₀ + k := by
  have shifted : n + k + rest.length = n + rest.length + k := by omega
  unfold Brings
  rw [shifted, Document.read_add]
  cases Document.read .assembled (n + rest.length) a.value with
  | error cause => simp [Except.map]
  | ok value =>
    obtain ⟨v, m⟩ := value
    simp only [Except.map, Prod.map_apply, Except.ok.injEq, Prod.mk.injEq]
    constructor
    · rintro ⟨_, ⟨rfl, rfl⟩, rfl⟩
      exact ⟨_, m, ⟨v, ⟨rfl, rfl⟩, rfl⟩, (Value.nestedUnder_add v n k rest).symm, rfl⟩
    · rintro ⟨_, _, ⟨_, ⟨rfl, rfl⟩, rfl⟩, rfl, rfl⟩
      exact ⟨_, ⟨rfl, rfl⟩, Value.nestedUnder_add v n k rest⟩

/-- The first of the keys that are left is that of a new mapping. -/
theorem brings_cons {x : String} : a.Brings n (x :: rest) w n' ↔
    ∃ w₀, a.Brings (n + 1) rest w₀ n' ∧ w = .map (.assembled n) [(.string x, w₀)] := by
  have one : n + (x :: rest).length = n + 1 + rest.length := by
    rw [List.length_cons]
    omega
  unfold Brings
  rw [one]
  constructor
  · rintro ⟨v, read, rfl⟩
    exact ⟨_, ⟨v, read, rfl⟩, rfl⟩
  · rintro ⟨_, ⟨v, read, rfl⟩, rfl⟩
    exact ⟨v, read, rfl⟩

/-- An assignment that is carried out changes the slot that its key has. -/
theorem put_of_apply (numbered : d.Numbered) (slot : d.root.IsSlot a.keys front target key rest)
    (applied : a.apply d = .ok d') :
    ∃ w, a.Brings d.objects rest w d'.objects ∧ d'.root = d.root.putAt target key w := by
  obtain ⟨_, _, _, _, w, slot', brings, root⟩ := (apply_eq_ok_slot numbered).mp applied
  obtain ⟨rfl, rfl, rfl, rfl⟩ := slot.unique slot'
  exact ⟨w, brings, root⟩

/-- An assignment with a slot and something to put there is carried out. -/
theorem apply_of_slot (numbered : d.Numbered) (slot : d.root.IsSlot a.keys front target key rest)
    (brings : a.Brings d.objects rest w n) :
    ∃ d', a.apply d = .ok d' ∧ d'.objects = n ∧ d'.root = d.root.putAt target key w := by
  have root := (Value.putAt_map d.id d.entries target key w).symm
  exact ⟨⟨d.id, _, n⟩, (apply_eq_ok_slot numbered).mpr ⟨_, _, _, _, w, slot, brings, root⟩, rfl,
    root⟩

/-- What is not blocked has a slot. -/
theorem slot_or_blocks (numbered : d.Numbered) (a : Assignment) :
    (∃ front target key rest, d.root.IsSlot a.keys front target key rest) ∨
      ∃ part, d.root.Blocks a.parents part := by
  rcases Classical.em (∃ part, d.root.Blocks a.parents part) with blocked | free
  · exact .inr blocked
  · obtain ⟨_, _, _, _, slot, -⟩ := apply_slot numbered fun part blocks => free ⟨part, blocks⟩
    exact .inl ⟨_, _, _, _, slot⟩

theorem apply_counted (counted : d.Counted) (applied : a.apply d = .ok d') : d'.Counted := by
  obtain ⟨_, _, _, _, w, -, brings, root⟩ := (apply_eq_ok_slot counted.numbered).mp applied
  obtain ⟨le, new⟩ := brings.identities
  intro n mem
  rw [root] at mem
  rcases Value.mem_identities_putAt mem with old | mem
  · exact Nat.lt_of_lt_of_le (counted n old) le
  · obtain ⟨m, -, below, same⟩ := new _ mem
    cases same
    exact below

end Assignment

/-- Making a mapping keeps the objects counted. -/
theorem Draft.Counted.make {d : Draft} (counted : d.Counted) (id : Identity) (part : String) :
    (d.make id part).Counted := by
  intro n mem
  rw [root_make] at mem
  rcases Value.mem_identities_putAt mem with old | new
  · exact Nat.lt_succ_of_lt (counted n old)
  · rcases Value.mem_identities_map.mp new with same | ⟨_, listed, -⟩
    · cases same
      exact Nat.lt_succ_self _
    · cases listed

namespace Assignment

variable {a : Assignment} {d d' : Draft} {target : Identity} {key x : String}
variable {front rest keys : List String} {v w : Value} {n n' : Nat}

/-! ## §4 Making a mapping first -/

/-- The slot goes on into a new mapping. -/
theorem slot_make (single : d.root.SingleWay a.keys)
    (slot : d.root.IsSlot a.keys front target key (x :: rest)) :
    (d.make target key).root.IsSlot a.keys (front ++ [key]) (.assembled d.objects) x rest := by
  obtain ⟨entries, leads⟩ := slot.reached
  have shorter : ¬a.keys <+: front := by
    rw [slot.split]
    exact fun h => by simpa using h.length_le
  have through (more : List String) : (d.make target key).root.along? (front ++ key :: more) =
      (Value.map (.assembled d.objects) []).along? more := by
    rw [Draft.root_make]
    exact Value.along?_putAt_through leads (slot.not_passes single leads shorter) _ more
  refine ⟨by rw [slot.split, List.append_cons], ⟨[], through []⟩, fun _ => ?_⟩
  rw [List.append_assoc]
  exact through [x]

/-- An assignment for which a mapping is made does the same after this was made. -/
theorem apply_make (numbered : d.Numbered) (single : d.root.SingleWay a.keys)
    (slot : d.root.IsSlot a.keys front target key (x :: rest)) :
    a.apply (d.make target key) = .ok d' ↔ a.apply d = .ok d' := by
  have made := numbered.make target key
  have slot' := slot_make single slot
  have put := Draft.putAt_root_make numbered target key x
  constructor
  · intro applied
    obtain ⟨w, brings, root⟩ := put_of_apply made slot' applied
    exact (apply_eq_ok_slot numbered).mpr
      ⟨_, _, _, _, _, slot, brings_cons.mpr ⟨w, brings, rfl⟩, root.trans (put w)⟩
  · intro applied
    obtain ⟨_, outer, root⟩ := put_of_apply numbered slot applied
    obtain ⟨w, brings, rfl⟩ := brings_cons.mp outer
    exact (apply_eq_ok_slot made).mpr ⟨_, _, _, _, w, slot', brings, root.trans (put w).symm⟩

/-! ## §5 Ways that stay single -/

/-- What an assignment puts has no mapping in common with what was there. -/
theorem Brings.apart (brings : a.Brings n rest w n') (numbered : d.Numbered) (le : d.objects ≤ n) :
    ∀ id ∈ d.root.mappings, id ∉ w.mappings := by
  intro id old mem
  obtain ⟨m, above, -, rfl⟩ := brings.identities.2 id (Value.mem_identities_of_mem_mappings mem)
  exact numbered.not_mem (Nat.le_trans le above) old

/-- An assignment leaves a way single that does not go on from its key. -/
theorem singleWay_apply (numbered : d.Numbered) (single : d.root.SingleWay keys)
    (beyond : ¬a.keys <+: keys) (applied : a.apply d = .ok d') : d'.root.SingleWay keys := by
  obtain ⟨front, target, key, rest, w, slot, brings, root⟩ := (apply_eq_ok_slot numbered).mp applied
  rw [root]
  have new := brings.apart numbered (Nat.le_refl _)
  refine single.putAt new fun before rest' entries split leads => ?_
  obtain ⟨entries', reached⟩ := slot.reached
  have isBefore : before <+: keys := by
    rw [split]
    exact List.prefix_append _ _
  -- The way meets the changed mapping once, so it does where the slot is.
  obtain rfl := single _ _ _ isBefore leads _ _ reached
  obtain ⟨v, read, rfl⟩ := brings
  refine Value.singleWay_nestedUnder _ (fun m mem => ?_) fun h => beyond ?_
  · obtain ⟨k, above, -, same⟩ := (Document.read_mappings read).2 _ mem
    cases same
    exact above
  · rw [slot.split, split, List.prefix_append_right_inj, List.cons_prefix_cons]
    exact ⟨rfl, h⟩

/-- So does a mapping that is made. -/
theorem singleWay_make (numbered : d.Numbered) (single : d.root.SingleWay keys) :
    (d.make target key).root.SingleWay keys := by
  rw [Draft.root_make]
  refine single.putAt (fun id old mem => ?_) fun _ _ _ _ _ => Value.singleWay_map_nil _ _
  rw [Value.mappings_map, List.flatMap_nil, List.mem_singleton] at mem
  rw [mem] at old
  exact numbered.not_mem (Nat.le_refl _) old

end Assignment

end Visibility
