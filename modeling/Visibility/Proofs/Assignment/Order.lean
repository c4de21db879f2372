import Visibility.Proofs.Assignment.Independence
import Visibility.Proofs.Rearrangement

/-!
# Assignments in another order

Assignments to keys of which none goes on from another one may be carried out in any order: either
every order is refused, or every order gives the same context, up to the order of the keys in its
mappings and to how its objects are numbered.

* `Draft.Agrees` — contexts under construction that are the same in this way
* `Draft.Agrees.apply` — an assignment does the same to both
* `Assignment.apply_comm` — two unrelated assignments in either order
* `Draft.assign_perm`, `buildContext_perm` — any number of them in any order
-/

namespace Visibility

/-! ## §1 Contexts that agree -/

namespace Value

variable {v w : Value} {target : Identity} {key : String} {keys front rest : List String}

theorem IsSlot.relabel (slot : v.IsSlot keys front target key rest) (f : Identity → Identity) :
    (v.relabel f).IsSlot keys front (f target) key rest where
  split := slot.split
  reached := by
    obtain ⟨entries, leads⟩ := slot.reached
    refine ⟨relabelEntries f entries, ?_⟩
    rw [along?_relabel, leads]
    rfl
  missing left := by rw [along?_relabel, slot.missing left, Option.map_none]

theorem IsSlot.rearranged (slot : v.IsSlot keys front target key rest) (same : v.Rearranged w) :
    w.IsSlot keys front target key rest where
  split := slot.split
  reached := by
    obtain ⟨entries, leads⟩ := slot.reached
    exact same.reaches leads
  missing left := same.along?_eq_none (slot.missing left)

end Value

namespace Draft

variable {d d' d'' d₁ : Draft} {a : Assignment} {texts : List String}

/-- The contexts under construction are the same up to the order of keys and to the numbers of the
objects that were made or read for them, and the next object has the same number. -/
def Agrees (d d' : Draft) : Prop :=
  d.objects = d'.objects ∧ ∃ σ : Equiv.Perm Nat, (∀ n, d.objects ≤ n → σ n = n) ∧
    (d.root.relabel (Identity.renumber σ)).Rearranged d'.root

theorem Agrees.refl (d : Draft) : d.Agrees d := by
  refine ⟨rfl, Equiv.refl Nat, fun _ _ => rfl, ?_⟩
  rw [Value.relabel_of_fixed fun id _ => by cases id <;> rfl]
  exact .refl _

theorem Agrees.trans (h : d.Agrees d') (h' : d'.Agrees d'') : d.Agrees d'' := by
  obtain ⟨objects, σ, fixed, same⟩ := h
  obtain ⟨objects', τ, fixed', same'⟩ := h'
  refine ⟨objects.trans objects', σ.trans τ, fun n le => ?_, ?_⟩
  · rw [Equiv.trans_apply, fixed n le, fixed' n (objects ▸ le)]
  · rw [Equiv.coe_trans, ← Identity.renumber_comp, ← Value.relabel_relabel]
    exact (same.relabel _).trans same'

/-- An assignment does the same to contexts that agree. -/
theorem Agrees.apply (counted : d.Counted) (counted' : d'.Counted) (agrees : d.Agrees d')
    (applied : a.apply d = .ok d₁) : ∃ d₁', a.apply d' = .ok d₁' ∧ d₁.Agrees d₁' := by
  obtain ⟨objects, σ, fixed, same⟩ := agrees
  obtain ⟨front, target, key, rest, w, slot, brings, root⟩ :=
    (Assignment.apply_eq_ok_slot counted.numbered).mp applied
  obtain ⟨le, new⟩ := brings.identities
  have slot' := (slot.relabel (Identity.renumber σ)).rearranged same
  obtain ⟨d₁', applied', objects', root'⟩ :=
    Assignment.apply_of_slot counted'.numbered slot' (objects ▸ brings)
  -- What is put has new objects, and these keep their numbers.
  have kept : w.relabel (Identity.renumber σ) = w := by
    refine Value.relabel_of_fixed fun id mem => ?_
    obtain ⟨m, above, -, rfl⟩ := new id mem
    exact congrArg Identity.assembled (fixed m above)
  refine ⟨d₁', applied', objects'.symm, σ, fun n above => fixed n (Nat.le_trans le above), ?_⟩
  rw [root, root', Value.putAt_relabel (Identity.renumber_injective σ.injective), kept]
  exact same.putAt _ _ _

/-- So do assignments in order. -/
theorem Agrees.assign (counted : d.Counted) (counted' : d'.Counted) (agrees : d.Agrees d')
    (assigned : d.assign texts = .ok d₁) : ∃ d₁', d'.assign texts = .ok d₁' ∧ d₁.Agrees d₁' := by
  induction texts generalizing d d' with
  | nil =>
    cases assigned
    exact ⟨d', rfl, agrees⟩
  | cons text texts ih =>
    obtain ⟨a, d₀, split, applied, others⟩ := assign_cons_eq_ok.mp assigned
    obtain ⟨d₀', applied', agrees'⟩ := agrees.apply counted counted' applied
    obtain ⟨d₁', others', agrees''⟩ := ih (Assignment.apply_counted counted applied)
      (Assignment.apply_counted counted' applied') agrees' others
    exact ⟨d₁', assign_cons_eq_ok.mpr ⟨a, d₀', split, applied', others'⟩, agrees''⟩

end Draft

/-! ## §2 Two assignments -/

/-- From `n` on, the first `k` numbers and the next `l` ones change places. -/
def exchange (n k l : Nat) : Equiv.Perm Nat where
  toFun m := if n ≤ m ∧ m < n + k then m + l else if n + k ≤ m ∧ m < n + k + l then m - k else m
  invFun m := if n ≤ m ∧ m < n + l then m + k else if n + l ≤ m ∧ m < n + l + k then m - l else m
  left_inv m := by
    dsimp only
    split_ifs <;> omega
  right_inv m := by
    dsimp only
    split_ifs <;> omega

section Exchange

variable {n k l m : Nat}

theorem exchange_of_lt (below : m < n) : exchange n k l m = m := by
  simp only [exchange, Equiv.coe_fn_mk]
  split_ifs <;> omega

theorem exchange_first (above : n ≤ m) (below : m < n + k) : exchange n k l m = m + l :=
  if_pos ⟨above, below⟩

theorem exchange_second (above : n ≤ m) (below : m < n + l) : exchange n k l (m + k) = m := by
  simp only [exchange, Equiv.coe_fn_mk]
  split_ifs <;> omega

theorem exchange_of_ge (above : n + k + l ≤ m) : exchange n k l m = m := by
  simp only [exchange, Equiv.coe_fn_mk]
  split_ifs <;> omega

/-- What was there before keeps its numbers, -/
theorem Draft.Counted.exchange {d : Draft} {id : Identity} (counted : d.Counted)
    (mem : id ∈ d.root.identities) : Identity.renumber (exchange d.objects k l) id = id := by
  cases id with
  | assembled n => exact congrArg Identity.assembled (exchange_of_lt (counted n mem))
  | _ => rfl

variable {a : Assignment} {rest : List String} {w : Value}

/-- and what is put gets the numbers that it has if it is put in the other order. -/
theorem Assignment.Brings.exchange_first (brings : a.Brings n rest w (n + k)) :
    w.relabel (Identity.renumber (exchange n k l)) = w.relabel (Identity.renumber (· + l)) := by
  refine Value.relabel_congr fun id mem => ?_
  obtain ⟨m, above, below, rfl⟩ := brings.identities.2 id mem
  exact congrArg Identity.assembled (Visibility.exchange_first above below)

theorem Assignment.Brings.exchange_second (brings : a.Brings n rest w (n + l)) :
    (w.relabel (Identity.renumber (· + k))).relabel (Identity.renumber (exchange n k l)) = w := by
  rw [Value.relabel_relabel]
  refine Value.relabel_of_fixed fun id mem => ?_
  obtain ⟨m, above, below, rfl⟩ := brings.identities.2 id mem
  exact congrArg Identity.assembled (Visibility.exchange_second above below)

end Exchange

namespace Assignment

variable {a b : Assignment} {d d₁ d₂ : Draft} {target target' : Identity} {key key' : String}
variable {front front' rest rest' : List String}

/-- An assignment that is carried out after an unrelated one has its slot before it, too. -/
theorem slot_before (counted : d.Counted) (single : d.root.SingleWay a.keys)
    (beyond : ¬a.keys <+: b.keys) (first : a.apply d = .ok d₁) (second : b.apply d₁ = .ok d₂) :
    ∃ front target key rest, d.root.IsSlot b.keys front target key rest := by
  refine (slot_or_blocks counted.numbered b).resolve_right ?_
  rintro ⟨part, blocks⟩
  obtain ⟨_, _, _, _, w, slot, -, root⟩ := (apply_eq_ok_slot counted.numbered).mp first
  have still : d₁.root.Blocks b.parents part := by
    rw [root]
    exact blocks.putAt slot single (fun h => beyond (h.trans (List.prefix_append _ _))) w
  rw [(apply_eq_blockedKey (apply_counted counted first).numbered).mpr still] at second
  cases second

/-- Assignments to different slots. -/
theorem apply_comm_of_slots (counted : d.Counted) (single : d.root.SingleWay a.keys)
    (single' : d.root.SingleWay b.keys) (unrelated : ¬a.keys <+: b.keys ∧ ¬b.keys <+: a.keys)
    (slot : d.root.IsSlot a.keys front target key rest)
    (slot' : d.root.IsSlot b.keys front' target' key' rest')
    (different : target = target' → key ≠ key')
    (first : a.apply d = .ok d₁) (second : b.apply d₁ = .ok d₂) :
    ∃ d₁' d₂', b.apply d = .ok d₁' ∧ a.apply d₁' = .ok d₂' ∧ d₂.Agrees d₂' := by
  obtain ⟨w, brings, root₁⟩ := put_of_apply counted.numbered slot first
  obtain ⟨k, objects₁⟩ := Nat.exists_eq_add_of_le brings.identities.1
  have slot₁ : d₁.root.IsSlot b.keys front' target' key' rest' := by
    rw [root₁]
    exact slot'.putAt slot single unrelated.1 (fun same => (different same.symm).symm) w
  obtain ⟨_, later, root₂⟩ := put_of_apply (apply_counted counted first).numbered slot₁ second
  -- The other one puts the same when it comes first, but with numbers that are lower by `k`.
  rw [objects₁] at later
  obtain ⟨w', n', brings', rfl, objects₂⟩ := brings_add.mp later
  obtain ⟨l, rfl⟩ := Nat.exists_eq_add_of_le brings'.identities.1
  obtain ⟨d₁', first', objects₁', root₁'⟩ := apply_of_slot counted.numbered slot' brings'
  have slot₁' : d₁'.root.IsSlot a.keys front target key rest := by
    rw [root₁']
    exact slot.putAt slot' single' unrelated.2 different w'
  have later' : a.Brings d₁'.objects rest (w.relabel (Identity.renumber (· + l)))
      (d₁.objects + l) := by
    rw [objects₁']
    exact brings_add.mpr ⟨w, _, brings, rfl, rfl⟩
  obtain ⟨d₂', second', objects₂', root₂'⟩ :=
    apply_of_slot (apply_counted counted first').numbered slot₁' later'
  let σ := exchange d.objects k l
  have injective : Function.Injective (Identity.renumber σ) :=
    Identity.renumber_injective σ.injective
  refine ⟨d₁', d₂', first', second', by omega, σ, fun n above => exchange_of_ge (by omega), ?_⟩
  have target_eq : Identity.renumber σ target = target :=
    counted.exchange (Value.mem_identities_of_mem_mappings slot.mem_mappings)
  have target_eq' : Identity.renumber σ target' = target' :=
    counted.exchange (Value.mem_identities_of_mem_mappings slot'.mem_mappings)
  rw [objects₁] at brings
  rw [root₂, root₁, root₂', root₁', Value.putAt_relabel injective, Value.putAt_relabel injective,
    Value.relabel_of_fixed fun _ => counted.exchange, target_eq, target_eq', brings.exchange_first,
    brings'.exchange_second]
  refine Value.putAt_comm different ?_ ?_
  · exact later'.apart counted.numbered (by omega) _ slot'.mem_mappings
  · exact brings'.apart counted.numbered (Nat.le_refl _) _ slot.mem_mappings

/-- If two keys have one slot of which neither is the end, both have keys left. -/
theorem rest_ne_nil (beyond : ¬a.keys <+: b.keys)
    (slot : d.root.IsSlot a.keys front target key rest)
    (slot' : d.root.IsSlot b.keys front target' key rest') : rest ≠ [] := by
  rintro rfl
  refine beyond ?_
  rw [slot.split, slot'.split, List.prefix_append_right_inj, List.cons_prefix_cons]
  exact ⟨rfl, List.nil_prefix⟩

/-- Two unrelated assignments may be carried out in either order. -/
theorem apply_comm (counted : d.Counted) (single : d.root.SingleWay a.keys)
    (single' : d.root.SingleWay b.keys) (unrelated : ¬a.keys <+: b.keys ∧ ¬b.keys <+: a.keys)
    (first : a.apply d = .ok d₁) (second : b.apply d₁ = .ok d₂) :
    ∃ d₁' d₂', b.apply d = .ok d₁' ∧ a.apply d₁' = .ok d₂' ∧ d₂.Agrees d₂' := by
  obtain ⟨front, target, key, rest, _, slot, -⟩ := (apply_eq_ok_slot counted.numbered).mp first
  -- The induction is on how many mappings the first one makes below its slot.
  induction length : rest.length using Nat.strong_induction_on
    generalizing d front target key rest with
  | _ n ih =>
    obtain ⟨front', target', key', rest', slot'⟩ :=
      slot_before counted single unrelated.1 first second
    by_cases shared : target = target' ∧ key = key'
    · obtain ⟨rfl, rfl⟩ := shared
      obtain ⟨_, leads⟩ := slot.reached
      obtain ⟨_, leads'⟩ := slot'.reached
      obtain rfl := single _ _ _ slot.isPrefix leads _ _ leads'
      obtain ⟨x, rest, rfl⟩ := List.exists_cons_of_ne_nil (rest_ne_nil unrelated.1 slot slot')
      obtain ⟨y, rest', rfl⟩ := List.exists_cons_of_ne_nil (rest_ne_nil unrelated.2 slot' slot)
      -- Whichever comes first makes the mapping, so let it be made before both.
      have shorter : rest.length < n := by
        rw [← length]
        exact Nat.lt_succ_self _
      have numbered := counted.numbered
      obtain ⟨d₁', d₂', first', second', agrees⟩ :=
        ih rest.length shorter (counted.make target key) (singleWay_make numbered single)
          (singleWay_make numbered single') ((apply_make numbered single slot).mpr first) _ _ _ _
          (slot_make single slot) rfl
      exact ⟨d₁', d₂', (apply_make numbered single' slot').mp first', second', agrees⟩
    · exact apply_comm_of_slots counted single single' unrelated slot slot'
        (fun same sameKey => shared ⟨same, sameKey⟩) first second

/-- Texts of assignments to keys of which neither goes on from the other one. -/
def Unrelated (text text' : String) : Prop :=
  ∀ a b, ofText? text = some a → ofText? text' = some b →
    ¬a.keys <+: b.keys ∧ ¬b.keys <+: a.keys

theorem Unrelated.symm {text text' : String} (h : Unrelated text text') : Unrelated text' text :=
  fun a b split split' => (h b a split' split).symm

end Assignment

/-! ## §3 Assignments in any order -/

namespace Draft

variable {d d' : Draft} {texts texts' : List String}

/-- Unrelated assignments that are carried out in one order are in any other one. -/
theorem assign_perm (perm : texts.Perm texts') (unrelated : texts.Pairwise Assignment.Unrelated)
    (counted : d.Counted)
    (single : ∀ text ∈ texts, ∀ a, Assignment.ofText? text = some a → d.root.SingleWay a.keys)
    (assigned : d.assign texts = .ok d') : ∃ d'', d.assign texts' = .ok d'' ∧ d'.Agrees d'' := by
  induction perm generalizing d d' with
  | nil => exact ⟨d', assigned, .refl d'⟩
  | @cons text texts texts' _ ih =>
    obtain ⟨a, d₁, split, applied, others⟩ := assign_cons_eq_ok.mp assigned
    rw [List.pairwise_cons] at unrelated
    rw [List.forall_mem_cons] at single
    -- After the first assignment the keys of the others still have single ways.
    have single₁ (other) (mem : other ∈ texts) (b) (split' : Assignment.ofText? other = some b) :
        d₁.root.SingleWay b.keys :=
      Assignment.singleWay_apply counted.numbered (single.2 other mem b split')
        (unrelated.1 other mem a b split split').1 applied
    obtain ⟨d'', others', agrees⟩ :=
      ih unrelated.2 (Assignment.apply_counted counted applied) single₁ others
    exact ⟨d'', assign_cons_eq_ok.mpr ⟨a, d₁, split, applied, others'⟩, agrees⟩
  | swap text text' texts =>
    obtain ⟨a, d₁, split, applied, others⟩ := assign_cons_eq_ok.mp assigned
    obtain ⟨b, d₂, split', applied', others⟩ := assign_cons_eq_ok.mp others
    simp only [List.forall_mem_cons] at single
    have both := (List.pairwise_cons.mp unrelated).1 text (by simp) a b split split'
    -- Both orders of the two lead to drafts that agree, and the others carry this on.
    obtain ⟨d₁', d₂', first, second, agrees⟩ := Assignment.apply_comm counted
      (single.1 a split) (single.2.1 b split') both applied applied'
    have counted₂ : d₂.Counted :=
      Assignment.apply_counted (Assignment.apply_counted counted applied) applied'
    have counted₂' : d₂'.Counted :=
      Assignment.apply_counted (Assignment.apply_counted counted first) second
    obtain ⟨d'', others', agrees'⟩ := agrees.assign counted₂ counted₂' others
    exact ⟨d'', assign_cons_eq_ok.mpr ⟨b, d₁', split', first,
      assign_cons_eq_ok.mpr ⟨a, d₂', split, second, others'⟩⟩, agrees'⟩
  | trans perm _ ih ih' =>
    obtain ⟨d₁, assigned₁, agrees⟩ := ih unrelated counted single assigned
    obtain ⟨d₂, assigned₂, agrees'⟩ := ih'
      ((perm.pairwise_iff Assignment.Unrelated.symm).mp unrelated) counted
      (fun text mem => single text (perm.mem_iff.mpr mem)) assigned₁
    exact ⟨d₂, assigned₂, agrees.trans agrees'⟩

/-- The objects of the start are counted, and no mapping is shared, if this holds of the document of
the file and its objects are none that were made or read for a context. -/
theorem start_unshared {tree : FileTree} {file : Option Path}
    (unshared : ∀ f v, file = some f → tree.read f = .ok (.document v) → v.mappings.Nodup)
    (apart : ∀ f v, file = some f → tree.read f = .ok (.document v) →
      ∀ n, .assembled n ∉ v.identities)
    (start : ofFile? tree file = .ok d) : d.Counted ∧ d.root.mappings.Nodup := by
  obtain ⟨entries, rfl, rfl | ⟨f, id, rfl, read⟩⟩ := ofFile?_eq_ok start
  · refine ⟨fun n mem => ?_, by simp [ofEntries, root, Value.mappings_map]⟩
    simp only [ofEntries, root, Value.identities, identitiesOfEntries, List.mem_singleton] at mem
    cases mem
    exact Nat.one_pos
  · have apart := apart f _ rfl read
    have unshared := unshared f _ rfl read
    rw [Value.mappings_map, List.nodup_cons] at unshared
    -- The top is made anew, with number 0; what is below it comes from the document.
    have below (n : Nat) : .assembled n ∉ identitiesOfEntries entries := fun mem =>
      apart n (List.mem_cons_of_mem id mem)
    constructor
    · intro n mem
      rcases List.mem_cons.mp mem with same | mem
      · cases same
        exact Nat.one_pos
      · exact absurd mem (below n)
    · rw [root, Value.mappings_map, List.nodup_cons]
      refine ⟨fun mem => apart 0 (Value.mem_identities_of_mem_mappings ?_), unshared.2⟩
      rw [Value.mappings_map]
      exact List.mem_cons_of_mem id mem

end Draft

section Contexts

variable {tree : FileTree} {file : Option Path} {texts texts' : List String} {context : Value}

theorem buildContext_perm_ok
    (unshared : ∀ f v, file = some f → tree.read f = .ok (.document v) → v.mappings.Nodup)
    (apart : ∀ f v, file = some f → tree.read f = .ok (.document v) →
      ∀ n, .assembled n ∉ v.identities)
    (unrelated : texts.Pairwise Assignment.Unrelated) (perm : texts.Perm texts')
    (built : buildContext tree file texts = .ok context) :
    ∃ context', buildContext tree file texts' = .ok context' ∧ context.SameUpToOrder context' := by
  obtain ⟨d, d', start, assigned, rfl⟩ := buildContext_eq_ok.mp built
  obtain ⟨counted, nodup⟩ := Draft.start_unshared unshared apart start
  obtain ⟨d'', assigned', -, σ, -, same⟩ := Draft.assign_perm perm unrelated counted
    (fun _ _ a _ => Value.singleWay_of_nodup nodup a.keys) assigned
  exact ⟨d''.root, buildContext_eq_ok.mpr ⟨d, d'', start, assigned', rfl⟩, σ, same⟩

end Contexts

end Visibility
