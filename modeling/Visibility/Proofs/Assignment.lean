import Mathlib
import Visibility.Proofs.Assembly
import Visibility.Proofs.DottedName

/-!
# What assignments write

An assignment goes down the mappings of a context along the parents of its key, and puts its value
under the last part.  What it wrote is then read along the parts of its key, wherever else the
mappings are part of the context, as long as none of them lies within itself.

* `Draft.Sound` — what holds of a context under construction: no mapping lies within itself, and
  the next object is none of those that are there
* `Assignment.descend_reaches` — going down ends at a mapping that the parts lead to
* `Assignment.apply_leads` — after an assignment the parts of its key lead to its value
* `buildContext_evaluates` — so an expression that spells the key has this value
-/

namespace Visibility

/-! ## §1 Contexts under construction -/

/-- The objects of a value are given ones, as those of files are. -/
def Value.AllGiven (v : Value) : Prop :=
  ∀ id, v.Holds id → ∃ n, id = .given n

/-- The objects of a document that is read as that of a file are given ones. -/
theorem Document.allGiven_of_read {n n' : Nat} {s : String} {v : Value}
    (h : Document.read .given n s = .ok (v, n')) : v.AllGiven := by
  intro id holds
  obtain ⟨k, -, -, same⟩ := (Document.read_holds h).2 id holds
  exact ⟨k, same⟩

namespace Draft

variable {d : Draft} {v : Value} {objects : Nat}

/-- No mapping lies within itself, and the mappings that were made or read for the context have
numbers below that of the next one. -/
structure Sound (d : Draft) : Prop where
  loopFree : d.root.LoopFree
  numbered : ∀ n, d.root.Holds (.assembled n) → n < d.objects

theorem along?_nil (d : Draft) : d.root.along? [] = some (.map d.id d.entries) := rfl

theorem root_put (d : Draft) (target : Identity) (key : String) (v : Value) :
    (d.put target key v).root = d.root.putAt target key v := by
  rw [root, root, Value.putAt_map]
  rfl

/-- A value of new objects keeps the context sound. -/
theorem Sound.put (sound : d.Sound) (target : Identity) (key : String) (loopFree : v.LoopFree)
    (le : d.objects ≤ objects)
    (new : ∀ id, v.Holds id → ∃ k, d.objects ≤ k ∧ k < objects ∧ id = .assembled k) :
    Sound { d.put target key v with objects } := by
  have same : Draft.root { d.put target key v with objects } = d.root.putAt target key v :=
    root_put d target key v
  constructor
  · rw [same]
    refine sound.loopFree.putAt loopFree fun id old holds => ?_
    -- A new object has a number that none of before has.
    obtain ⟨k, above, -, rfl⟩ := new id holds
    exact absurd (sound.numbered k old) (Nat.not_lt.mpr above)
  · intro n holds
    rw [same] at holds
    rcases holds.of_putAt with old | holds
    · exact Nat.lt_of_lt_of_le (sound.numbered n old) le
    · obtain ⟨k, -, below, same⟩ := new _ holds
      cases same
      exact below

/-- The value is found where it was put. -/
theorem Sound.along?_put (sound : d.Sound) {path : List String} {target : Identity}
    {entries : List (Value × Value)} (leads : d.root.along? path = some (.map target entries))
    (key : String) (v : Value) : (d.put target key v).root.along? (path ++ [key]) = some v := by
  rw [root_put]
  exact Value.along?_putAt_through leads (sound.loopFree.not_passes leads) v []

theorem sound_ofEntries {id : Identity} {entries : List (Value × Value)}
    (loopFree : (Value.map id entries).LoopFree) (given : (Value.map id entries).AllGiven) :
    (ofEntries entries).Sound := by
  -- Below the top mapping, which is new, the paths are those of the given one.
  have below {name : String} {path : List String} {n : Nat} {es : List (Value × Value)} :
      (ofEntries entries).root.along? (name :: path) ≠ some (.map (.assembled n) es) := by
    intro leads
    obtain ⟨k, same⟩ := given _ ⟨name :: path, es, leads⟩
    cases same
  constructor
  · intro path more id' es es' leads leads'
    cases path with
    | nil =>
      cases leads
      cases more with
      | nil => rfl
      | cons name more => exact absurd leads' below
    | cons name path => exact loopFree (name :: path) more id' es es' leads leads'
  · rintro n ⟨path, es, leads⟩
    cases path with
    | nil =>
      cases leads
      exact Nat.one_pos
    | cons name path => exact absurd leads below

/-- The start is a mapping of its own, without entries or with those of the document of a file. -/
theorem ofFile?_eq_ok {tree : FileTree} {file : Option Path} (start : ofFile? tree file = .ok d) :
    ∃ entries, d = ofEntries entries ∧ (entries = [] ∨ ∃ f id, file = some f ∧
      tree.read f = .ok (.document (.map id entries))) := by
  unfold ofFile? at start
  split at start
  · cases start
    exact ⟨[], rfl, .inl rfl⟩
  · rename_i f
    split at start
    · cases start
    · cases start
    · cases start
      exact ⟨[], rfl, .inl rfl⟩
    · rename_i id entries read
      cases start
      exact ⟨entries, rfl, .inr ⟨f, id, rfl, read⟩⟩
    · cases start

/-- The start from a file is sound if the document of the file is: the objects of its value are
given ones, and none lies within itself. -/
theorem sound_ofFile? {tree : FileTree} {file : Option Path} (start : ofFile? tree file = .ok d)
    (sound : ∀ f v, file = some f → tree.read f = .ok (.document v) → v.LoopFree ∧ v.AllGiven) :
    d.Sound := by
  obtain ⟨entries, rfl, rfl | ⟨f, id, rfl, read⟩⟩ := ofFile?_eq_ok start
  · exact sound_ofEntries (Value.loopFree_map_nil (.given 0))
      fun _ holds => ⟨0, Value.eq_of_holds_map_nil holds⟩
  · obtain ⟨loopFree, given⟩ := sound f _ rfl read
    exact sound_ofEntries loopFree given

end Draft

/-! ## §2 One assignment -/

namespace Assignment

variable {a : Assignment} {d d' : Draft}

/-- The value of an assignment is none that has an object within itself. -/
def IsFinite (a : Assignment) : Prop :=
  ∀ n v n', Document.read .assembled n a.value = .ok (v, n') → v.isEndless [] = false

/-- Going down ends at the mapping that the parts lead to, be it there or made on the way. -/
theorem descend_reaches {id target : Identity} {entries : List (Value × Value)}
    {done parts : List String} (sound : d.Sound)
    (here : d.root.along? done = some (.map id entries))
    (down : descend d id entries parts = .ok (d', target)) :
    d'.Sound ∧ d.objects ≤ d'.objects ∧
      ∃ entries', d'.root.along? (done ++ parts) = some (.map target entries') := by
  induction parts generalizing d id entries done with
  | nil =>
    cases down
    exact ⟨sound, Nat.le_refl _, entries, by rwa [List.append_nil]⟩
  | cons part parts ih =>
    rw [List.append_cons]
    unfold descend at down
    split at down
    · rename_i next entries' found
      have there : d.root.along? (done ++ [part]) = some (.map next entries') := by
        rw [Value.along?_concat here, found]
      exact ih sound there down
    · cases down
    · -- The mapping that is made has no entries and a new number.
      have made : Draft.Sound { d.put id part (.map (.assembled d.objects) []) with
          objects := d.objects + 1 } :=
        sound.put id part (Value.loopFree_map_nil _) (Nat.le_succ _) fun id' holds =>
          ⟨d.objects, Nat.le_refl _, Nat.lt_succ_self _, Value.eq_of_holds_map_nil holds⟩
      obtain ⟨sound', le, reached⟩ := ih made (sound.along?_put here part _) down
      exact ⟨sound', Nat.le_trans (Nat.le_succ _) le, reached⟩

/-- What an assignment does: it goes down, reads its value and puts it. -/
theorem apply_eq_ok : a.apply d = .ok d' ↔
    ∃ d₁ target v objects, descend d d.id d.entries a.parents = .ok (d₁, target) ∧
      Document.read .assembled d₁.objects a.value = .ok (v, objects) ∧
      d' = { d₁.put target a.leaf v with objects } := by
  unfold apply
  cases down : descend d d.id d.entries a.parents with
  | error part => simp
  | ok reached =>
    obtain ⟨d₁, target⟩ := reached
    cases read : Document.read .assembled d₁.objects a.value with
    | error cause => cases cause <;> simp [read]
    | ok value =>
      obtain ⟨v, objects⟩ := value
      simp [read, eq_comm]

/-- After an assignment the parts of its key lead to its value. -/
theorem apply_leads (sound : d.Sound) (applied : a.apply d = .ok d') :
    ∃ n v n', Document.read .assembled n a.value = .ok (v, n') ∧
      d'.root.along? (a.parents ++ [a.leaf]) = some v := by
  obtain ⟨d₁, target, v, objects, down, read, rfl⟩ := apply_eq_ok.mp applied
  obtain ⟨sound₁, -, entries, leads⟩ := descend_reaches sound d.along?_nil down
  exact ⟨_, v, objects, read, sound₁.along?_put leads a.leaf v⟩

theorem apply_sound (sound : d.Sound) (finite : a.IsFinite) (applied : a.apply d = .ok d') :
    d'.Sound := by
  obtain ⟨d₁, target, v, objects, down, read, rfl⟩ := apply_eq_ok.mp applied
  obtain ⟨sound₁, -, -⟩ := descend_reaches sound d.along?_nil down
  obtain ⟨le, new⟩ := Document.read_holds read
  exact sound₁.put target a.leaf (Value.loopFree_of_not_endless (finite _ v objects read)) le new

end Assignment

/-! ## §3 Assignments in order -/

namespace Draft

variable {d d' : Draft} {texts : List String} {text : String}

theorem assign_cons_eq_ok : d.assign (text :: texts) = .ok d' ↔
    ∃ a d₁, Assignment.ofText? text = some a ∧ a.apply d = .ok d₁ ∧ d₁.assign texts = .ok d' := by
  rw [assign]
  cases Assignment.ofText? text with
  | none => simp
  | some a => cases applied : a.apply d <;> simp [applied]

/-- The last assignment is carried out on what the others made. -/
theorem assign_concat_eq_ok : d.assign (texts ++ [text]) = .ok d' ↔
    ∃ d₁ a, d.assign texts = .ok d₁ ∧ Assignment.ofText? text = some a ∧ a.apply d₁ = .ok d' := by
  induction texts generalizing d with
  | nil =>
    rw [List.nil_append, assign_cons_eq_ok]
    simp [assign]
  | cons first texts ih =>
    rw [List.cons_append, assign_cons_eq_ok]
    simp only [assign_cons_eq_ok, ih]
    constructor
    · rintro ⟨a, d₁, split, applied, d₂, b, others, last⟩
      exact ⟨d₂, b, ⟨a, d₁, split, applied, others⟩, last⟩
    · rintro ⟨d₂, b, ⟨a, d₁, split, applied, others⟩, last⟩
      exact ⟨a, d₁, split, applied, d₂, b, others, last⟩

/-- Assignments of finite values keep the context sound. -/
theorem assign_sound (sound : d.Sound)
    (finite : ∀ text ∈ texts, ∀ a, Assignment.ofText? text = some a → a.IsFinite)
    (assigned : d.assign texts = .ok d') : d'.Sound := by
  induction texts generalizing d with
  | nil =>
    cases assigned
    exact sound
  | cons text texts ih =>
    rw [List.forall_mem_cons] at finite
    obtain ⟨a, d₁, split, applied, others⟩ := assign_cons_eq_ok.mp assigned
    exact ih (Assignment.apply_sound sound (finite.1 a split) applied) finite.2 others

end Draft

/-! ## §4 Writing and reading -/

open Visibility.Grammar

theorem buildContext_eq_ok {tree : FileTree} {file : Option Path} {texts : List String}
    {context : Value} : buildContext tree file texts = .ok context ↔
      ∃ d d', Draft.ofFile? tree file = .ok d ∧ d.assign texts = .ok d' ∧ d'.root = context := by
  unfold buildContext
  cases start : Draft.ofFile? tree file with
  | error cause => simp
  | ok d => simp [Except.map_eq_ok]

/-- No character of a name divides an assignment. -/
theorem Grammar.IsName.no_divider {name : String} (isName : IsName name) :
    ∀ c ∈ name.toList, c ≠ '=' ∧ c ≠ '.' := by
  obtain ⟨c, cs, eq, start, inside⟩ := isName.letters
  rw [eq, List.forall_mem_cons]
  refine ⟨?_, fun d mem => ?_⟩
  · constructor <;> rintro rfl <;> cases start
  · have part := inside d mem
    constructor <;> rintro rfl <;> cases part

/-- An assignment to a dotted name is split at the dots of the name. -/
theorem ofText?_dotted {first : String} {others : List String}
    (names : ∀ name ∈ first :: others, IsName name) (raw : String) :
    ∃ a, Assignment.ofText? (String.intercalate "." (first :: others) ++ "=" ++ raw) = some a ∧
      a.parents ++ [a.leaf] = first :: others ∧ a.value = raw := by
  have divider : ∀ name ∈ first :: others, ∀ c ∈ name.toList, c ≠ '=' ∧ c ≠ '.' :=
    fun name mem => (names name mem).no_divider
  let text := String.intercalate "." (first :: others) ++ "=" ++ raw
  let key := (String.intercalate "." (first :: others)).toList
  have chars : text.toList = key ++ '=' :: raw.toList := by
    simp [text, key]
  -- No name has an equals sign, so the first one of the text is that behind the key.
  have noEquals : ∀ c ∈ key, (c != '=') = true := by
    intro c mem
    simp only [key, toList_intercalate_dot, dottedChars, List.mem_append, List.mem_flatMap,
      List.mem_cons] at mem
    rw [bne_iff_ne]
    rcases mem with mem | ⟨name, isOther, rfl | mem⟩
    · exact (divider first (by simp) c mem).1
    · decide
    · exact (divider name (by simp [isOther]) c mem).1
  have nonempty : key ≠ [] := by
    obtain ⟨c, cs, eq, -, -⟩ := (names first (by simp)).letters
    simp [key, eq]
  -- No name has a dot either, so the key is split where the names were joined.
  have parts : (key.splitOn '.').map String.ofList = first :: others := by
    have noDot : ∀ part ∈ (first :: others).map String.toList, '.' ∉ part :=
      List.forall_mem_map.mpr fun name mem dot => (divider name mem _ dot).2 rfl
    have cut := List.splitOn_intercalate '.' noDot (by simp)
    rw [show key = _ from String.toList_intercalate, show ".".toList = ['.'] from rfl, cut]
    simp
  refine ⟨⟨text, String.ofList key, (first :: others).dropLast, (first :: others).getLastD "",
    raw⟩, ?_, ?_, rfl⟩
  · show Assignment.ofText? text = _
    unfold Assignment.ofText?
    simp only [chars, List.takeWhile_append_of_pos noEquals,
      List.dropWhile_append_of_pos noEquals]
    simp [nonempty, parts]
  · obtain ⟨before, last, eq⟩ :=
      (List.eq_nil_or_concat (first :: others)).resolve_left (List.cons_ne_nil _ _)
    simp only
    rw [eq]
    simp

theorem read_one (n : Nat) : Document.read .assembled n "1" = .ok (.int 1, n + 1) := rfl

theorem read_true (n : Nat) : Document.read .assembled n "true" = .ok (.bool true, n + 1) := rfl

theorem isName_of_letter {name : String} {c : Char} (one : name.toList = [c])
    (letter : isNameStart c = true) : IsName name where
  letters := ⟨c, [], one, letter, List.forall_mem_nil _⟩
  not_reserved mem := by
    simp only [List.mem_cons, List.not_mem_nil, or_false] at mem
    rcases mem with rfl | rfl | rfl <;> cases one

section Loop

open Document

/-- A mapping with itself under its only key is repeated at least once. -/
theorem valueOf_self {w : Shaping} {n : Nat} {k : Value}
    (known : w.shape? n = some (.map [(k, n)])) (limit depth : Nat) :
    ∃ entries, w.valueOf (limit + 1) (depth + 2) [] n =
      .map (w.identity n) [(k, .map (w.identity n) entries)] := by
  have inner : w.valueOf (limit + 1) (depth + 1) [n] n = _ :=
    Shaping.valueOf_map known (by simp)
  rw [Shaping.valueOf_map known (Nat.zero_le _)]
  simp only [List.map_cons, List.map_nil, inner]
  exact ⟨_, rfl⟩

/-- Of the nodes of this document, the mapping is its own value under its key. -/
theorem nodes_loop : RootedGraph.ofTokens (Token.scan (cellsOf "&x \x7bb: *x\x7d".toList)) =
    .ok ⟨⟨#[⟨.mapping, .mapping [(1, 0)]⟩, ⟨.string, .scalar "b"⟩]⟩, some 0, 1⟩ := by
  cbv

theorem read_loop : ∃ entries, Document.read .assembled 1 "&x \x7bb: *x\x7d" =
    .ok (.map (.assembled 1) [(.string "b", .map (.assembled 1) entries)], 3) := by
  let g : Graph := ⟨#[⟨.mapping, .mapping [(1, 0)]⟩, ⟨.string, .scalar "b"⟩]⟩
  let shaping (shapes : Array (Option Shape)) (waiting : List Nat) : Shaping :=
    ⟨g, fun n => .assembled (1 + n), shapes, waiting, 2⟩
  let empty := shaping #[some (.map []), none] [0]
  let shaped := shaping #[some (.map [(.string "b", 0)]), some (.whole (.string "b"))] []
  -- First both nodes get their shapes, then the mapping is written out as often as it may be
  -- repeated.
  have visited : (Shaping.start g .assembled 1).visit 0 = .ok empty := by cbv
  have filled : Shaping.fillAll 3 empty = .ok shaped := by cbv
  have known : shaped.shape? 0 = some (.map [(.string "b", 0)]) := rfl
  obtain ⟨entries, repeated⟩ := valueOf_self known 329 994
  have value : RootedGraph.value ⟨g, some 0, 1⟩ .assembled 1 = .ok
      (.map (.assembled 1) [(.string "b", .map (.assembled 1) entries)], 3) := by
    refine RootedGraph.value_eq_ok.mpr ⟨empty, shaped, visited, filled, ?_, rfl⟩
    have limit : repetitions 1 = 329 + 1 := rfl
    have size : g.size = 2 := rfl
    have depth : (2 + 1) * (329 + 1 + 2) = 994 + 2 := by decide
    rw [limit, size, depth]
    exact repeated
  have allowed : "&x \x7bb: *x\x7d".toList.all isAllowed = true := by cbv
  simp only [Document.read, allowed, nodes_loop]
  exact ⟨entries, value⟩

end Loop

end Visibility
