import Mathlib.Data.List.Nodup
import Visibility.Rule.RuleSet

/-!
# What loading does to a set of rules

Rules are added one by one, and nothing is taken back when a file turns out to be refused halfway.
Whatever calls were made before, and however they ended, the set stays one in which a name finds its
rule, and each load of a file adds the rules of the items up to the first refused one.

* `AddsItems`, `addItems_adds` — the effect of the items of a file
* `LoadsFile`, `loadFile_loads` — the effect of a file
* `Grows` — what a load of a file does to the set, and so a call and a run of calls
* `Contains` — all rules of a file are in the set, which stays so once the file was loaded to its end
* `run_loads` — the properties of the set after any run of calls
-/

namespace Visibility

namespace RuleSet

variable {tree : FileTree} {file : Path} {s s' s'' : RuleSet} {items : List Value} {rules : List Rule}

/-! ## §1 Finding a rule by its name -/

theorem find?_eq_some_iff (distinct : s.names.Nodup) {name : String} {r : Rule} :
    s.find? name = some r ↔ r ∈ s.rules ∧ r.name = name := by
  unfold find?
  constructor
  · intro found
    exact ⟨List.mem_of_find?_eq_some found, by simpa using List.find?_some found⟩
  · rintro ⟨mem, rfl⟩
    -- Something is found, and no other rule has the name.
    cases found : s.rules.find? (·.name == r.name) with
    | none => simpa using List.find?_eq_none.mp found r mem
    | some r' =>
      have sameName : r'.name = r.name := by simpa using List.find?_some found
      have same := List.inj_on_of_nodup_map distinct (List.mem_of_find?_eq_some found) mem sameName
      rw [same]

theorem names_append (s : RuleSet) (rules : List Rule) :
    (⟨s.rules ++ rules⟩ : RuleSet).names = s.names ++ rules.map (·.name) :=
  List.map_append

/-! ## §2 Sets that grow -/

/-- The rules of the first set come first in the second one, in which names are distinct. -/
structure Grows (s s' : RuleSet) : Prop where
  keeps : s.rules <+: s'.rules
  distinct : s'.names.Nodup

theorem Grows.refl (distinct : s.names.Nodup) : Grows s s :=
  ⟨List.prefix_refl _, distinct⟩

theorem Grows.trans (first : Grows s s') (second : Grows s' s'') : Grows s s'' :=
  ⟨first.keeps.trans second.keeps, second.distinct⟩

/-! ## §3 The items of a file -/

/-- The items describe the rules, whose names are new and distinct. -/
structure Appends (file : Path) (s : RuleSet) (items : List Value) (rules : List Rule) : Prop where
  described : List.Forall₂ (fun item r => Rule.ofValue item (some file) = .ok r) items rules
  fresh : (s.names ++ rules.map (·.name)).Nodup

/-- The item is no rule, or its name is taken. -/
inductive Refused (file : Path) (names : List String) (item : Value) : RuleError → Prop where
  | malformed {e : RuleError} :
      Rule.ofValue item (some file) = .error e → Refused file names item e
  | taken {r : Rule} :
      Rule.ofValue item (some file) = .ok r → r.name ∈ names →
      Refused file names item ⟨some file, .duplicateName r.name⟩

/-- What items do to a set: all their rules are added, or those before the first item that is
refused. -/
inductive AddsItems (file : Path) (s : RuleSet) (items : List Value) :
    Except RuleError Unit × RuleSet → Prop where
  | all {rules : List Rule} :
      Appends file s items rules → AddsItems file s items (.ok (), ⟨s.rules ++ rules⟩)
  | upTo {before after : List Value} {item : Value} {rules : List Rule} {e : RuleError} :
      items = before ++ item :: after → Appends file s before rules →
      Refused file (s.names ++ rules.map (·.name)) item e →
      AddsItems file s items (.error e, ⟨s.rules ++ rules⟩)

theorem Appends.nil (distinct : s.names.Nodup) : Appends file s [] [] :=
  ⟨.nil, by simpa using distinct⟩

theorem Appends.cons {item : Value} {r : Rule} (described : Rule.ofValue item (some file) = .ok r)
    (h : Appends file ⟨s.rules ++ [r]⟩ items rules) :
    Appends file s (item :: items) (r :: rules) := by
  refine ⟨.cons described h.described, ?_⟩
  have fresh := h.fresh
  rw [names_append, List.append_assoc] at fresh
  exact fresh

theorem Appends.grows (h : Appends file s items rules) : Grows s ⟨s.rules ++ rules⟩ :=
  ⟨List.prefix_append .., names_append s rules ▸ h.fresh⟩

/-- The rule of an item goes before those of the items after it. -/
theorem AddsItems.cons {item : Value} {r : Rule} {result : Except RuleError Unit × RuleSet}
    (described : Rule.ofValue item (some file) = .ok r)
    (h : AddsItems file ⟨s.rules ++ [r]⟩ items result) :
    AddsItems file s (item :: items) result := by
  have shift (rules : List Rule) : s.rules ++ [r] ++ rules = s.rules ++ r :: rules := by
    rw [List.append_assoc, List.singleton_append]
  cases h with
  | all appends =>
    rw [shift]
    exact .all (appends.cons described)
  | @upTo before after last rules e split appends refused =>
    rw [shift]
    rw [names_append, List.append_assoc] at refused
    have split' : item :: items = (item :: before) ++ last :: after := by
      rw [split, List.cons_append]
    exact .upTo split' (appends.cons described) refused

theorem AddsItems.grows {result : Except RuleError Unit × RuleSet}
    (h : AddsItems file s items result) : Grows s result.2 := by
  cases h with
  | all appends => exact appends.grows
  | upTo _ appends _ => exact appends.grows

/-- By induction on the items, whose rules move one by one from the items to the set. -/
theorem addItems_adds (distinct : s.names.Nodup) :
    AddsItems file s items (addItems file items s) := by
  induction items generalizing s with
  | nil =>
    have h : AddsItems file s [] (.ok (), ⟨s.rules ++ []⟩) := .all (.nil distinct)
    rwa [List.append_nil] at h
  | cons item items ih =>
    -- An item that is refused leaves the set as it is.
    have refuse {e : RuleError} (refused : Refused file s.names item e) :
        AddsItems file s (item :: items) (.error e, s) := by
      have split : item :: items = [] ++ item :: items := rfl
      have h : AddsItems file s (item :: items) (.error e, ⟨s.rules ++ []⟩) :=
        .upTo split (.nil distinct) (by simpa using refused)
      rwa [List.append_nil] at h
    rw [addItems]
    split
    · rename_i malformed
      exact refuse (.malformed malformed)
    · rename_i r described
      split
      · rename_i taken
        exact refuse (.taken described taken)
      · rename_i free
        -- The other items find the rule of this one in the set.
        have distinct' : (⟨s.rules ++ [r]⟩ : RuleSet).names.Nodup := by
          rw [names_append, List.map_singleton, List.nodup_append_comm]
          exact List.nodup_cons.mpr ⟨free, distinct⟩
        exact (ih distinct').cons described

/-! ## §4 Files -/

/-- The items of a file that holds a document of rules. -/
def fileItems? (tree : FileTree) (file : Path) : Option (List Value) :=
  match tree.read file with
  | .ok (.document v) => itemsOf? v
  | _ => none

/-- A document of rules is not blank. -/
theorem isBlankDocument_of_items {v : Value} (listed : itemsOf? v = some items) :
    isBlankDocument v = false := by
  cases v with
  | map id entries =>
    cases entries with
    | nil => cases listed
    | cons entry entries => rfl
  | _ => cases listed

/-- What loading a file does to a set.  Without items the set stays as it is. -/
inductive LoadsFile (tree : FileTree) (file : Path) (s : RuleSet) : Loaded → Prop where
  | items {items : List Value} {outcome : Except RuleError Unit} {s' : RuleSet} :
      fileItems? tree file = some items → AddsItems file s items (outcome, s') →
      LoadsFile tree file s ⟨outcome.mapError .rule, [], s'⟩
  | blank {v : Value} :
      tree.read file = .ok (.document v) → isBlankDocument v = true →
      LoadsFile tree file s ⟨.ok (), [.emptyFile file], s⟩
  | unreadable {e : AccessError} :
      tree.read file = .error e → LoadsFile tree file s ⟨.error (.access file e), [], s⟩
  | invalid :
      tree.read file = .ok .invalid →
      LoadsFile tree file s ⟨.error (.rule ⟨some file, .invalidDocument⟩), [], s⟩
  | noItems {v : Value} :
      tree.read file = .ok (.document v) → isBlankDocument v = false → itemsOf? v = none →
      LoadsFile tree file s ⟨.error (.rule ⟨some file, .noRuleList⟩), [], s⟩

theorem loadFile_loads (distinct : s.names.Nodup) :
    LoadsFile tree file s (loadFile tree file s) := by
  unfold loadFile
  cases content : tree.read file with
  | error e => exact .unreadable content
  | ok found =>
    cases found with
    | invalid => exact .invalid content
    | document v =>
      show LoadsFile tree file s (addDocument file v s)
      unfold addDocument
      cases blank : isBlankDocument v with
      | true => exact .blank content blank
      | false =>
        cases listed : itemsOf? v with
        | none => exact .noItems content blank listed
        | some items =>
          have inFile : fileItems? tree file = some items := by
            unfold fileItems?
            rw [content]
            exact listed
          have adds : AddsItems file s items (addItems file items s) := addItems_adds distinct
          simp only [Bool.false_eq_true, if_false]
          rcases added : addItems file items s with ⟨_ | _, s'⟩
          · exact .items inFile (added ▸ adds)
          · exact .items inFile (added ▸ adds)

theorem LoadsFile.grows {loaded : Loaded} (h : LoadsFile tree file s loaded)
    (distinct : s.names.Nodup) : Grows s loaded.ruleSet := by
  cases h with
  | items _ adds => exact adds.grows
  | blank | unreadable | invalid | noItems => exact .refl distinct

theorem loadFile_grows (distinct : s.names.Nodup) : Grows s (loadFile tree file s).ruleSet :=
  (loadFile_loads distinct).grows distinct

theorem loadFiles_cons_of_ok {files : List Path}
    (complete : (loadFile tree file s).outcome = .ok ()) :
    (loadFiles tree (file :: files) s).ruleSet =
      (loadFiles tree files (loadFile tree file s).ruleSet).ruleSet := by
  simp only [loadFiles, complete]

theorem loadFiles_cons_of_error {files : List Path} {e : LoadError}
    (failed : (loadFile tree file s).outcome = .error e) :
    loadFiles tree (file :: files) s = loadFile tree file s := by
  simp only [loadFiles, failed]

theorem loadFiles_grows (files : List Path) (distinct : s.names.Nodup) :
    Grows s (loadFiles tree files s).ruleSet := by
  induction files generalizing s with
  | nil => exact .refl distinct
  | cons file files ih =>
    have first : Grows s (loadFile tree file s).ruleSet := loadFile_grows distinct
    cases ends : (loadFile tree file s).outcome with
    | error e =>
      rw [loadFiles_cons_of_error ends]
      exact first
    | ok =>
      rw [loadFiles_cons_of_ok ends]
      exact first.trans (ih first.distinct)

/-! ## §5 Runs of calls -/

/-- A call that loads rules. -/
inductive Call where
  | loadFile (file : Path)
  | loadAll (path : Path)

/-- What a call leads to. -/
def Call.perform (tree : FileTree) : Call → RuleSet → Loaded
  | .loadFile file, s => RuleSet.loadFile tree file s
  | .loadAll path, s => RuleSet.loadAll tree path s

/-- The files that a call loads, as long as none fails. -/
def Call.files (tree : FileTree) : Call → List Path
  | .loadFile file => [file]
  | .loadAll path =>
    match tree.holds path with
    | .ok true => if tree.isFile path then [path] else ruleFiles tree path
    | _ => []

/-- The set after calls, each of which may have failed. -/
def run (tree : FileTree) : List Call → RuleSet → RuleSet
  | [], s => s
  | call :: calls, s => run tree calls (call.perform tree s).ruleSet

theorem loadFiles_singleton :
    (loadFiles tree [file] s).ruleSet = (loadFile tree file s).ruleSet := by
  cases ends : (loadFile tree file s).outcome with
  | error e => rw [loadFiles_cons_of_error ends]
  | ok =>
    rw [loadFiles_cons_of_ok ends]
    rfl

/-- A call loads its files one after the other. -/
theorem Call.perform_ruleSet (call : Call) :
    (call.perform tree s).ruleSet = (loadFiles tree (call.files tree) s).ruleSet := by
  cases call with
  | loadFile file => exact loadFiles_singleton.symm
  | loadAll path =>
    simp only [perform, files, RuleSet.loadAll]
    cases tree.holds path with
    | error e => rfl
    | ok there =>
      cases there
      · rfl
      · by_cases isFile : tree.isFile path
        · simp only [isFile, if_true]
          exact loadFiles_singleton.symm
        · simp only [isFile, Bool.false_eq_true, if_false]

theorem Call.perform_grows (call : Call) (distinct : s.names.Nodup) :
    Grows s (call.perform tree s).ruleSet :=
  call.perform_ruleSet ▸ loadFiles_grows (call.files tree) distinct

theorem run_append (calls more : List Call) :
    run tree (calls ++ more) s = run tree more (run tree calls s) := by
  induction calls generalizing s with
  | nil => rfl
  | cons call calls ih => exact ih

theorem run_grows (calls : List Call) (distinct : s.names.Nodup) :
    Grows s (run tree calls s) := by
  induction calls generalizing s with
  | nil => exact .refl distinct
  | cons call calls ih =>
    have first : Grows s (call.perform tree s).ruleSet := call.perform_grows distinct
    exact first.trans (ih first.distinct)

/-! ## §6 Files that were loaded to their end -/

/-- The set has a rule for each item of the file. -/
def Contains (tree : FileTree) (file : Path) (s : RuleSet) : Prop :=
  ∀ items, fileItems? tree file = some items →
    ∀ item ∈ items, ∃ r ∈ s.rules, Rule.ofValue item (some file) = .ok r

theorem Contains.mono (h : Contains tree file s) (grows : Grows s s') : Contains tree file s' := by
  intro items listed item mem
  obtain ⟨r, stored, described⟩ := h items listed item mem
  exact ⟨r, grows.keeps.subset stored, described⟩

theorem Appends.exists_of_mem (h : Appends file s items rules) {item : Value} (mem : item ∈ items) :
    ∃ r ∈ rules, Rule.ofValue item (some file) = .ok r := by
  have described := h.described
  clear h
  induction described with
  | nil => cases mem
  | @cons first r items rules one _ ih =>
    rcases List.mem_cons.mp mem with rfl | mem
    · exact ⟨r, List.mem_cons_self .., one⟩
    · obtain ⟨r', stored, one'⟩ := ih mem
      exact ⟨r', List.mem_cons_of_mem _ stored, one'⟩

/-- A load that succeeds leaves a rule for each item. -/
theorem loadFile_contains (distinct : s.names.Nodup)
    (complete : (loadFile tree file s).outcome = .ok ()) :
    Contains tree file (loadFile tree file s).ruleSet := by
  have loads : LoadsFile tree file s (loadFile tree file s) := loadFile_loads distinct
  generalize loadFile tree file s = loaded at loads complete
  intro items listed item mem
  cases loads with
  | items listed' adds =>
    obtain rfl := Option.some.inj (listed.symm.trans listed')
    cases adds with
    | all appends =>
      obtain ⟨r, stored, described⟩ := appends.exists_of_mem mem
      exact ⟨r, List.mem_append_right _ stored, described⟩
    | upTo => cases complete
  | @blank v content blank =>
    -- A document with items is not blank.
    simp only [fileItems?, content] at listed
    rw [isBlankDocument_of_items listed] at blank
    cases blank
  | unreadable | invalid | noItems => cases complete

/-- Loading the files one after the other gets to this file and loads it to its end. -/
inductive Completes (tree : FileTree) (file : Path) : List Path → RuleSet → Prop where
  | here {files : List Path} {s : RuleSet} :
      (loadFile tree file s).outcome = .ok () → Completes tree file (file :: files) s
  | later {first : Path} {files : List Path} {s : RuleSet} :
      (loadFile tree first s).outcome = .ok () →
      Completes tree file files (loadFile tree first s).ruleSet →
      Completes tree file (first :: files) s

theorem Completes.contains {files : List Path} (h : Completes tree file files s)
    (distinct : s.names.Nodup) : Contains tree file (loadFiles tree files s).ruleSet := by
  induction h with
  | @here files s complete =>
    have first : Grows s (loadFile tree file s).ruleSet := loadFile_grows distinct
    rw [loadFiles_cons_of_ok complete]
    exact (loadFile_contains distinct complete).mono (loadFiles_grows files first.distinct)
  | later complete _ ih =>
    rw [loadFiles_cons_of_ok complete]
    exact ih (loadFile_grows distinct).distinct

/-- One of the calls loaded the file to its end, however the others ended. -/
def Completed (tree : FileTree) (file : Path) (calls : List Call) : Prop :=
  ∃ before call after, calls = before ++ call :: after ∧
    Completes tree file (call.files tree) (run tree before .empty)

theorem empty_distinct : empty.names.Nodup := List.nodup_nil

theorem Completed.contains {calls : List Call} (h : Completed tree file calls) :
    Contains tree file (run tree calls .empty) := by
  -- The set has the rules after the call, and it only grows in the calls after that.
  obtain ⟨before, call, after, rfl, completes⟩ := h
  have reached : Grows empty (run tree before .empty) := run_grows before empty_distinct
  have loaded := completes.contains reached.distinct
  rw [← call.perform_ruleSet] at loaded
  rw [run_append]
  exact loaded.mono (run_grows after (call.perform_grows reached.distinct).distinct)

/-- The first item of a file that was loaded before is refused, since its name is taken. -/
theorem loadFile_of_contains {item : Value} (h : Contains tree file s)
    (listed : fileItems? tree file = some (item :: items)) :
    ∃ r, Rule.ofValue item (some file) = .ok r ∧
      loadFile tree file s = ⟨.error (.rule ⟨some file, .duplicateName r.name⟩), [], s⟩ := by
  obtain ⟨r, stored, described⟩ := h _ listed item (List.mem_cons_self ..)
  refine ⟨r, described, ?_⟩
  have taken : r.name ∈ s.names := List.mem_map_of_mem stored
  have refused : addItems file (item :: items) s =
      (.error ⟨some file, .duplicateName r.name⟩, s) := by
    simp only [addItems, described, taken, if_true]
  unfold fileItems? at listed
  split at listed
  · rename_i v content
    simp only [loadFile, content, addDocument, isBlankDocument_of_items listed,
      Bool.false_eq_true, if_false, listed, refused]
  · cases listed

/-! ## §7 Any run of calls -/

/-- **What holds of the set of rules after any run of calls.**  Its names are distinct and each finds
its rule; no call takes a rule away or moves it; a load of a file adds the rules of its items up to
the first refused one, and fails for that one; and a file with a rule that was loaded to its end is
refused from then on and changes nothing. -/
theorem run_loads (tree : FileTree) (calls : List Call) :
    let s := run tree calls .empty
    s.names.Nodup ∧
    (∀ name r, s.find? name = some r ↔ r ∈ s.rules ∧ r.name = name) ∧
    (∀ call : Call, s.rules <+: (call.perform tree s).ruleSet.rules) ∧
    (∀ file, LoadsFile tree file s (loadFile tree file s)) ∧
    (∀ file item items, fileItems? tree file = some (item :: items) → Completed tree file calls →
      ∃ r, Rule.ofValue item (some file) = .ok r ∧
        loadFile tree file s = ⟨.error (.rule ⟨some file, .duplicateName r.name⟩), [], s⟩) := by
  intro s
  have distinct : s.names.Nodup := (run_grows calls empty_distinct).distinct
  refine ⟨distinct, fun name r => find?_eq_some_iff distinct, fun call => ?_,
    fun file => loadFile_loads distinct, fun file item items listed completed => ?_⟩
  · exact (call.perform_grows distinct).keeps
  · exact loadFile_of_contains completed.contains listed

/-- A document with a rule of each name. -/
def documentOf (names : List String) : Value :=
  .map (.given 0) [(.string "rules", .list (.given 1)
    (names.map fun name => .map (.given 2) [(.string "name", .string name)]))]

/-- Two files of rules, the second of which repeats a name of the first. -/
def repeatingFiles : FileTree :=
  ⟨[(["a.yml"], .file (.document (documentOf ["one", "two"]))),
    (["b.yml"], .file (.document (documentOf ["three", "two", "four"])))]⟩

/-- The second file leaves its first rule behind, and loading the first one again changes nothing. -/
theorem run_loads_repeated :
    let s := run repeatingFiles [.loadAll ⟨"", ["a.yml"]⟩, .loadFile ⟨"", ["b.yml"]⟩] .empty
    s.names = ["one", "two", "three"] ∧
      loadFile repeatingFiles ⟨"", ["a.yml"]⟩ s =
        ⟨.error (.rule ⟨some ⟨"", ["a.yml"]⟩, .duplicateName "one"⟩), [], s⟩ := by
  have names : (run repeatingFiles [.loadAll ⟨"", ["a.yml"]⟩, .loadFile ⟨"", ["b.yml"]⟩] .empty).names =
      ["one", "two", "three"] := by rfl
  have files : (Call.loadAll ⟨"", ["a.yml"]⟩).files repeatingFiles = [⟨"", ["a.yml"]⟩] := by rfl
  have complete : (loadFile repeatingFiles ⟨"", ["a.yml"]⟩ empty).outcome = .ok () := by rfl
  have completed : Completed repeatingFiles ⟨"", ["a.yml"]⟩
      [.loadAll ⟨"", ["a.yml"]⟩, .loadFile ⟨"", ["b.yml"]⟩] :=
    ⟨[], _, _, rfl, files ▸ .here complete⟩
  have listed : fileItems? repeatingFiles ⟨"", ["a.yml"]⟩ =
      itemsOf? (documentOf ["one", "two"]) := by rfl
  obtain ⟨_, _, _, _, repeated⟩ := run_loads repeatingFiles
    [.loadAll ⟨"", ["a.yml"]⟩, .loadFile ⟨"", ["b.yml"]⟩]
  obtain ⟨r, described, refused⟩ := repeated _ _ _ listed completed
  cases described
  exact ⟨names, refused⟩

end RuleSet

end Visibility
