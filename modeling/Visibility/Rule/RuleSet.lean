import Visibility.FileTree
import Visibility.Rule

/-!
# Sets of rules

The rules that were loaded so far, in load order and with distinct names.  A file adds the rules of
its document one by one; the first item that is no rule, or whose name is taken, ends the loading of
the file, and the rules before it stay.
-/

namespace Visibility

/-! ## §1 The type -/

/-- Loaded rules in load order. -/
structure RuleSet where
  rules : List Rule

/-- Why a file of rules was not loaded, or not to its end. -/
inductive LoadError where
  | rule (error : RuleError)
  | access (file : Path) (error : AccessError)
  deriving DecidableEq, Repr

/-- What is worth a warning while loading. -/
inductive LoadWarning where
  | missingPath (path : Path)
  | emptyFile (file : Path)
  deriving DecidableEq, Repr

/-- The message of a warning. -/
def LoadWarning.message : LoadWarning → String
  | .missingPath path => "Rules path " ++ path.text ++ " does not exist"
  | .emptyFile file => "Rule file " ++ file.text ++ " is empty, skipping"

/-- What loading leads to: how it ended, the warnings, and the rules afterwards. -/
structure Loaded where
  outcome : Except LoadError Unit
  warnings : List LoadWarning
  ruleSet : RuleSet

namespace RuleSet

/-- The set without rules. -/
def empty : RuleSet := ⟨[]⟩

/-- The rule of a name. -/
def find? (s : RuleSet) (name : String) : Option Rule :=
  s.rules.find? (·.name == name)

/-- The names of the rules in load order. -/
def names (s : RuleSet) : List String :=
  s.rules.map (·.name)

/-! ## §2 Loading -/

/-- Adds the rules that items describe, up to the first item that is refused. -/
def addItems (file : Path) : List Value → RuleSet → Except RuleError Unit × RuleSet
  | [], s => (.ok (), s)
  | item :: items, s =>
    match Rule.ofValue item (some file) with
    | .error e => (.error e, s)
    | .ok r =>
      if r.name ∈ s.names then (.error ⟨some file, .duplicateName r.name⟩, s)
      else addItems file items ⟨s.rules ++ [r]⟩

/-- Whether a document says nothing: it is absent, false, zero, or empty. -/
def isBlankDocument : Value → Bool
  | .undefined | .null => true
  | .bool b => !b
  | .number x => x.exact.order? (.finite (.ofInt 0)) == some .eq
  | .string s => s == ""
  | .list _ items | .tuple _ items => items.isEmpty
  | .map _ entries => entries.isEmpty
  | .foreign _ thing => thing.isEmpty

/-- The items of a document of rules. -/
def itemsOf? (document : Value) : Option (List Value) :=
  match (document.entries?).bind (Value.find? "rules") with
  | some (.list _ items) => some items
  | _ => none

/-- Adds the rules of a document. -/
def addDocument (file : Path) (document : Value) (s : RuleSet) : Loaded :=
  if isBlankDocument document then ⟨.ok (), [.emptyFile file], s⟩
  else
    match itemsOf? document with
    | none => ⟨.error (.rule ⟨some file, .noRuleList⟩), [], s⟩
    | some items =>
      match addItems file items s with
      | (.ok (), s) => ⟨.ok (), [], s⟩
      | (.error e, s) => ⟨.error (.rule e), [], s⟩

/-- Loads one file. -/
def loadFile (tree : FileTree) (file : Path) (s : RuleSet) : Loaded :=
  match tree.read file with
  | .error e => ⟨.error (.access file e), [], s⟩
  | .ok .invalid => ⟨.error (.rule ⟨some file, .invalidDocument⟩), [], s⟩
  | .ok (.document v) => addDocument file v s

/-- Loads files in order, up to the first that fails. -/
def loadFiles (tree : FileTree) : List Path → RuleSet → Loaded
  | [], s => ⟨.ok (), [], s⟩
  | file :: files, s =>
    let first := loadFile tree file s
    match first.outcome with
    -- The rules of the files before stay.
    | .error _ => first
    | .ok () =>
      let others := loadFiles tree files first.ruleSet
      { others with warnings := first.warnings ++ others.warnings }

/-- Whether a name in a directory is that of a rule file. -/
def isRuleFileName (name : String) : Bool :=
  name.endsWith ".yaml" || name.endsWith ".yml"

/-- The rule files of a directory, in the order of their names. -/
def ruleFiles (tree : FileTree) (directory : Path) : List Path :=
  ((tree.namesIn directory).filter isRuleFileName).map directory.child

/-- Loads a rule file, or all rule files of a directory. -/
def loadAll (tree : FileTree) (path : Path) (s : RuleSet) : Loaded :=
  match tree.holds path with
  | .error e => ⟨.error (.access path e), [], s⟩
  | .ok false => ⟨.ok (), [.missingPath path], s⟩
  | .ok true =>
    if tree.isFile path then loadFile tree path s
    else loadFiles tree (ruleFiles tree path) s

/-! ## §3 Using the rules -/

/-- The issues of all rules, by load order and then by index. -/
def issues (s : RuleSet) (cache : Cache) : List SyntaxIssue × Cache :=
  go s.rules cache
where
  go : List Rule → Cache → List SyntaxIssue × Cache
    | [], cache => ([], cache)
    | r :: rules, cache =>
      let (first, cache) := r.issues cache
      let (others, cache) := go rules cache
      (first ++ others, cache)

/-- The rules that are shown in a context, and what was swallowed on the way. -/
structure Shown where
  rules : Except CoercionError (List Rule)
  swallowed : List Swallowed

/-- The rules that are shown in a context, in load order. -/
def shown (s : RuleSet) (context : Context) (cache : Cache) : Shown × Cache :=
  go s.rules cache
where
  go : List Rule → Cache → Shown × Cache
    | [], cache => (⟨.ok [], []⟩, cache)
    | r :: rules, cache =>
      let (d, cache) := r.decideShown context cache
      match d.shown with
      | .error cause => (⟨.error cause, d.swallowed⟩, cache)
      | .ok isShown =>
        let (others, cache) := go rules cache
        (⟨others.rules.map (if isShown then (r :: ·) else id), d.swallowed ++ others.swallowed⟩,
          cache)

end RuleSet

end Visibility
