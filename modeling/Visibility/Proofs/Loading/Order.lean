import Mathlib.Data.List.Forall2
import Visibility.Proofs.CheckCommand
import Visibility.Proofs.Decision.Order
import Visibility.Proofs.Loading

/-!
# The order of rule files

Files are loaded one after the other, and the first that fails ends the loading.  Whether none fails
does not depend on their order: each file has to describe rules, or to say nothing, and no two of all
their rules may share a name.  Neither condition looks at the set that was loaded before.

* `WritesRule`, `ofValue_eq_ok` — which items describe rules
* `Describes` — which rules a file describes
* `loadFile_endsWell`, `loadFiles_endsWell` — when loading ends well, and with which rules
* `mem_namesIn`, `namesIn_pairwise` — the files of a directory and their order
* `loadFiles_orderFree` — files in another order, and files under other names
-/

namespace Visibility

/-! ## §1 Items -/

/-- What may stand under the conditions of an item, and the conditions that it stands for. -/
inductive WritesConditions : Option Value → List String → Prop where
  | absent : WritesConditions none []
  | null : WritesConditions (some .null) []
  | one (text : String) : WritesConditions (some (.string text)) [text]
  | many (id : Identity) (texts : List String) :
      WritesConditions (some (.list id (texts.map .string))) texts

/-- An item that describes a rule: a mapping with a name that is not empty, and with nothing but
texts as conditions. -/
inductive WritesRule : Value → Rule → Prop where
  | mapping {id : Identity} {entries : List (Value × Value)} {r : Rule} :
      Value.find? "name" entries = some (.string r.name) → r.name ≠ "" →
      WritesConditions (Value.find? "showWhen" entries) r.conditions →
      r.description = (Value.find? "description" entries).getD (.string "") →
      WritesRule (.map id entries) r

/-- A rule without the file that it comes from. -/
def Rule.content (r : Rule) : Rule := { r with source := none }

theorem string?_eq_some {v : Value} {s : String} : v.string? = some s ↔ v = .string s := by
  cases v <;> simp [Value.string?]

theorem mapM_string?_eq_some {items : List Value} {texts : List String} :
    items.mapM Value.string? = some texts ↔ items = texts.map .string := by
  induction items generalizing texts with
  | nil => cases texts <;> simp
  | cons item items ih =>
    simp only [List.mapM_cons, Option.bind_eq_bind, Option.bind_eq_some_iff, Option.pure_def,
      Option.some.injEq, string?_eq_some, ih]
    constructor
    · rintro ⟨text, rfl, texts', rfl, rfl⟩
      rfl
    · intro same
      obtain ⟨text, texts', rfl, rfl, rfl⟩ := List.map_eq_cons_iff.mp same.symm
      exact ⟨text, rfl, texts', rfl, rfl⟩

theorem conditionsOf?_eq_some {found : Option Value} {texts : List String} :
    conditionsOf? (found.getD .null) = some texts ↔ WritesConditions found texts := by
  constructor
  · intro read
    cases found with
    | none =>
      cases read
      exact .absent
    | some v =>
      rw [Option.getD_some] at read
      unfold conditionsOf? at read
      split at read
      · cases read
        exact .null
      · cases read
        exact .one _
      · -- Each item of a list has to be a text.
        rw [mapM_string?_eq_some] at read
        subst read
        exact .many _ texts
      · cases read
  · rintro (_ | _ | _ | ⟨id, texts⟩)
    · rfl
    · rfl
    · rfl
    · exact mapM_string?_eq_some.mpr rfl

/-- Items are accepted if they describe rules. -/
theorem ofValue_eq_ok {item : Value} {file : Option Path} {r : Rule} :
    Rule.ofValue item file = .ok r ↔ WritesRule item r ∧ r.source = file := by
  constructor
  · -- The reader is followed through its checks; what each one lets pass is a part of the rule.
    intro read
    unfold Rule.ofValue at read
    split at read
    · cases read
    · rename_i entries isMap
      obtain ⟨id, rfl⟩ : ∃ id, item = .map id entries := by
        cases item <;> simp_all [Value.entries?]
      split at read
      · cases read
      · cases read
      · rename_i name nonempty named
        obtain ⟨v, found, text⟩ := Option.bind_eq_some_iff.mp named
        rw [string?_eq_some] at text
        subst text
        split at read
        · cases read
        · rename_i conditions written
          cases read
          exact ⟨.mapping found nonempty (conditionsOf?_eq_some.mp written) rfl, rfl⟩
  · -- Conversely every check passes, since the description says what it looks at.
    obtain ⟨name, conditions, description, source⟩ := r
    rintro ⟨⟨named, nonempty, written, described⟩, rfl⟩
    dsimp only at named nonempty described
    have read := conditionsOf?_eq_some.mpr written
    unfold Rule.ofValue
    simp only [Value.entries?, named, Option.bind_some, Value.string?, read, described]

namespace FileTree

variable {tree : FileTree} {path : Path}

/-! ## §2 Entries -/

/-- A path is followed to the entry at its end. -/
theorem find_eq_ok {place : List String} {entry : FileEntry}
    (reached : tree.follow (origin path) path.parts = .ok place)
    (there : tree.entryAt? place = some entry)
    (plain : path.text.toList.contains '\x00' = false)
    (short : ¬pathBytesLimit ≤ path.text.utf8ByteSize) : tree.find path = .ok entry := by
  unfold find
  simp only [plain, Bool.false_eq_true, if_false, short, reached, there, Option.elim_some]

theorem read_eq_ok {content : FileContent}
    (found : tree.find path = .ok (.file content)) : tree.read path = .ok content := by
  simp only [read, found]

end FileTree

namespace RuleSet

variable {tree tree' : FileTree} {file file' : Path} {files files' : List Path}
variable {s s' : RuleSet} {items : List Value} {rules rules' : List Rule}

/-! ## §3 Files -/

/-- The file describes the rules: its document lists them, or says nothing. -/
inductive Describes (tree : FileTree) (file : Path) : List Rule → Prop where
  | nothing {v : Value} :
      tree.read file = .ok (.document v) → isBlankDocument v = true → Describes tree file []
  | listed {id list : Identity} {entries : List (Value × Value)} {items : List Value}
      {rules : List Rule} :
      tree.read file = .ok (.document (.map id entries)) →
      Value.find? "rules" entries = some (.list list items) →
      List.Forall₂ (fun item r => WritesRule item r ∧ r.source = some file) items rules →
      Describes tree file rules

/-- The load ends well, and these are the rules afterwards. -/
def EndsWell (loaded : Loaded) (s : RuleSet) : Prop :=
  loaded.outcome = .ok () ∧ loaded.ruleSet = s

theorem itemsOf?_eq_some {v : Value} : itemsOf? v = some items ↔
    ∃ id list entries, v = .map id entries ∧
      Value.find? "rules" entries = some (.list list items) := by
  constructor
  · intro listed
    unfold itemsOf? at listed
    split at listed
    · rename_i list own found
      cases listed
      obtain ⟨entries, isMap, found⟩ := Option.bind_eq_some_iff.mp found
      cases v <;> simp_all [Value.entries?]
    · cases listed
  · rintro ⟨id, list, entries, rfl, found⟩
    simp [itemsOf?, Value.entries?, found]

/-- Items that describe rules with new and distinct names are all added, before those behind them. -/
theorem Appends.addItems_append {more : List Value} (appends : Appends file s items rules) :
    addItems file (items ++ more) s = addItems file more ⟨s.rules ++ rules⟩ := by
  obtain ⟨described, fresh⟩ := appends
  induction described generalizing s with
  | nil => simp
  | @cons item r items rules first others ih =>
    -- The name of the first rule stands before those of the others.
    have shifted : ((⟨s.rules ++ [r]⟩ : RuleSet).names ++ rules.map (·.name)).Nodup := by
      rwa [names_append, List.map_singleton, List.append_assoc]
    have free : r.name ∉ s.names := by
      rw [List.map_cons, List.nodup_append] at fresh
      exact fun taken => fresh.2.2 _ taken _ List.mem_cons_self rfl
    rw [List.cons_append, addItems, first]
    dsimp only
    rw [if_neg free, ih shifted, List.append_assoc, List.singleton_append]

theorem Appends.addItems_eq (appends : Appends file s items rules) :
    addItems file items s = (.ok (), ⟨s.rules ++ rules⟩) := by
  have added : addItems file (items ++ []) s = addItems file [] ⟨s.rules ++ rules⟩ :=
    appends.addItems_append
  simpa [addItems] using added

theorem addItems_eq_ok (distinct : s.names.Nodup) :
    addItems file items s = (.ok (), s') ↔
      ∃ rules, Appends file s items rules ∧ s' = ⟨s.rules ++ rules⟩ := by
  constructor
  · intro added
    have adds : AddsItems file s items (addItems file items s) := addItems_adds distinct
    rw [added] at adds
    cases adds with
    | all appends => exact ⟨_, appends, rfl⟩
  · rintro ⟨rules, appends, rfl⟩
    exact appends.addItems_eq

/-- A file is loaded to its end if it describes rules whose names are new and distinct. -/
theorem loadFile_endsWell (distinct : s.names.Nodup) :
    EndsWell (loadFile tree file s) s' ↔
      ∃ rules, Describes tree file rules ∧ (s.names ++ rules.map (·.name)).Nodup ∧
        s' = ⟨s.rules ++ rules⟩ := by
  unfold EndsWell
  constructor
  · -- Only two ways through the reader end without a failure: nothing is in the document, or all
    -- items are added.
    rintro ⟨complete, rfl⟩
    unfold loadFile at complete ⊢
    split at complete
    · cases complete
    · cases complete
    · rename_i v content
      unfold addDocument at complete ⊢
      split at complete
      · rename_i blank
        refine ⟨[], .nothing content blank, by simpa using distinct, ?_⟩
        simp [blank]
      · split at complete
        · cases complete
        · rename_i items listed
          have notBlank := isBlankDocument_of_items listed
          obtain ⟨id, list, entries, rfl, found⟩ := itemsOf?_eq_some.mp listed
          split at complete
          · rename_i after added
            obtain ⟨rules, appends, same⟩ := (addItems_eq_ok distinct).mp added
            refine ⟨rules, .listed content found ?_, appends.fresh, ?_⟩
            · exact appends.described.imp fun _ _ => ofValue_eq_ok.mp
            · simp [notBlank, same]
          · cases complete
  · -- Both kinds of description make the reader take the way it belongs to.
    rintro ⟨rules, describes, fresh, rfl⟩
    cases describes with
    | nothing content blank => simp [loadFile, content, addDocument, blank]
    | @listed id list entries items rules content found described =>
      have listed : itemsOf? (.map id entries) = some items :=
        itemsOf?_eq_some.mpr ⟨id, list, entries, rfl, found⟩
      have notBlank := isBlankDocument_of_items listed
      have appends : Appends file s items rules :=
        ⟨described.imp fun _ _ => ofValue_eq_ok.mpr, fresh⟩
      simp only [loadFile, content, addDocument, notBlank, listed, appends.addItems_eq]
      exact ⟨rfl, rfl⟩

theorem loadFiles_cons_endsWell : EndsWell (loadFiles tree (file :: files) s) s' ↔
    ∃ s₁, EndsWell (loadFile tree file s) s₁ ∧ EndsWell (loadFiles tree files s₁) s' := by
  unfold EndsWell
  rw [loadFiles]
  dsimp only
  cases ends : (loadFile tree file s).outcome with
  | error e => simp [ends]
  | ok => simp

/-- Files are loaded to their ends if each of them describes rules, and the names of all of these are
new and distinct. -/
theorem loadFiles_endsWell (distinct : s.names.Nodup) :
    EndsWell (loadFiles tree files s) s' ↔
      ∃ parts, List.Forall₂ (Describes tree) files parts ∧
        (s.names ++ parts.flatten.map (·.name)).Nodup ∧ s' = ⟨s.rules ++ parts.flatten⟩ := by
  induction files generalizing s with
  | nil => simp [EndsWell, loadFiles, distinct, eq_comm]
  | cons file files ih =>
    simp only [loadFiles_cons_endsWell, List.forall₂_cons_left_iff]
    -- What the first file adds is there when the others are loaded.
    have names (rules : List Rule) (parts : List (List Rule)) :
        (⟨s.rules ++ rules⟩ : RuleSet).names ++ parts.flatten.map (·.name) =
          s.names ++ (rules :: parts).flatten.map (·.name) := by
      rw [names_append, List.flatten_cons, List.map_append, List.append_assoc]
    have appended (rules : List Rule) (parts : List (List Rule)) :
        s.rules ++ rules ++ parts.flatten = s.rules ++ (rules :: parts).flatten := by
      rw [List.flatten_cons, List.append_assoc]
    constructor
    · rintro ⟨s₁, first, others⟩
      obtain ⟨rules, describes, fresh, rfl⟩ := (loadFile_endsWell distinct).mp first
      have distinct₁ : (⟨s.rules ++ rules⟩ : RuleSet).names.Nodup := by rwa [names_append]
      obtain ⟨parts, described, fresh', rfl⟩ := (ih distinct₁).mp others
      refine ⟨rules :: parts, ⟨_, _, describes, described, rfl⟩, ?_, ?_⟩
      · rwa [← names]
      · rw [← appended]
    · rintro ⟨_, ⟨rules, parts, describes, described, rfl⟩, fresh, rfl⟩
      rw [← names] at fresh
      have distinct₁ : (⟨s.rules ++ rules⟩ : RuleSet).names.Nodup := fresh.of_append_left
      refine ⟨⟨s.rules ++ rules⟩, (loadFile_endsWell distinct).mpr ⟨rules, describes, ?_, rfl⟩,
        (ih distinct₁).mpr ⟨parts, described, fresh, ?_⟩⟩
      · rwa [names_append] at distinct₁
      · rw [appended]

/-! ## §4 Files in another order -/

theorem endsWell_iff {loaded : Loaded} :
    loaded.outcome = .ok () ↔ EndsWell loaded loaded.ruleSet :=
  ⟨fun complete => ⟨complete, rfl⟩, And.left⟩

/-- Into the set without rules, files are loaded if all the names of their rules are distinct. -/
theorem loadFiles_empty_endsWell :
    EndsWell (loadFiles tree files .empty) s ↔
      ∃ parts, List.Forall₂ (Describes tree) files parts ∧
        (parts.flatten.map (·.name)).Nodup ∧ s = ⟨parts.flatten⟩ :=
  loadFiles_endsWell empty_distinct

theorem EndsWell.perm (perm : files.Perm files')
    (ends : EndsWell (loadFiles tree files .empty) s) :
    ∃ s', EndsWell (loadFiles tree files' .empty) s' ∧ s.rules.Perm s'.rules := by
  obtain ⟨parts, described, distinct, rfl⟩ := loadFiles_empty_endsWell.mp ends
  obtain ⟨parts', described', permParts⟩ := List.perm_comp_forall₂ perm.symm described
  have permRules : parts.flatten.Perm parts'.flatten := permParts.symm.flatten
  have distinct' : (parts'.flatten.map (·.name)).Nodup := (permRules.map _).nodup distinct
  exact ⟨_, loadFiles_empty_endsWell.mpr ⟨parts', described', distinct', rfl⟩, permRules⟩

/-! ## §5 Files under other names -/

/-- The second list has the files of the first one, under other names and in another order. -/
def SameFiles (tree tree' : FileTree) (files files' : List Path) : Prop :=
  Relation.Comp (List.Forall₂ fun file file' => tree'.read file' = tree.read file) List.Perm
    files files'

theorem SameFiles.symm (same : SameFiles tree tree' files files') :
    SameFiles tree' tree files' files := by
  obtain ⟨renamed, each, perm⟩ := same
  have back : List.Forall₂ (fun file' file => tree.read file = tree'.read file') renamed files :=
    (each.imp fun _ _ => Eq.symm).flip
  exact List.perm_comp_forall₂ perm.symm back

/-- A file under another name describes the same rules. -/
theorem Describes.renamed (describes : Describes tree file rules)
    (same : tree'.read file' = tree.read file) :
    ∃ rules', Describes tree' file' rules' ∧ rules'.map Rule.content = rules.map Rule.content := by
  cases describes with
  | nothing content blank => exact ⟨[], .nothing (same.trans content) blank, rfl⟩
  | listed content found described =>
    refine ⟨rules.map fun r => { r with source := some file' },
      .listed (same.trans content) found ?_, by simp [Rule.content]⟩
    rw [List.forall₂_map_right_iff]
    exact described.imp fun _ _ ⟨⟨named, nonempty, written, text⟩, _⟩ =>
      ⟨.mapping named nonempty written text, rfl⟩

theorem exists_renamed {parts : List (List Rule)}
    (same : List.Forall₂ (fun file file' => tree'.read file' = tree.read file) files files')
    (described : List.Forall₂ (Describes tree) files parts) :
    ∃ parts', List.Forall₂ (Describes tree') files' parts' ∧
      parts'.flatten.map Rule.content = parts.flatten.map Rule.content := by
  induction same generalizing parts with
  | nil =>
    cases described
    exact ⟨[], .nil, rfl⟩
  | cons first others ih =>
    obtain ⟨rules, parts, describes, rest, rfl⟩ := List.forall₂_cons_left_iff.mp described
    obtain ⟨rules', describes', content⟩ := describes.renamed first
    obtain ⟨parts', described', contents⟩ := ih rest
    exact ⟨rules' :: parts', .cons describes' described', by simp [content, contents]⟩

theorem map_name_content (rules : List Rule) :
    (rules.map Rule.content).map (·.name) = rules.map (·.name) := by
  simp [Rule.content]

theorem EndsWell.renamed (same : SameFiles tree tree' files files')
    (ends : EndsWell (loadFiles tree files .empty) s) :
    ∃ s', EndsWell (loadFiles tree' files' .empty) s' ∧
      (s.rules.map Rule.content).Perm (s'.rules.map Rule.content) := by
  obtain ⟨files₁, each, perm⟩ := same
  obtain ⟨parts, described, distinct, rfl⟩ := loadFiles_empty_endsWell.mp ends
  obtain ⟨parts', described', content⟩ := exists_renamed each described
  -- The names are part of the content.
  have distinct' : (parts'.flatten.map (·.name)).Nodup := by
    rwa [← map_name_content, content, map_name_content]
  have renamed : EndsWell (loadFiles tree' files₁ .empty) ⟨parts'.flatten⟩ :=
    loadFiles_empty_endsWell.mpr ⟨parts', described', distinct', rfl⟩
  obtain ⟨s', ends', permRules⟩ := renamed.perm perm
  refine ⟨s', ends', ?_⟩
  rw [← content]
  exact permRules.map _

/-! ## §6 The rules that are shown -/

section Shown

variable {context : Context} {cache cache' : Cache} {shown shown' : List Rule}

/-- Whether a rule is shown, where that is decided at all. -/
def isShown (context : Context) (r : Rule) : Bool :=
  match r.decideAfresh context with
  | .ok shown => shown
  | .error _ => false

/-- If the rules are shown, each of them is decided. -/
theorem shown_eq_ok (faithful : cache.Faithful)
    (h : (s.shown context cache).1.rules = .ok shown) :
    shown = s.rules.filter (isShown context) := by
  have decided : ∀ r ∈ s.rules, r.decideAfresh context = .ok (isShown context r) := by
    intro r mem
    unfold isShown
    cases truth : r.decideAfresh context with
    | ok b => rfl
    | error cause =>
      obtain ⟨refused, rfl⟩ := Rule.decideAfresh_eq_error.mp truth
      have failed := (shown_eq_error faithful).mpr ⟨⟨r, mem, refused⟩, rfl⟩
      rw [h] at failed
      cases failed
  rw [shown_eq_filter faithful decided] at h
  exact (Except.ok.inj h).symm

/-- Rule sets of the same content fail alike, and show the same rules. -/
theorem shown_perm (perm : (s.rules.map Rule.content).Perm (s'.rules.map Rule.content))
    (faithful : cache.Faithful) (faithful' : cache'.Faithful) :
    (∀ cause, (s.shown context cache).1.rules = .error cause ↔
      (s'.shown context cache').1.rules = .error cause) ∧
    (∀ shown shown', (s.shown context cache).1.rules = .ok shown →
      (s'.shown context cache').1.rules = .ok shown' →
      (shown.map Rule.content).Perm (shown'.map Rule.content)) := by
  constructor
  · intro cause
    have refused (s : RuleSet) : (∃ r ∈ s.rules, FirstRefused context r.conditions) ↔
        ∃ r ∈ s.rules.map Rule.content, FirstRefused context r.conditions := by
      simp [Rule.content]
    rw [shown_eq_error faithful, shown_eq_error faithful', refused s, refused s']
    simp only [perm.mem_iff]
  · intro shown shown' h h'
    -- What is decided about a rule does not depend on where it comes from.
    have content (rules : List Rule) : (rules.filter (isShown context)).map Rule.content =
        (rules.map Rule.content).filter (isShown context) := by
      rw [List.filter_map]
      rfl
    rw [shown_eq_ok faithful h, shown_eq_ok faithful' h', content, content]
    exact perm.filter _

end Shown

/-! ## §7 Directories -/

/-- The names of the rule files of a directory. -/
def ruleFileNames (tree : FileTree) (directory : Path) : List String :=
  (tree.namesIn directory).filter isRuleFileName

theorem entryAt?_isSome {place : List String} (nonempty : place ≠ []) :
    (tree.entryAt? place).isSome = true ↔ ∃ entry ∈ tree.entries, place <+: entry.1 := by
  unfold FileTree.entryAt?
  split
  · rename_i found
    have mem := List.mem_of_find?_eq_some found
    have here := List.find?_some found
    rw [beq_iff_eq] at here
    subst here
    simp only [Option.isSome_some, true_iff]
    exact ⟨_, mem, List.prefix_rfl⟩
  · simp [nonempty]

/-- The names in a directory are those of its entries. -/
theorem mem_namesIn {directory : Path} {place : List String} {name : String}
    (reached : tree.follow (FileTree.origin directory) directory.parts = .ok place) :
    name ∈ tree.namesIn directory ↔ (tree.entryAt? (place ++ [name])).isSome = true := by
  rw [entryAt?_isSome (by simp)]
  unfold FileTree.namesIn
  simp only [reached, List.mem_mergeSort, List.mem_eraseDups, List.mem_filterMap,
    Option.ite_none_right_eq_some, List.isPrefixOf_iff_prefix]
  refine exists_congr fun entry => and_congr_right fun _ => ?_
  constructor
  · rintro ⟨⟨rest, inside⟩, first⟩
    rw [← inside, List.drop_left] at first
    obtain ⟨others, rfl⟩ := List.head?_eq_some_iff.mp first
    exact ⟨others, by simpa using inside⟩
  · rintro ⟨others, inside⟩
    rw [← inside]
    simp

theorem nodup_eraseDups (names : List String) : names.eraseDups.Nodup := by
  match names with
  | [] => exact .nil
  | name :: names =>
    rw [List.eraseDups_cons, List.nodup_cons]
    exact ⟨by simp, nodup_eraseDups _⟩
termination_by names.length
decreasing_by exact Nat.lt_succ_of_le (List.length_filter_le _ _)

/-- The names in a directory are in ascending order, so each is there once. -/
theorem namesIn_pairwise (tree : FileTree) (directory : Path) :
    (tree.namesIn directory).Pairwise (· < ·) := by
  unfold FileTree.namesIn
  split
  · exact .nil
  · dsimp only
    generalize List.filterMap (β := String) _ _ = found
    set names := found.eraseDups
    have sorted := List.pairwise_mergeSort' (α := String) (· ≤ ·) names
    have once : (names.mergeSort fun a b => a ≤ b).Nodup :=
      (List.mergeSort_perm names _).nodup_iff.mpr (nodup_eraseDups _)
    exact (sorted.and once).imp fun ⟨le, ne⟩ => lt_of_le_of_ne le ne

/-- In a directory, the files with the names of rule files are loaded in the order of these. -/
theorem loadAll_directory {directory : Path} (found : tree.find directory = .ok .directory) :
    loadAll tree directory s =
      loadFiles tree ((ruleFileNames tree directory).map directory.child) s := by
  simp only [loadAll, FileTree.holds, FileTree.isFile, found]
  rfl

/-- A directory is a place that its parts lead to. -/
theorem exists_place {directory : Path} (found : tree.find directory = .ok .directory) :
    ∃ place, tree.follow (FileTree.origin directory) directory.parts = .ok place := by
  unfold FileTree.find at found
  split at found
  · cases found
  · split at found
    · cases found
    · split at found
      · cases found
      · rename_i place reached
        exact ⟨place, reached⟩

/-! ## §8 Any order -/

/-- **The order of rule files does not matter.**  Files are loaded without a failure exactly if each
describes rules and the names of all of them are distinct; the rules of each then stand together, in
the order of its items.  So in another order the same rules are loaded.  In a directory, the entries
with the names of rule files are loaded, each once and in ascending order of the names.  Under other
names the same rules are loaded, up to their order and their files, and the same rules are shown in
every context, whatever the caches were used for before. -/
theorem loadFiles_orderFree (tree : FileTree) :
    (∀ files s, EndsWell (loadFiles tree files .empty) s ↔
      ∃ parts, List.Forall₂ (Describes tree) files parts ∧
        (parts.flatten.map (·.name)).Nodup ∧ s = ⟨parts.flatten⟩) ∧
    (∀ files files' : List Path, files.Perm files' →
      ((loadFiles tree files .empty).outcome = .ok () ↔
        (loadFiles tree files' .empty).outcome = .ok ()) ∧
      ((loadFiles tree files .empty).outcome = .ok () →
        (loadFiles tree files .empty).ruleSet.rules.Perm
          (loadFiles tree files' .empty).ruleSet.rules)) ∧
    (∀ directory, tree.find directory = .ok .directory →
      (∀ s, loadAll tree directory s =
        loadFiles tree ((ruleFileNames tree directory).map directory.child) s) ∧
      (ruleFileNames tree directory).Pairwise (· < ·) ∧
      ∃ place, tree.follow (FileTree.origin directory) directory.parts = .ok place ∧
        ∀ name, name ∈ ruleFileNames tree directory ↔
          isRuleFileName name = true ∧ (tree.entryAt? (place ++ [name])).isSome = true) ∧
    (∀ directory tree' directory', tree.find directory = .ok .directory →
      tree'.find directory' = .ok .directory →
      SameFiles tree tree' ((ruleFileNames tree directory).map directory.child)
        ((ruleFileNames tree' directory').map directory'.child) →
      let loaded := loadAll tree directory .empty
      let loaded' := loadAll tree' directory' .empty
      (loaded.outcome = .ok () ↔ loaded'.outcome = .ok ()) ∧
      (loaded.outcome = .ok () →
        (loaded.ruleSet.rules.map Rule.content).Perm (loaded'.ruleSet.rules.map Rule.content) ∧
        ∀ context (cache cache' : Cache), cache.Reached → cache'.Reached →
          (∀ cause, (loaded.ruleSet.shown context cache).1.rules = .error cause ↔
            (loaded'.ruleSet.shown context cache').1.rules = .error cause) ∧
          ∀ shown shown', (loaded.ruleSet.shown context cache).1.rules = .ok shown →
            (loaded'.ruleSet.shown context cache').1.rules = .ok shown' →
            (shown.map Rule.content).Perm (shown'.map Rule.content))) := by
  refine ⟨fun files s => loadFiles_empty_endsWell, fun files files' perm => ?_,
    fun directory found => ?_, fun directory tree' directory' found found' same => ?_⟩
  · -- One direction is enough, since the other order is a permutation as well.
    have there {files files' : List Path} (perm : files.Perm files')
        (complete : (loadFiles tree files .empty).outcome = .ok ()) :=
      (endsWell_iff.mp complete).perm perm
    refine ⟨⟨fun complete => ?_, fun complete => ?_⟩, fun complete => ?_⟩
    · obtain ⟨_, ends, _⟩ := there perm complete
      exact ends.1
    · obtain ⟨_, ends, _⟩ := there perm.symm complete
      exact ends.1
    · obtain ⟨_, ⟨_, rfl⟩, permRules⟩ := there perm complete
      exact permRules
  · obtain ⟨place, reached⟩ := exists_place found
    refine ⟨fun s => loadAll_directory found, (namesIn_pairwise tree directory).filter _,
      place, reached, fun name => ?_⟩
    rw [ruleFileNames, List.mem_filter, mem_namesIn reached, and_comm]
  · -- Renamed files are the same files in another order, up to what the rules say about their file.
    rw [loadAll_directory found, loadAll_directory found']
    intro loaded loaded'
    refine ⟨⟨fun complete => ?_, fun complete => ?_⟩, fun complete => ?_⟩
    · obtain ⟨_, ends, _⟩ := (endsWell_iff.mp complete).renamed same
      exact ends.1
    · obtain ⟨_, ends, _⟩ := (endsWell_iff.mp complete).renamed same.symm
      exact ends.1
    · obtain ⟨_, ⟨_, rfl⟩, permRules⟩ := (endsWell_iff.mp complete).renamed same
      exact ⟨permRules, fun context cache cache' reached reached' =>
        shown_perm permRules reached.faithful reached'.faithful⟩

/-- A directory with two files that have rules of these names. -/
def twoFiles (first second : List String) : FileTree :=
  ⟨[(["r", "b.yml"], .file (.document (documentOf first))),
    (["r", "a.yaml"], .file (.document (documentOf second)))]⟩

theorem ruleFileNames_twoFiles (first second : List String) :
    ruleFileNames (twoFiles first second) ⟨"", ["r"]⟩ = ["a.yaml", "b.yml"] := by
  have sorted : (["b.yml", "a.yaml"] : List String).mergeSort (fun a b => a ≤ b) =
      ["a.yaml", "b.yml"] := by
    rw [List.mergeSort_eq_insertionSort]
    decide
  have names : (twoFiles first second).namesIn ⟨"", ["r"]⟩ = ["a.yaml", "b.yml"] := sorted
  rw [ruleFileNames, names]
  decide +kernel

/-- Where the two files swap their names, their rules change places. -/
theorem loadFiles_orderFree_swapped :
    let tree := twoFiles ["one", "two"] ["three"]
    let tree' := twoFiles ["three"] ["one", "two"]
    let directory : Path := ⟨"", ["r"]⟩
    let loaded := loadAll tree directory .empty
    let loaded' := loadAll tree' directory .empty
    tree.find directory = .ok .directory ∧ tree'.find directory = .ok .directory ∧
      SameFiles tree tree' ((ruleFileNames tree directory).map directory.child)
        ((ruleFileNames tree' directory).map directory.child) ∧
      loaded.outcome = .ok () ∧ loaded'.outcome = .ok () ∧
      loaded.ruleSet.names = ["three", "one", "two"] ∧
      loaded'.ruleSet.names = ["one", "two", "three"] ∧
      (loaded.ruleSet.rules.map Rule.content).Perm (loaded'.ruleSet.rules.map Rule.content) := by
  intro tree tree' directory loaded loaded'
  have isDirectory (first second : List String) :
      (twoFiles first second).find directory = .ok .directory := by cbv
  have names (first second : List String) : ruleFileNames (twoFiles first second) directory =
      ["a.yaml", "b.yml"] := ruleFileNames_twoFiles first second
  have inOrder (first second : List String) (s : RuleSet) :
      loadAll (twoFiles first second) directory s =
        loadFiles (twoFiles first second) [directory.child "a.yaml", directory.child "b.yml"] s := by
    rw [loadAll_directory (isDirectory first second), names]
    rfl
  -- Reading is settled for both trees at once, so that neither is walked through twice.
  have readFirst (first second : List String) : (twoFiles first second).read
      (directory.child "b.yml") = .ok (.document (documentOf first)) :=
    FileTree.read_eq_ok (FileTree.find_eq_ok rfl rfl (by decide +kernel) (by decide +kernel))
  have readSecond (first second : List String) : (twoFiles first second).read
      (directory.child "a.yaml") = .ok (.document (documentOf second)) :=
    FileTree.read_eq_ok (FileTree.find_eq_ok rfl rfl (by decide +kernel) (by decide +kernel))
  have same : SameFiles tree tree' ((ruleFileNames tree directory).map directory.child)
      ((ruleFileNames tree' directory).map directory.child) := by
    simp only [tree, tree', names]
    exact ⟨[directory.child "b.yml", directory.child "a.yaml"],
      .cons ((readFirst _ _).trans (readSecond _ _).symm)
        (.cons ((readSecond _ _).trans (readFirst _ _).symm) .nil), .swap _ _ _⟩
  have complete : loaded.outcome = .ok () := by
    simp only [loaded, tree, inOrder, loadFiles, loadFile, readFirst, readSecond]
    rfl
  obtain ⟨-, -, -, renamed⟩ := loadFiles_orderFree tree
  obtain ⟨iff, content⟩ :=
    renamed directory tree' directory (isDirectory _ _) (isDirectory _ _) same
  refine ⟨isDirectory _ _, isDirectory _ _, same, complete, iff.mp complete, ?_, ?_,
    (content complete).1⟩
  · simp only [loaded, tree, inOrder, loadFiles, loadFile, readFirst, readSecond]
    rfl
  · simp only [loaded', tree', inOrder, loadFiles, loadFile, readFirst, readSecond]
    rfl

end RuleSet

end Visibility
