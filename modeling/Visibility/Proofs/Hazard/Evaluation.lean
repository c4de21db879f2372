import Mathlib.Data.List.Permutation
import Visibility.Condition
import Visibility.Proofs.Grammar.Completeness
import Visibility.Proofs.Hazard
import Visibility.Proofs.Provenance

/-!
# How conditions fail

Calling a condition fails with a syntax error for too deep nesting, with a security error, or because
a conversion is refused.  A refused conversion goes back to a hazard within a value that the
condition can reach, and every hazard is refused by some condition.

* `Explained`, `ExplainedWithin` — the ways to fail, with a hazard in a reachable value or in one of
  some set
* `FailsWithin` — all failures of a step are such ones, with a lemma for each way to build a step
* `evaluateWithin_failsWithin` — no part of an expression of the language fails in any other way,
  whichever closed set its values are from
* `evaluate_explained` — calling conditions, and conditions that refuse the hazards
-/

namespace Visibility

open Grammar

/-- The failure of a conversion is one of coercion unless arrays are nested too deeply. -/
theorem CoercionError.failure_cases (cause : CoercionError) :
    cause = .nestedTooDeeply ∧ cause.failure = .malformed .nestedTooDeeply ∨
      cause.failure = .coercion cause := by
  cases cause <;> simp [failure]

namespace Expr

open Step Evaluation

variable {root : Expr} {context : Context} {R : Value → Prop} {t t' : Trace} {failure : Failure}
variable {cause : CoercionError}

/-! ## §1 Expressions of the language -/

theorem inLanguage_of_mem_children {e child : Expr} (h : InLanguage e) (mem : child ∈ e.children) :
    InLanguage child := by
  cases h with
  | literal | name => cases mem
  | member property object =>
    obtain rfl := List.mem_singleton.mp mem
    exact object
  | array elements => exact elements child mem
  | call method object arguments =>
    rcases List.mem_cons.mp mem with rfl | mem
    · exact object
    · exact arguments child mem
  | binary operator left right =>
    simp only [children, List.mem_cons, List.not_mem_nil, or_false] at mem
    rcases mem with rfl | rfl
    · exact left
    · exact right
  | unary operand =>
    obtain rfl := List.mem_singleton.mp mem
    exact operand
  | group inner =>
    obtain rfl := List.mem_singleton.mp mem
    exact inner

theorem Part.inLanguage {e : Expr} (part : Part root e) (h : InLanguage root) : InLanguage e := by
  induction part with
  | root => exact h
  | child _ mem ih => exact inLanguage_of_mem_children ih mem

/-- What compiles is an expression of the language. -/
theorem inLanguage_of_compile {source : String} {c : Condition}
    (compiled : Condition.compile source = .ok c) : InLanguage c.expr := by
  unfold Condition.compile at compiled
  split at compiled
  · cases compiled
  · rename_i ts _
    split at compiled
    · cases compiled
    · rename_i e read
      cases compiled
      obtain ⟨rest, parsed⟩ := ofTokens_eq_ok.mp read
      exact (parse_sound parsed).inLanguage e (by simp [Phrase.trees])

/-! ## §2 Failures and their reasons -/

/-- The ways in which an expression fails, with the reason for a refused conversion. -/
inductive Explained (root : Expr) (context : Context) : Failure → Prop where
  | nestedTooDeeply : Explained root context (.malformed .nestedTooDeeply)
  | denied (cause : SecurityError) : Explained root context (.denied cause)
  | hazard {v : Value} {cause : CoercionError} :
      Reachable root context v → v.HoldsHazard cause → Explained root context (.coercion cause)

/-- The ways in which an expression fails whose values are those of a set. -/
inductive ExplainedWithin (R : Value → Prop) : Failure → Prop where
  | nestedTooDeeply : ExplainedWithin R (.malformed .nestedTooDeeply)
  | denied (cause : SecurityError) : ExplainedWithin R (.denied cause)
  | hazard {v : Value} {cause : CoercionError} :
      R v → v.HoldsHazard cause → ExplainedWithin R (.coercion cause)

/-- A failure is explained if it is explained within the reachable values. -/
theorem ExplainedWithin.explained (h : ExplainedWithin (Reachable root context) failure) :
    Explained root context failure := by
  cases h with
  | nestedTooDeeply => exact .nestedTooDeeply
  | denied cause => exact .denied cause
  | hazard reachable hazard => exact .hazard reachable hazard

/-- A refused conversion of a value of the set is explained. -/
theorem ExplainedWithin.of_refusal {v : Value} (holds : R v)
    (refused : cause = .nestedTooDeeply ∨ v.HoldsHazard cause) :
    ExplainedWithin R cause.failure := by
  rcases refused with rfl | hazard
  · exact .nestedTooDeeply
  · rcases cause.failure_cases with ⟨_, same⟩ | same
    · rw [same]
      exact .nestedTooDeeply
    · rw [same]
      exact .hazard holds hazard

theorem ExplainedWithin.of_refusal₂ {v w : Value} (first : R v) (second : R w)
    (refused : cause = .nestedTooDeeply ∨ v.HoldsHazard cause ∨ w.HoldsHazard cause) :
    ExplainedWithin R cause.failure := by
  rcases refused with deep | left | right
  · exact .of_refusal first (.inl deep)
  · exact .of_refusal first (.inr left)
  · exact .of_refusal second (.inr right)

/-! ## §3 Steps with explained failures -/

/-- Every failure of the step is explained within the set. -/
def FailsWithin (R : Value → Prop) {α : Type} (x : Step α) : Prop :=
  ∀ t failure, Fails x t failure → ExplainedWithin R failure

namespace FailsWithin

variable {α β : Type}

theorem pure (a : α) : FailsWithin R (Pure.pure a : Step α) := fun _ _ h => absurd h fails_pure

theorem denied (cause : SecurityError) : FailsWithin R (fail (.denied cause) : Step α) := by
  intro t failure h
  obtain rfl := fails_fail.mp h
  exact .denied cause

theorem lift {x : Except CoercionError α}
    (refusals : ∀ cause, x = .error cause → ExplainedWithin R cause.failure) :
    FailsWithin R (Step.lift x) := by
  intro t failure h
  obtain ⟨cause, refused, rfl⟩ := fails_lift.mp h
  exact refusals cause refused

theorem buildList (items : List Value) : FailsWithin R (Step.buildList items) :=
  fun _ _ h => absurd h fails_buildList

/-- What comes after a step matters only for the values that the step returns. -/
theorem bind {x : Step α} {f : α → Step β} (first : FailsWithin R x)
    (next : ∀ t a t', Returns x t a t' → FailsWithin R (f a)) : FailsWithin R (x >>= f) := by
  intro t failure h
  rcases fails_bind.mp h with failed | ⟨a, t', returned, failed⟩
  · exact first t failure failed
  · exact next t a t' returned t' failure failed

theorem mapM {f : α → Step β} {as : List α} (each : ∀ a ∈ as, FailsWithin R (f a)) :
    FailsWithin R (as.mapM f) := by
  induction as with
  | nil =>
    rw [List.mapM_nil]
    exact .pure []
  | cons a as ih =>
    obtain ⟨first, others⟩ := List.forall_mem_cons.mp each
    rw [List.mapM_cons]
    exact .bind first fun _ b _ _ => .bind (ih others) fun _ bs _ _ => .pure (b :: bs)

end FailsWithin

/-! ## §4 Operations -/

theorem readProperty_failsWithin (v : Value) (property : String) :
    FailsWithin R (readProperty v property) := by
  unfold readProperty
  split
  · split
    · exact .pure _
    · exact .denied _
  · exact .pure _

/-- A membership test is refused for a hazard in the needle or in one of the items. -/
theorem containsStrictly_eq_error {needle : Value} {items : List Value}
    (h : containsStrictly needle items = .error cause) :
    ∃ item ∈ items, item.HoldsHazard cause ∨ needle.HoldsHazard cause := by
  induction items with
  | nil => cases h
  | cons item items ih =>
    rw [containsStrictly] at h
    rcases Except.bind_eq_error.mp h with refused | ⟨equal, _, rest⟩
    · exact ⟨item, List.mem_cons_self .., Value.strictEquals_eq_error refused⟩
    · split at rest
      · cases rest
      · obtain ⟨other, mem, hazard⟩ := ih rest
        exact ⟨other, List.mem_cons_of_mem _ mem, hazard⟩

theorem isTruthy_failsWithin {v : Value} (holds : R v) : FailsWithin R (.lift v.isTruthy) := by
  refine .lift fun cause refused => ?_
  obtain ⟨x, rfl, signaling, rfl⟩ := Value.isTruthy_eq_error.mp refused
  exact .of_refusal holds (.inr (Value.hazard_of_isSignaling signaling).holds)

/-- The operators that compare fail for hazards of their operands only. -/
theorem compareWith_failsWithin {operator : Operator} (known : operator ∈ comparisonOperators)
    {a b : Value} (left : R a) (right : R b) : FailsWithin R (compareWith operator a b) := by
  unfold compareWith
  split
  · exact .lift fun _ refused =>
      .of_refusal₂ left right (.inr (Value.strictEquals_eq_error refused))
  · exact .lift fun _ refused =>
      .of_refusal₂ left right (.inr (Value.strictEquals_eq_error (Except.map_eq_error.mp refused)))
  · exact .lift fun _ refused => .of_refusal₂ left right (Value.looseEquals_eq_error refused)
  · exact .lift fun _ refused =>
      .of_refusal₂ left right (Value.looseEquals_eq_error (Except.map_eq_error.mp refused))
  all_goals first
    | -- the four relations answer for every order
      exact .lift fun _ refused =>
        .of_refusal₂ left right (Value.relate_eq_error (by simp [Operator.holds?]) refused)
    | simp [comparisonOperators] at known

/-! ## §5 Nodes -/

theorem firstArgument_failsWithin {depth : Nat} {arguments : List Expr}
    (each : ∀ argument ∈ arguments, FailsWithin R (evaluateWithin context depth argument)) :
    FailsWithin R (firstArgument context depth arguments) := by
  cases arguments with
  | nil => exact .pure _
  | cons argument _ => exact each argument (List.mem_cons_self ..)

theorem firstArgument_closed (closed : Closed root context R) {depth : Nat} {arguments : List Expr}
    {needle : Value} (parts : ∀ argument ∈ arguments, Part root argument)
    (h : Returns (firstArgument context depth arguments) t needle t') : R needle := by
  cases arguments with
  | nil =>
    obtain ⟨rfl, _⟩ := returns_pure.mp h
    exact closed.undefined
  | cons argument _ =>
    exact evaluateWithin_closed closed depth (parts argument (List.mem_cons_self ..)) h

/-- A call that is not denied fails where its argument does, or for a hazard of the needle or of an
element. -/
theorem callOn_failsWithin (closed : Closed root context R) {depth : Nat} {method : String}
    {arguments : List Expr} {v : Value} (array : R v)
    (parts : ∀ argument ∈ arguments, Part root argument)
    (each : ∀ argument ∈ arguments, FailsWithin R (evaluateWithin context depth argument)) :
    FailsWithin R (callOn context depth method arguments v) := by
  unfold callOn
  split
  · exact .denied _
  · split
    · exact .denied _
    · rename_i items elements
      refine .bind (firstArgument_failsWithin each) fun _ needle _ argument =>
        .bind (.lift fun cause refused => ?_) fun _ _ _ _ => .pure _
      obtain ⟨item, mem, inItem | inNeedle⟩ := containsStrictly_eq_error refused
      · exact .of_refusal array (.inr (inItem.of_element elements mem))
      · exact .of_refusal (firstArgument_closed closed parts argument) (.inr inNeedle)

/-- Looking a name up in a mapping succeeds or is denied. -/
theorem lookUp_failsWithin (value : Value) (key : String) :
    FailsWithin R (lookUp (.holding value) key) := by
  intro t failure h
  rcases fails_lookUp.mp h with unreadable | ⟨_, rfl⟩
  · cases value <;> cases unreadable
  · exact .denied _

/-- Every failure of a part of an expression of the language is explained within each closed set, by
induction on the nodes within each other. -/
theorem evaluateWithin_failsWithin {value : Value} (language : InLanguage root)
    (closed : Closed root (.holding value) R) (depth : Nat) {e : Expr} (part : Part root e) :
    FailsWithin R (evaluateWithin (.holding value) depth e) := by
  induction depth generalizing e with
  | zero =>
    intro t failure h
    obtain rfl := fails_fail.mp h
    exact .nestedTooDeeply
  | succ depth ih =>
    have below {child : Expr} (mem : child ∈ e.children) :
        FailsWithin R (evaluateWithin (.holding value) depth child) := ih (part.child mem)
    -- What the parts return belongs to the set, so a hazard in it explains a refusal above.
    have reached {child : Expr} {v : Value} {u u' : Trace} (mem : child ∈ e.children)
        (read : Returns (evaluateWithin (.holding value) depth child) u v u') : R v :=
      evaluateWithin_closed closed depth (part.child mem) read
    have inLanguage := part.inLanguage language
    cases e with
    | literal v => exact .pure v
    | name key => exact lookUp_failsWithin value key
    | member object property =>
      rw [evaluateWithin_member]
      exact .bind (below (by simp [children])) fun _ v _ _ => readProperty_failsWithin v property
    | array elements =>
      rw [evaluateWithin_array]
      exact .bind (.mapM fun element mem => below mem) fun _ items _ _ => .buildList items
    | call object method arguments =>
      rw [evaluateWithin_call]
      refine .bind (below (by simp [children])) fun _ v _ read =>
        callOn_failsWithin closed (reached (by simp [children]) read) (fun argument mem => ?_)
          fun argument mem => below (List.mem_cons_of_mem _ mem)
      exact part.child (List.mem_cons_of_mem _ mem)
    | binary operator left right =>
      have inLeft : left ∈ (Expr.binary operator left right).children := by simp [children]
      have inRight : right ∈ (Expr.binary operator left right).children := by simp [children]
      by_cases isAnd : operator = .and
      · subst isAnd
        rw [evaluateWithin_and]
        refine .bind (below inLeft) fun _ v _ read =>
          .bind (isTruthy_failsWithin (reached inLeft read)) fun _ truth _ _ => ?_
        split
        · exact below inRight
        · exact .pure v
      by_cases isOr : operator = .or
      · subst isOr
        rw [evaluateWithin_or]
        refine .bind (below inLeft) fun _ v _ read =>
          .bind (isTruthy_failsWithin (reached inLeft read)) fun _ truth _ _ => ?_
        split
        · exact .pure v
        · exact below inRight
      have known : operator ∈ comparisonOperators := by
        cases inLanguage with
        | binary known _ _ => exact (known.resolve_left isOr).resolve_left isAnd
      rw [evaluateWithin_binary isAnd isOr]
      exact .bind (below inLeft) fun _ a _ readLeft =>
        .bind (below inRight) fun _ b _ readRight =>
          .bind (compareWith_failsWithin known (reached inLeft readLeft)
            (reached inRight readRight)) fun _ _ _ _ => .pure _
    | unary operator operand =>
      cases inLanguage with
      | unary _ =>
        rw [evaluateWithin_unary]
        exact .bind (below (by simp [children])) fun _ v _ read =>
          .bind (isTruthy_failsWithin (reached (by simp [children]) read)) fun _ _ _ _ => .pure _
    | group inner => exact below (by simp [children])
    | unknown kind => cases inLanguage

theorem evaluateWithin_explainedWithin {value : Value} (language : InLanguage root)
    (closed : Closed root (.holding value) R) (depth : Nat) {e : Expr} (part : Part root e)
    (h : Fails (evaluateWithin (.holding value) depth e) t failure) :
    ExplainedWithin R failure :=
  evaluateWithin_failsWithin language closed depth part t failure h

/-- Every failure of a part of an expression of the language is explained. -/
theorem evaluateWithin_explained {value : Value} (language : InLanguage root) (depth : Nat)
    {e : Expr} (part : Part root e)
    (h : Fails (evaluateWithin (.holding value) depth e) t failure) :
    Explained root (.holding value) failure :=
  (evaluateWithin_explainedWithin language (Reachable.closed root _) depth part h).explained

end Expr

/-! ## §6 Conditions that refuse hazards -/

section Escapes

open Step Evaluation Visibility.Expr

variable {w : Value} {cause : CoercionError}

theorem Value.Hazard.failure_eq (hazard : w.Hazard cause) : .coercion cause = cause.failure := by
  rcases hazard.cause_cases with rfl | rfl | rfl <;> rfl

/-- The context in which `x` stands for a value and no other name for any. -/
def Context.ofX (id : Identity) (w : Value) : Context :=
  .holding (.map id [(.string "x", w)])

/-- The condition that writes what `x` stands for. -/
def Condition.writing : Condition :=
  ⟨"[x] == ''", .binary .looseEqual (.array [.name "x"]) (.literal (.string ""))⟩

/-- The condition that reads a number from what `x` stands for. -/
def Condition.reading : Condition :=
  ⟨"x == true", .binary .looseEqual (.name "x") (.literal (.bool true))⟩

theorem Condition.compile_writing : compile "[x] == ''" = .ok writing := by cbv

theorem Condition.compile_reading : compile "x == true" = .ok reading := by cbv

theorem looseEquals_of_unwritable {x : Number} {id : Identity} (refused : x.Unwritable cause) :
    (Value.list id [.number x]).looseEquals (.string "") = .error cause := by
  have unwritten : x.text = .error cause := Number.text_eq_error.mpr refused
  have noText : (Value.list id [.number x]).toPrimitive = .error cause := by
    simp [Value.toPrimitive, Value.kind, Value.text, Value.textDepth, Value.textWithin,
      Value.isAbsent, unwritten, Except.map, bind, Except.bind]
  simp [Value.looseEquals, Value.looseEqualsWithin, Value.looseStep, Value.kind, Value.isAbsent,
    noText, bind, Except.bind]

theorem looseEquals_of_tooLarge {s : String} (large : Numeral.TooLarge s) :
    (Value.string s).looseEquals (.bool true) = .error .integerTooLarge := by
  have noNumber : (Value.string s).toNumber = .error .integerTooLarge :=
    Except.map_eq_error.mpr (Numeral.stringValue_eq_error.mpr ⟨large, rfl⟩)
  have one : (Value.bool true).toNumber = .ok (.int 1) := rfl
  simp [Value.looseEquals, Value.looseEqualsWithin, Value.looseStep, Value.kind, Value.isAbsent,
    noNumber, one, bind, Except.bind, pure, Except.pure]

/-- Writing a number that cannot be written fails. -/
theorem Condition.writing_fails {x : Number} (refused : x.Unwritable cause) (id : Identity) :
    (writing.evaluate (.ofX id (.number x))).1 = .error (.coercion cause) := by
  show Fails (evaluateWithin (.ofX id (.number x)) (478 + 1 + 1) writing.expr) .empty _
  have listed : Returns (evaluateWithin (.ofX id (.number x)) (478 + 1) (.array [.name "x"])) .empty
      (.list (.built 0) [.number x]) ⟨[⟨"x", true⟩], 1⟩ := by
    rw [evaluateWithin_array, returns_bind]
    exact ⟨[.number x], ⟨[⟨"x", true⟩], 0⟩, rfl, rfl⟩
  rw [writing, evaluateWithin_binary (by decide) (by decide), fails_bind]
  refine .inr ⟨_, _, listed, fails_bind.mpr (.inr ⟨_, _, returns_pure.mpr ⟨rfl, rfl⟩, ?_⟩)⟩
  exact fails_bind.mpr (.inl (fails_lift.mpr
    ⟨cause, looseEquals_of_unwritable refused, (Value.Hazard.number refused).failure_eq⟩))

/-- Reading a number from too large a numeral fails. -/
theorem Condition.reading_fails {s : String} (large : Numeral.TooLarge s) (id : Identity) :
    (reading.evaluate (.ofX id (.string s))).1 = .error (.coercion .integerTooLarge) := by
  show Fails (evaluateWithin (.ofX id (.string s)) (478 + 1 + 1) reading.expr) .empty _
  have looked : Returns (evaluateWithin (.ofX id (.string s)) (478 + 1) (.name "x")) .empty
      (.string s) ⟨[⟨"x", true⟩], 0⟩ := by
    rw [evaluateWithin_name]
    exact returns_lookUp.mpr ⟨rfl, rfl⟩
  rw [reading, evaluateWithin_binary (by decide) (by decide), fails_bind]
  refine .inr ⟨_, _, looked, fails_bind.mpr (.inr ⟨_, _, returns_pure.mpr ⟨rfl, rfl⟩, ?_⟩)⟩
  exact fails_bind.mpr (.inl (fails_lift.mpr ⟨_, looseEquals_of_tooLarge large, rfl⟩))

end Escapes

/-! ## §7 Calling conditions -/

/-- **Conditions fail for nesting, for security, or for a hazard.**  A compiled condition that fails
in a context was nested too deeply, was denied something, or refused a conversion because of a
hazard within a value that it can reach.  The hazards are no idle ones: each of them is refused by
some condition. -/
theorem evaluate_explained {source : String} {c : Condition}
    (compiled : Condition.compile source = .ok c) (value : Value) :
    (∀ failure, (c.evaluate (.holding value)).1 = .error failure →
      Expr.Explained c.expr (.holding value) failure) ∧
    ∀ cause, value.Hazard cause → ∃ source c, Condition.compile source = .ok c ∧
      ∀ id, (c.evaluate (.ofX id value)).1 = .error (.coercion cause) := by
  constructor
  · intro failure failed
    exact Expr.evaluateWithin_explained (Expr.inLanguage_of_compile compiled) _ .root failed
  · intro cause hazard
    cases hazard with
    | number refused =>
      exact ⟨_, _, Condition.compile_writing, fun id => Condition.writing_fails refused id⟩
    | string large =>
      exact ⟨_, _, Condition.compile_reading, fun id => Condition.reading_fails large id⟩

/-- A whole number beyond the doubles is no syntax error and no denial: writing it fails because of
the number that was reached. -/
theorem evaluate_explained_integer :
    let context := Context.ofX (.given 0) (.int (10 ^ 400))
    Condition.compile "[x] == ''" = .ok Condition.writing ∧
      (Condition.writing.evaluate context).1 = .error (.coercion .integerTooLarge) ∧
      Expr.Explained Condition.writing.expr context (.coercion .integerTooLarge) := by
  intro context
  have failed : (Condition.writing.evaluate context).1 = .error (.coercion .integerTooLarge) :=
    Condition.writing_fails (.int (by decide +kernel)) _
  exact ⟨Condition.compile_writing, failed,
    (evaluate_explained Condition.compile_writing _).1 _ failed⟩

/-- A compiled condition may fail in a mapping of plain values, and neither with a syntax error nor
with a denial. -/
theorem evaluate_fails_otherwise :
    ∃ (source : String) (c : Condition) (failure : Failure),
      Condition.compile source = .ok c ∧
        (c.evaluate (.holding (.map (.given 0) [(.string "x", .int (10 ^ 400))]))).1 =
          .error failure ∧
        (∀ cause, failure ≠ .malformed cause) ∧ ∀ cause, failure ≠ .denied cause :=
  ⟨"[x] == ''", Condition.writing, .coercion .integerTooLarge, Condition.compile_writing,
    Condition.writing_fails (.int (by decide +kernel)) _, nofun, nofun⟩

end Visibility
