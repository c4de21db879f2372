import Mathlib.Data.List.Permutation
import Visibility.Proofs.Evaluation

/-!
# What an evaluation does not depend on

The names that an evaluation looks up are themselves a result of it: they depend on truth values, on
failures and on operands that are left out.  Still no other name has any influence.  Two contexts
that agree on the names looked up in one of them are told apart by no step of the evaluation, and
the two runs are equal, traces included.

* `FollowsLookups` — the relation between two runs that the proof carries
* `follows_congruence` — all operations on steps preserve it
* `evaluate_of_agree` — contexts that agree on the names looked up give the same run
* `blocked_congruence` — where no lookup succeeds, only a step without lookups returns
* `evaluate_noninterference` — the consequences for contexts without names and unreadable ones
-/

namespace Visibility

/-! ## §1 Agreement on names -/

/-- The contexts give the same for each of the names that were looked up. -/
def Context.AgreeOn (lookups : List Lookup) (c₁ c₂ : Context) : Prop :=
  ∀ l ∈ lookups, c₁.find? l.name = c₂.find? l.name

theorem Context.AgreeOn.mono {lookups more : List Lookup} {c₁ c₂ : Context}
    (agree : AgreeOn more c₁ c₂) (suffix : lookups <:+ more) : AgreeOn lookups c₁ c₂ :=
  fun l mem => agree l (suffix.mem mem)

namespace Step

open Evaluation

variable {α β : Type} {c₁ c₂ : Context}

/-! ## §2 Two runs that read the same -/

/-- Lookups are only added to the trace, and if the contexts agree on all those that are then in it,
the second step does what the first one does. -/
def FollowsLookups (c₁ c₂ : Context) (α : Type) (x y : Step α) : Prop :=
  ∀ t, t.lookups <:+ (x t).2.lookups ∧
    (Context.AgreeOn (x t).2.lookups c₁ c₂ → y t = x t)

/-- A step that is the same in both runs and leaves the lookups alone. -/
theorem FollowsLookups.of_same {x : Step α} (same : ∀ t, (x t).2.lookups = t.lookups) :
    FollowsLookups c₁ c₂ α x x :=
  fun t => ⟨by simp only [same t, List.suffix_refl], fun _ => rfl⟩

theorem FollowsLookups.bind {x y : Step α} {f g : α → Step β} (first : FollowsLookups c₁ c₂ α x y)
    (rest : ∀ a, FollowsLookups c₁ c₂ β (f a) (g a)) :
    FollowsLookups c₁ c₂ β (x >>= f) (y >>= g) := by
  intro t
  show _ <:+ (andThen x f t).2.lookups ∧
    (Context.AgreeOn (andThen x f t).2.lookups c₁ c₂ → andThen y g t = andThen x f t)
  have ⟨grows, follows⟩ := first t
  unfold andThen
  rcases ends : x t with ⟨cause | a, u⟩
  · rw [ends] at grows follows
    exact ⟨grows, fun agree => by rw [follows agree]⟩
  · rw [ends] at grows follows
    have ⟨growsOn, followsOn⟩ := rest a u
    refine ⟨grows.trans growsOn, fun agree => ?_⟩
    -- The lookups of the first step are among those of both.
    rw [follows (agree.mono growsOn)]
    exact followsOn agree

/-- After the lookup of a name, agreement covers that name. -/
theorem FollowsLookups.lookUp (name : String) :
    FollowsLookups c₁ c₂ Value (lookUp c₁ name) (lookUp c₂ name) := by
  intro t
  have traced : ∃ found, (Step.lookUp c₁ name t).2.lookups = ⟨name, found⟩ :: t.lookups := by
    unfold Step.lookUp
    split
    · exact ⟨true, rfl⟩
    · exact ⟨false, rfl⟩
    · exact ⟨false, rfl⟩
  obtain ⟨found, traced⟩ := traced
  refine ⟨by rw [traced]; exact List.suffix_cons _ _, fun agree => ?_⟩
  have same : c₁.find? name = c₂.find? name :=
    agree ⟨name, found⟩ (by rw [traced]; exact List.mem_cons_self ..)
  unfold Step.lookUp
  rw [same]

/-- A conversion leaves no trace. -/
theorem lift_trace (x : Except CoercionError α) (t : Trace) : (lift x t).2 = t := by
  unfold lift
  split <;> rfl

theorem follows_congruence : Congruence (FollowsLookups c₁ c₂) where
  pure _ := .of_same fun _ => rfl
  bind := .bind
  fail _ := .of_same fun _ => rfl
  lift x := .of_same fun t => by rw [lift_trace]
  buildList _ := .of_same fun _ => rfl

/-! ## §3 Runs that cannot look up -/

/-- The step looks up nothing or fails because the context cannot be read. -/
def Blocked (α : Type) (x _ : Step α) : Prop :=
  ∀ t, (x t).2.lookups = t.lookups ∨ (x t).1 = .error .unreadableContext

theorem Blocked.bind {x y : Step α} {f g : α → Step β} (first : Blocked α x y)
    (rest : ∀ a, Blocked β (f a) (g a)) : Blocked β (x >>= f) (y >>= g) := by
  intro t
  show (andThen x f t).2.lookups = t.lookups ∨ (andThen x f t).1 = .error .unreadableContext
  have blocked := first t
  unfold andThen
  rcases ends : x t with ⟨cause | a, u⟩
  · rw [ends] at blocked
    simpa using blocked
  · rw [ends] at blocked
    -- A step that returns has looked up nothing.
    have untouched : u.lookups = t.lookups := by simpa using blocked
    rw [← untouched]
    exact rest a u

theorem blocked_congruence : Congruence Blocked where
  pure _ _ := .inl rfl
  bind := .bind
  fail _ _ := .inl rfl
  lift x t := .inl (by rw [lift_trace])
  buildList _ _ := .inl rfl

end Step

/-! ## §4 Whole evaluations -/

namespace Expr

open Step

variable {e : Expr} {c₁ c₂ : Context}

/-- Contexts that agree on the names looked up in the first one give the same run. -/
theorem evaluate_of_agree (agree : Context.AgreeOn (e.evaluate c₁).2.lookups c₁ c₂) :
    e.evaluate c₂ = e.evaluate c₁ := by
  have follows : FollowsLookups c₁ c₂ Value (e.evaluateWithin c₁ evaluationDepth)
      (e.evaluateWithin c₂ evaluationDepth) :=
    follows_congruence.evaluateWithin (fun name => FollowsLookups.lookUp name) evaluationDepth e
  exact (follows .empty).2 agree

/-- Nothing distinguishes contexts if no name is looked up. -/
theorem evaluate_of_no_lookups (none : (e.evaluate c₁).2.lookups = []) :
    e.evaluate c₂ = e.evaluate c₁ := by
  refine evaluate_of_agree fun l mem => ?_
  rw [none] at mem
  cases mem

theorem evaluate_unreadable (e : Expr) :
    (e.evaluate .unreadable).2.lookups = [] ∨
      (e.evaluate .unreadable).1 = .error .unreadableContext :=
  have blocked : Blocked Value (e.evaluateWithin .unreadable evaluationDepth)
      (e.evaluateWithin .unreadable evaluationDepth) :=
    blocked_congruence.evaluateWithin (fun _ _ => .inr rfl) evaluationDepth e
  blocked .empty

/-- **Names that are not looked up do not matter.**  Contexts that agree on the names looked up in
one of them give the same result and the same trace.  So a context that is no mapping is as good as
the one without names; and if the context cannot be read, the evaluation fails for that reason as
soon as it would look up any name, and else ends as it does everywhere. -/
theorem evaluate_noninterference (e : Expr) (c₁ : Context) :
    (∀ c₂, Context.AgreeOn (e.evaluate c₁).2.lookups c₁ c₂ → e.evaluate c₂ = e.evaluate c₁) ∧
    (∀ v : Value, v.entries? = none → e.evaluate (.holding v) = e.evaluate .empty) ∧
    ((e.evaluate c₁).2.lookups ≠ [] → (e.evaluate .unreadable).1 = .error .unreadableContext) ∧
    ((e.evaluate c₁).2.lookups = [] → ∀ c₂, e.evaluate c₂ = e.evaluate c₁) := by
  refine ⟨fun c₂ => evaluate_of_agree, fun v noMapping => ?_, fun some => ?_,
    fun none c₂ => evaluate_of_no_lookups none⟩
  · -- Neither context has an entry for any name.
    refine evaluate_of_agree fun l _ => ?_
    cases v with
    | map id entries => cases noMapping
    | _ => rfl
  · rcases evaluate_unreadable e with none | failed
    · -- A run without lookups would be the run in the first context, too.
      have same : e.evaluate c₁ = e.evaluate .unreadable := evaluate_of_no_lookups none
      rw [same] at some
      exact absurd none some
    · exact failed

/-- The right operand of `show && detail` is left out if `show` is not true, so `detail` does not
matter. -/
theorem evaluate_noninterference_left_out :
    let entries := [(.string "show", .bool false)]
    let more := entries ++ [(.string "detail", .int 1)]
    let e := Expr.binary .and (.name "show") (.name "detail")
    e.evaluate (.holding (.map (.given 0) more)) =
      e.evaluate (.holding (.map (.given 0) entries)) := by
  intro entries more e
  refine (evaluate_noninterference e _).1 _ fun l mem => ?_
  have looked : (e.evaluate (.holding (.map (.given 0) entries))).2.lookups =
      [⟨"show", true⟩] := by cbv
  rw [looked] at mem
  obtain rfl := List.mem_singleton.mp mem
  rfl

end Expr

end Visibility
