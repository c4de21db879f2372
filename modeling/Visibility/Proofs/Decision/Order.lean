import Visibility.Proofs.Decision

/-!
# The order of conditions

Conditions are attempted one after the other, up to the first that counts as true, and the cache
changes on the way.  None of this shows in the decision.  If each condition can be decided alone, a
list is shown exactly if one of its conditions is, in whatever order they stand and however often.
Only what is swallowed on the way follows their order.

* `Cache.decision`, `Cache.Reached` — what is decided with a cache that was used before
* `decideAfresh_one` — what is decided about a single condition
* `decideAnyAfresh_attempted` — which conditions are attempted
* `decision_unordered` — decisions about lists out of decisions about their members
-/

namespace Visibility

namespace Cache

/-! ## §1 Decisions with a cache -/

/-- Some questions lead from the cache before the first of them to this one. -/
def Reached (cache : Cache) : Prop :=
  ∃ history, cache = (answers history .empty).2

/-- What is decided about a list of conditions. -/
def decision (cache : Cache) (context : Context) (sources : List String) : Decision :=
  (decideShown (.many sources) context cache).1

variable {cache : Cache}

theorem Reached.faithful (reached : cache.Reached) : cache.Faithful := by
  obtain ⟨history, rfl⟩ := reached
  exact (answers_faithful faithful_empty history).2

theorem Reached.decision_eq (reached : cache.Reached) (context : Context) (sources : List String) :
    cache.decision context sources = decideAfresh (.many sources) context :=
  (decideShown_faithful reached.faithful (.many sources) context).1

end Cache

/-! ## §2 Single conditions -/

variable {context : Context} {sources : List String}

/-- About a single condition, the truth of its value is decided. -/
theorem decideAfresh_one (context : Context) (source : String) :
    (decideAfresh (.many [source]) context).shown =
        (attemptAfresh source context).value.isTruthy ∧
      (decideAfresh (.many [source]) context).swallowed =
        (attemptAfresh source context).swallowed := by
  unfold decideAfresh decideAnyAfresh
  dsimp only [Conditions.toList]
  rcases (attemptAfresh source context).value.isTruthy with cause | _ | _
  · exact ⟨rfl, rfl⟩
  · -- No condition follows, so nothing else is swallowed.
    exact ⟨rfl, List.append_nil _⟩
  · exact ⟨rfl, rfl⟩

/-- A condition that can be decided alone is not refused. -/
theorem not_isRefused_of_shown {source : String} {shown : Bool}
    (decided : (decideAfresh (.many [source]) context).shown = .ok shown) :
    ¬IsRefused context source := by
  intro refused
  rw [(decideAfresh_one context source).1, isTruthy_eq_error_iff.mpr ⟨refused, rfl⟩] at decided
  cases decided

/-! ## §3 Lists of conditions -/

theorem decideAfresh_many (nonempty : sources ≠ []) :
    decideAfresh (.many sources) context = decideAnyAfresh context sources := by
  cases sources with
  | nil => exact absurd rfl nonempty
  | cons source sources => rfl

/-- A list of conditions that are decidable alone is shown if one of them counts as true. -/
theorem decideAfresh_many_decides (nonempty : sources ≠ [])
    (decidable : ∀ source ∈ sources, ¬IsRefused context source) :
    ∃ shown, (decideAfresh (.many sources) context).shown = .ok shown ∧
      (shown = true ↔ ∃ source ∈ sources, IsTrue context source) := by
  rw [decideAfresh_many nonempty]
  exact decideAnyAfresh_decides decidable

/-- Lists with the same members are decided alike. -/
theorem decideAfresh_many_congr {others : List String} (nonempty : sources ≠ [])
    (decidable : ∀ source ∈ sources, ¬IsRefused context source)
    (same : ∀ source, source ∈ others ↔ source ∈ sources) :
    (decideAfresh (.many others) context).shown = (decideAfresh (.many sources) context).shown := by
  obtain ⟨source, mem⟩ := List.exists_mem_of_ne_nil sources nonempty
  have nonempty' : others ≠ [] := List.ne_nil_of_mem ((same source).mpr mem)
  obtain ⟨shown, decided, iff⟩ := decideAfresh_many_decides nonempty decidable
  obtain ⟨shown', decided', iff'⟩ :=
    decideAfresh_many_decides nonempty' fun source mem => decidable source ((same source).mp mem)
  simp only [same] at iff'
  rw [decided, decided', Bool.eq_iff_iff.mpr (iff'.trans iff.symm)]

/-- A list of two parts is shown if one of the parts is. -/
theorem decideAfresh_many_append {front back : List String} (nonempty : front ≠ [])
    (nonempty' : back ≠ []) (decidable : ∀ source ∈ front ++ back, ¬IsRefused context source) :
    ∃ shown shown', (decideAfresh (.many front) context).shown = .ok shown ∧
      (decideAfresh (.many back) context).shown = .ok shown' ∧
      (decideAfresh (.many (front ++ back)) context).shown = .ok (shown || shown') := by
  obtain ⟨decidableFront, decidableBack⟩ := List.forall_mem_append.mp decidable
  obtain ⟨shown, decided, iff⟩ := decideAfresh_many_decides nonempty decidableFront
  obtain ⟨shown', decided', iff'⟩ := decideAfresh_many_decides nonempty' decidableBack
  obtain ⟨both, decidedBoth, iffBoth⟩ :=
    decideAfresh_many_decides (List.append_ne_nil_of_left_ne_nil nonempty back) decidable
  refine ⟨shown, shown', decided, decided', ?_⟩
  rw [decidedBoth, Except.ok.injEq, Bool.eq_iff_iff, iffBoth, Bool.or_eq_true, iff, iff']
  simp only [List.mem_append, or_and_right, exists_or]

/-- The conditions up to the first that counts as true are attempted, or all of them if there is
none; what is swallowed is swallowed there. -/
theorem decideAnyAfresh_attempted (nonempty : sources ≠ [])
    (decidable : ∀ source ∈ sources, ¬IsRefused context source) :
    ∃ before last after, sources = before ++ last :: after ∧
      (∀ source ∈ before, IsFalse context source) ∧
      (IsTrue context last ∨ after = [] ∧ IsFalse context last) ∧
      (decideAnyAfresh context sources).swallowed =
        (before ++ [last]).flatMap fun source => (attemptAfresh source context).swallowed := by
  induction sources with
  | nil => exact absurd rfl nonempty
  | cons source sources ih =>
    rw [List.forall_mem_cons] at decidable
    unfold decideAnyAfresh
    dsimp only
    cases truth : (attemptAfresh source context).value.isTruthy with
    | error cause => exact absurd (isTruthy_eq_error_iff.mp truth).1 decidable.1
    | ok b =>
      cases b with
      | true => exact ⟨[], source, sources, rfl, by simp, .inl truth, by simp⟩
      | false =>
        -- A false condition is the last attempted one only if no other is left.
        by_cases alone : sources = []
        · subst alone
          refine ⟨[], source, [], rfl, by simp, .inr ⟨rfl, truth⟩, ?_⟩
          rw [List.nil_append, List.flatMap_cons]
          rfl
        · obtain ⟨before, last, after, split, allFalse, ends, swallowed⟩ := ih alone decidable.2
          refine ⟨source :: before, last, after, by rw [split]; rfl,
            List.forall_mem_cons.mpr ⟨truth, allFalse⟩, ends, ?_⟩
          rw [List.cons_append, List.flatMap_cons, ← swallowed]
          rfl

end Visibility
