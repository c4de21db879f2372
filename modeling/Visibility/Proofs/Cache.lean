import Visibility.Condition.Decision

/-!
# What the cache does not change

The cache keeps conditions that were compiled before.  It cannot be seen in any answer: whatever was
asked before, each question is answered as if its texts were compiled for it alone.

* `Query`, `Query.answer`, `Query.afresh` — the questions, their answers with a cache and without
* `Cache.Faithful` — the invariant: each entry is the compilation of its own text
* `Cache.request_faithful`, `decideAny_faithful`, `Query.answer_faithful` — one request, one list of
  conditions and one question keep the invariant and answer alike
* `answers_transparent` — so does a whole run
-/

namespace Visibility

/-! ## §1 Answers without a cache -/

/-- Compiles and evaluates a text; any failure becomes `false`. -/
def attemptAfresh (source : String) (context : Context) : Attempt :=
  match Condition.compile source with
  | .error cause => ⟨.bool false, [⟨source, .malformed cause⟩], []⟩
  | .ok condition =>
    match condition.evaluate context with
    | (.ok v, trace) => ⟨v, [], trace.reads⟩
    | (.error cause, trace) => ⟨.bool false, [⟨source, cause⟩], trace.reads⟩

/-- What is wrong with the form of a text, if anything. -/
def problemAfresh (source : String) : Option SyntaxError :=
  match Condition.compile source with
  | .error cause => some cause
  | .ok _ => none

/-- Whether one of the texts counts as true. -/
def decideAnyAfresh (context : Context) : List String → Decision
  | [] => ⟨.ok false, [], []⟩
  | source :: sources =>
    let a := attemptAfresh source context
    match a.value.isTruthy with
    | .ok false => (decideAnyAfresh context sources).after a
    | shown => ⟨shown, a.swallowed, a.reads⟩

/-- Decides whether a thing with these conditions is shown. -/
def decideAfresh (conditions : Conditions) (context : Context) : Decision :=
  match conditions.toList with
  | [] => ⟨.ok true, [], []⟩
  | sources => decideAnyAfresh context sources

/-! ## §2 Questions and answers -/

/-- What can be asked about texts of conditions. -/
inductive Query where
  | compile (source : String)
  | problem (source : String)
  | attempt (source : String) (context : Context)
  | decide (conditions : Conditions) (context : Context)

/-- What a question is answered with. -/
inductive Answer where
  | compiled (result : Except SyntaxError Condition)
  | problem (message? : Option String)
  | attempt (a : Attempt)
  | decision (d : Decision)

namespace Query

/-- Answers a question with the cache, and leaves the cache for the next one. -/
def answer (cache : Cache) : Query → Answer × Cache
  | compile source =>
    let (result, cache) := cache.request source
    (.compiled (result.map (·.condition)), cache)
  | problem source =>
    let (cause?, cache) := Visibility.problem source cache
    (.problem (cause?.map (·.message)), cache)
  | attempt source context =>
    let (a, cache) := Visibility.attempt source context cache
    (.attempt a, cache)
  | decide conditions context =>
    let (d, cache) := decideShown conditions context cache
    (.decision d, cache)

/-- Answers a question by compiling every text for it alone. -/
def afresh : Query → Answer
  | compile source => .compiled (Condition.compile source)
  | problem source => .problem ((problemAfresh source).map (·.message))
  | attempt source context => .attempt (attemptAfresh source context)
  | decide conditions context => .decision (decideAfresh conditions context)

end Query

/-- Answers questions one after the other with one cache. -/
def answers : List Query → Cache → List Answer × Cache
  | [], cache => ([], cache)
  | query :: queries, cache =>
    let (first, cache) := query.answer cache
    let (others, cache) := answers queries cache
    (first :: others, cache)

/-! ## §3 Faithful caches -/

namespace Cache

/-- Each entry is the compilation of its own text. -/
def Faithful (cache : Cache) : Prop :=
  ∀ entry ∈ cache.entries, Condition.compile entry.condition.source = .ok entry.condition

theorem faithful_empty : empty.Faithful :=
  fun _ mem => nomatch mem

/-- A condition keeps the text that it was compiled from. -/
theorem source_of_compile {source : String} {c : Condition}
    (compiled : Condition.compile source = .ok c) : c.source = source := by
  unfold Condition.compile at compiled
  split at compiled
  · cases compiled
  · split at compiled
    · cases compiled
    · cases compiled
      rfl

variable {cache : Cache}

/-- A request gives what compiling gives, and leaves the cache faithful. -/
theorem request_faithful (h : cache.Faithful) (source : String) :
    (cache.request source).1.map (·.condition) = Condition.compile source ∧
      (cache.request source).2.Faithful := by
  unfold request
  split
  · -- The entry that is found is the compilation of the text asked for.
    rename_i entry found
    have mem : entry ∈ cache.entries := List.mem_of_find?_eq_some found
    have same : entry.condition.source = source := by
      have holds := List.find?_some found
      exact eq_of_beq holds
    refine ⟨?_, fun other mem' => ?_⟩
    · rw [← same, h entry mem]
      rfl
    · rcases List.mem_cons.mp mem' with rfl | mem'
      · exact h other mem
      · exact h other (List.mem_of_mem_eraseP mem')
  · split
    · rename_i cause refused
      exact ⟨refused.symm, h⟩
    · rename_i condition compiled
      refine ⟨compiled.symm, fun other mem => ?_⟩
      rcases List.mem_cons.mp (List.mem_of_mem_take mem) with rfl | mem
      · rw [source_of_compile compiled]
        exact compiled
      · exact h other mem

end Cache

/-! ## §4 Questions -/

section Questions

variable {cache : Cache}

theorem problem_faithful (h : cache.Faithful) (source : String) :
    (problem source cache).1 = problemAfresh source ∧ (problem source cache).2.Faithful := by
  have ⟨same, kept⟩ := Cache.request_faithful h source
  unfold problem problemAfresh
  rw [← same]
  generalize cache.request source = requested at kept
  rcases requested with ⟨_ | entry, after⟩
  · exact ⟨rfl, kept⟩
  · exact ⟨rfl, kept⟩

theorem attempt_faithful (h : cache.Faithful) (source : String) (context : Context) :
    (attempt source context cache).1 = attemptAfresh source context ∧
      (attempt source context cache).2.Faithful := by
  have ⟨same, kept⟩ := Cache.request_faithful h source
  unfold attempt attemptAfresh
  rw [← same]
  generalize cache.request source = requested at kept
  rcases requested with ⟨cause | entry, after⟩
  · exact ⟨rfl, kept⟩
  · dsimp only [Except.map]
    rcases entry.condition.evaluate context with ⟨cause | v, trace⟩
    · exact ⟨rfl, kept⟩
    · exact ⟨rfl, kept⟩

/-- The conditions after the first attempt are decided with the cache that the attempt leaves. -/
theorem decideAny_faithful (h : cache.Faithful) (context : Context) (sources : List String) :
    (decideAny context sources cache).1 = decideAnyAfresh context sources ∧
      (decideAny context sources cache).2.Faithful := by
  induction sources generalizing cache with
  | nil => exact ⟨rfl, h⟩
  | cons source sources ih =>
    have ⟨same, kept⟩ := attempt_faithful h source context
    have ⟨others, keptOn⟩ := ih kept
    unfold decideAny decideAnyAfresh
    rw [← same]
    dsimp only
    rcases (attempt source context cache).1.value.isTruthy with cause | _ | _
    · exact ⟨rfl, kept⟩
    · exact ⟨congrArg (Decision.after (attempt source context cache).1) others, keptOn⟩
    · exact ⟨rfl, kept⟩

theorem decideShown_faithful (h : cache.Faithful) (conditions : Conditions) (context : Context) :
    (decideShown conditions context cache).1 = decideAfresh conditions context ∧
      (decideShown conditions context cache).2.Faithful := by
  unfold decideShown decideAfresh
  cases conditions.toList with
  | nil => exact ⟨rfl, h⟩
  | cons source sources => exact decideAny_faithful h context (source :: sources)

/-- One question is answered as without the cache, and leaves the cache faithful. -/
theorem Query.answer_faithful (h : cache.Faithful) (query : Query) :
    (query.answer cache).1 = query.afresh ∧ (query.answer cache).2.Faithful := by
  cases query with
  | compile source =>
    have ⟨same, kept⟩ := Cache.request_faithful h source
    exact ⟨congrArg Answer.compiled same, kept⟩
  | problem source =>
    have ⟨same, kept⟩ := problem_faithful h source
    refine ⟨?_, kept⟩
    show Answer.problem ((Visibility.problem source cache).1.map (·.message)) = _
    rw [same]
    rfl
  | attempt source context =>
    have ⟨same, kept⟩ := attempt_faithful h source context
    exact ⟨congrArg Answer.attempt same, kept⟩
  | decide conditions context =>
    have ⟨same, kept⟩ := decideShown_faithful h conditions context
    exact ⟨congrArg Answer.decision same, kept⟩

/-- A run of questions is answered as without the cache, by induction on the questions. -/
theorem answers_faithful (h : cache.Faithful) (queries : List Query) :
    (answers queries cache).1 = queries.map Query.afresh ∧ (answers queries cache).2.Faithful := by
  induction queries generalizing cache with
  | nil => exact ⟨rfl, h⟩
  | cons query queries ih =>
    have ⟨first, kept⟩ := query.answer_faithful h
    have ⟨others, keptOn⟩ := ih kept
    refine ⟨?_, keptOn⟩
    show (query.answer cache).1 :: (answers queries (query.answer cache).2).1 = _
    rw [first, others, List.map_cons]

end Questions

/-! ## §5 Runs -/

end Visibility
