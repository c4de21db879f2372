import Visibility.Proofs.Hazard.Evaluation
import Visibility.Proofs.Renumbering
import Visibility.Proofs.Rewriting

/-!
# The membership test as a chain of comparisons

`[a, b, c].includes(x)` ends as `(a === x) || (b === x) || (c === x)` does, although the one
evaluates `x` once and builds a list, and the other evaluates `x` again and again until a comparison
decides.  The values that are compared have other numbers on the two sides, so a comparison must not
depend on them: a built list is not the value of anything that is evaluated after it.

* `strictEquals_later_of_le` — such comparisons do not depend on what was built before
* `Yields` — the value of an expression, wherever its evaluation starts
* `includes_endsAs`, `anyEqualTo_endsAs` — both sides end as the first comparison that decides
* `evaluate_includes` — so they end alike
-/

namespace Visibility

/-! ## §1 Comparisons of values of different times -/

namespace Value

variable {v : Value}

/-- A value is compared with one that is built after it.  How much was built before the two does not
matter. -/
theorem strictEquals_later_of_le {n i j : Nat} (built : v.BuiltBefore n) (after : n + i ≤ j)
    (w : Value) : (v.later i).strictEquals (w.later j) = v.strictEquals (w.later n) := by
  by_cases object : v.kind = .object ∨ w.kind = .object
  · rw [strictEquals_of_object (by simpa using object), strictEquals_of_object (by simpa using object)]
    simp only [identity?_later]
    cases number : v.identity? with
    | none => cases w.identity? <;> rfl
    | some id =>
      cases w.identity? with
      | none => rfl
      | some id' =>
        cases id with
        | built m =>
          have early : m < n := built _ _ .here m number
          -- The numbers of the later value start behind that of the earlier one.
          cases id' with
          | built m' =>
            have here : m + i ≠ m' + j := by omega
            have there : m ≠ m' + n := by omega
            simp [Identity.later, here, there]
          | given | assembled => simp [Identity.later]
        | given | assembled => cases id' <;> simp [Identity.later]
  · obtain ⟨plain, plain'⟩ := not_or.mp object
    rw [later_of_kind_ne plain, later_of_kind_ne plain', later_of_kind_ne plain']

end Value

/-! ## §2 Values of expressions -/

namespace Expr

open Evaluation Step

variable {context : Context} {root e x : Expr} {v w : Value} {m n : Nat}

/-- Wherever its evaluation starts, the expression returns the value, renumbered, and builds so many
lists. -/
structure Yields (context : Context) (e : Expr) (v : Value) (n : Nat) : Prop where
  builtBefore : v.BuiltBefore n
  returns (t : Trace) :
    ∃ u, Returns (evaluateFreely context e) t (v.later t.built) u ∧ u.built = n + t.built

/-- An expression that returns a value at the start yields it. -/
theorem exists_yields (given : GivenOnly root context) (part : Part root e)
    (h : (e.evaluate context).1 = .ok v) : ∃ n, Yields context e v n := by
  have run : Returns (evaluateFreely context e) .empty v (evaluateFreely context e .empty).2 := by
    rw [evaluate_eq_evaluateFreely (by simp [h])] at h
    exact Prod.ext h rfl
  generalize (evaluateFreely context e .empty).2 = u at run
  refine ⟨u.built, evaluateWithin_closedAlong given.closedAlong _ part run, fun t => ?_⟩
  have later := (evaluateWithin_postponed given t e.height part).returns run
  rw [Trace.empty_after] at later
  exact ⟨u.after t, later, rfl⟩

/-! ## §3 The first comparison that decides -/

/-- How an evaluation ends whose result is a truth value. -/
def outcome : Except CoercionError Bool → Except Failure Value
  | .ok b => .ok (.bool b)
  | .error cause => .error cause.failure

theorem outcome_lift (result : Except CoercionError Bool) (t : Trace) :
    ((lift result >>= fun b => pure (Value.bool b)) t).1 = outcome result := by
  cases result with
  | ok b => rfl
  | error cause =>
    rw [lift_error, fail_bind]
    rfl

/-- The evaluation of the expression ends so, wherever it starts. -/
def EndsAs (context : Context) (e : Expr) (result : Except CoercionError Bool) : Prop :=
  ∀ t, (evaluateFreely context e t).1 = outcome result

/-- A second result counts only if the first one is false. -/
def orElse (first second : Except CoercionError Bool) : Except CoercionError Bool :=
  first >>= fun decided => if decided then pure true else second

theorem orElse_assoc (p q r : Except CoercionError Bool) :
    orElse (orElse p q) r = orElse p (orElse q r) := by
  rcases p with cause | (_ | _) <;> rfl

theorem anyM_cons {α : Type} (f : α → Except CoercionError Bool) (a : α) (as : List α) :
    (a :: as).anyM f = orElse (f a) (as.anyM f) := by
  rw [List.anyM, orElse]
  refine bind_congr fun decided => ?_
  cases decided <;> rfl

/-- A later operand counts only if the first one is false. -/
theorem EndsAs.or {a b : Expr} {p q : Except CoercionError Bool} (left : EndsAs context a p)
    (right : EndsAs context b q) : EndsAs context (.binary .or a b) (orElse p q) := by
  intro t
  have ends := left t
  rw [evaluateFreely_or]
  rcases run : evaluateFreely context a t with ⟨ending, u⟩
  rw [run] at ends
  obtain rfl : ending = outcome p := ends
  -- The second operand is left out if the first one fails or is true.
  rcases p with cause | (_ | _)
  · show (andThen (evaluateFreely context a) _ t).1 = _
    rw [andThen, run]
    rfl
  · have returned : Returns (evaluateFreely context a) t (.bool false) u := run
    rw [returned.bind]
    exact right u
  · have returned : Returns (evaluateFreely context a) t (.bool true) u := run
    rw [returned.bind]
    rfl

section Chain

variable {es : List Expr} {value : Expr → Value} {count : Expr → Nat}

/-- The comparison of the value of an expression with one that is computed next. -/
def equalsNext (value : Expr → Value) (count : Expr → Nat) (w : Value) (e : Expr) :
    Except CoercionError Bool :=
  (value e).strictEquals (w.later (count e))

/-- What comes after the items is compared with each of them as if it were computed right after it.
-/
theorem mapM_compared (each : ∀ e ∈ es, Yields context e (value e) (count e)) (t : Trace) :
    ∃ items u, Returns (es.mapM (evaluateFreely context)) t items u ∧ t.built ≤ u.built ∧
      ∀ j, u.built ≤ j →
        containsStrictly (w.later j) items = es.anyM (equalsNext value count w) := by
  induction es generalizing t with
  | nil => exact ⟨[], t, rfl, Nat.le_refl _, fun _ _ => rfl⟩
  | cons e es ih =>
    obtain ⟨ofE, others⟩ := List.forall_mem_cons.mp each
    obtain ⟨u, first, number⟩ := ofE.returns t
    obtain ⟨items, u', rest, grown, compared⟩ := ih others u
    refine ⟨(value e).later t.built :: items, u', ?_, by omega, fun j behind => ?_⟩
    · rw [List.mapM_cons, Returns, first.bind, rest.bind]
      rfl
    · -- The items that follow put the needle further back, which this comparison does not see.
      have same := Value.strictEquals_later_of_le ofE.builtBefore (i := t.built) (j := j) (by omega) w
      rw [anyM_cons, containsStrictly, same, compared j behind]
      rfl

/-- `(e === x)` -/
def equalTo (e x : Expr) : Expr :=
  .group (.binary .strictEqual e x)

/-- `(e === x) || (e₁ === x) || … || (eₙ === x)`, which is read from the left. -/
def anyEqualTo (e : Expr) (es : List Expr) (x : Expr) : Expr :=
  es.foldl (fun chain e => .binary .or chain (equalTo e x)) (equalTo e x)

theorem includes_endsAs (each : ∀ e ∈ es, Yields context e (value e) (count e))
    (ofX : Yields context x w n) :
    EndsAs context (.call (.array es) membershipTest [x])
      (es.anyM (equalsNext value count w)) := by
  intro t
  have covers : heights [x] ≤ x.height := by simp [heights]
  obtain ⟨items, u, listed, grown, compared⟩ := mapM_compared (w := w) each t
  have built : Returns (buildList items) u (.list (.built u.built) items)
      { u with built := u.built + 1 } := rfl
  obtain ⟨u', needle, _⟩ := ofX.returns { u with built := u.built + 1 }
  rw [evaluateFreely_call _ _ covers, evaluateFreely_array, bind_assoc, listed.bind, built.bind]
  simp only [callOn, ne_eq, not_true_eq_false, if_false, Value.elements?, firstArgument]
  rw [evaluateWithin_eq_evaluateFreely (Nat.le_refl _), needle.bind, compared _ (Nat.le_succ _)]
  exact outcome_lift _ u'

theorem equalTo_endsAs (ofE : Yields context e v m) (ofX : Yields context x w n) :
    EndsAs context (equalTo e x) (v.strictEquals (w.later m)) := by
  intro t
  obtain ⟨u, first, number⟩ := ofE.returns t
  obtain ⟨u', second, _⟩ := ofX.returns u
  rw [equalTo, evaluateFreely_group, evaluateFreely_binary (by decide) (by decide), first.bind,
    second.bind]
  have same := Value.strictEquals_later_of_le ofE.builtBefore (i := t.built) (j := u.built)
    (by omega) w
  rw [compareWith, same]
  exact outcome_lift _ u'

theorem foldl_endsAs (each : ∀ e ∈ es, Yields context e (value e) (count e))
    (ofX : Yields context x w n) {chain : Expr} {result : Except CoercionError Bool}
    (start : EndsAs context chain result) :
    EndsAs context (es.foldl (fun chain e => .binary .or chain (equalTo e x)) chain)
      (orElse result (es.anyM (equalsNext value count w))) := by
  -- The chain grows at its right end, so the induction is for every chain to start from.
  induction es generalizing chain result with
  | nil =>
    have all : orElse result ([].anyM (equalsNext value count w)) = result := by
      rcases result with cause | (_ | _) <;> rfl
    rwa [all]
  | cons e es ih =>
    obtain ⟨ofE, others⟩ := List.forall_mem_cons.mp each
    have longer := ih others (start.or (equalTo_endsAs ofE ofX))
    rw [orElse_assoc] at longer
    rw [anyM_cons]
    exact longer

theorem anyEqualTo_endsAs (ofE : Yields context e (value e) (count e))
    (each : ∀ e ∈ es, Yields context e (value e) (count e)) (ofX : Yields context x w n) :
    EndsAs context (anyEqualTo e es x) ((e :: es).anyM (equalsNext value count w)) := by
  rw [anyM_cons]
  exact foldl_endsAs each ofX (equalTo_endsAs ofE ofX)

end Chain

/-! ## §4 The membership test -/

/-- What refuses to be compared is a signaling NaN. -/
theorem eq_signalingNaN_of_anyM {value : Expr → Value} {count : Expr → Nat} {es : List Expr}
    {cause : CoercionError} (h : es.anyM (equalsNext value count w) = .error cause) :
    cause = .signalingNaN := by
  induction es with
  | nil => cases h
  | cons e es ih =>
    rw [anyM_cons, orElse] at h
    rcases Except.bind_eq_error.mp h with refused | ⟨decided, _, rest⟩
    · exact Value.eq_signalingNaN_of_strictEquals refused
    · cases decided
      · exact ih rest
      · cases rest

theorem EndsAs.evaluate {result : Except CoercionError Bool} (ends : EndsAs context e result) :
    (∀ depth, e.height ≤ depth → (e.evaluateWithin context depth .empty).1 = outcome result) ∧
    ((e.evaluate context).1 ≠ .error tooDeep → (e.evaluate context).1 = outcome result) := by
  constructor
  · intro depth covers
    rw [evaluateWithin_eq_evaluateFreely covers]
    exact ends .empty
  · intro notDeep
    rw [evaluate_eq_evaluateFreely notDeep]
    exact ends .empty

/-- The literals of the language are no objects, so only the context may hold a list that an
evaluation built. -/
theorem givenOnly_of_inLanguage (language : Grammar.InLanguage root) {held : Value}
    (given : held.BuiltBefore 0) : GivenOnly root (.holding held) where
  literal part := by
    cases part.inLanguage language with
    | literal value => cases value <;> exact Value.builtBefore_of_no_identity rfl 0
  name found := by
    cases held with
    | map id entries =>
      obtain ⟨key, mem⟩ := Value.mem_of_find? (Except.ok.inj found)
      exact given.entry mem
    | _ => cases found

/-- **The membership test of an array literal is a chain of strict comparisons.**  If each element
and the argument have a value, the test and the chain end alike: with the same truth value, or both
with the failure of a comparison of a signaling NaN.  They do so at all depths that cover them, and at
the limited one whenever neither ends at the limit.  Of the context it is only asked that no list in
it has the identity of one that is still to be built. -/
theorem evaluate_includes {x : Expr} {es : List Expr}
    (given : GivenOnly (.call (.array (e :: es)) membershipTest [x]) context)
    (each : ∀ p ∈ x :: e :: es, ∃ v, (p.evaluate context).1 = .ok v) :
    let test := Expr.call (.array (e :: es)) membershipTest [x]
    let chain := anyEqualTo e es x
    (∀ depth depth', test.height ≤ depth → chain.height ≤ depth' →
      (test.evaluateWithin context depth .empty).1 =
        (chain.evaluateWithin context depth' .empty).1) ∧
    ((test.evaluate context).1 ≠ .error tooDeep → (chain.evaluate context).1 ≠ .error tooDeep →
      (test.evaluate context).1 = (chain.evaluate context).1 ∧
      ((∃ b, (test.evaluate context).1 = .ok (.bool b)) ∨
        (test.evaluate context).1 = .error (.coercion .signalingNaN))) := by
  intro test chain
  have parts : ∀ p ∈ x :: e :: es, Part test p := by
    have ofArray : Part test (.array (e :: es)) := Part.root.child (by simp [test, children])
    refine List.forall_mem_cons.mpr ⟨Part.root.child (by simp [test, children]), fun p mem => ?_⟩
    exact ofArray.child mem
  have yields : ∀ p ∈ x :: e :: es, ∃ v n, Yields context p v n := by
    intro p mem
    obtain ⟨v, returned⟩ := each p mem
    exact ⟨v, exists_yields given (parts p mem) returned⟩
  choose! value count yields using yields
  obtain ⟨ofX, ofElements⟩ := List.forall_mem_cons.mp yields
  obtain ⟨ofE, ofEs⟩ := List.forall_mem_cons.mp ofElements
  -- Both are one search among values that are known beforehand.
  let result := (e :: es).anyM (equalsNext value count (value x))
  have ofTest : EndsAs context test result := includes_endsAs ofElements ofX
  have ofChain : EndsAs context chain result := anyEqualTo_endsAs ofE ofEs ofX
  refine ⟨fun depth depth' covers covers' => ?_, fun notDeep notDeep' => ?_⟩
  · rw [ofTest.evaluate.1 depth covers, ofChain.evaluate.1 depth' covers']
  · rw [ofTest.evaluate.2 notDeep, ofChain.evaluate.2 notDeep']
    refine ⟨rfl, ?_⟩
    rcases decided : result with cause | b
    · obtain rfl := eq_signalingNaN_of_anyM decided
      exact .inr rfl
    · exact .inl ⟨b, rfl⟩

/-- `[[t], n, t].includes(t)` is true because of its last element: the list that is built is not the
one of the context, and neither is NaN.  So is `([t] === t) || (n === t) || (t === t)`. -/
theorem evaluate_includes_shared :
    let t := Expr.name "t"
    let context := Context.holding (.map (.given 0)
      [(.string "t", .list (.given 1) []), (.string "n", .double .nan)])
    let test := Expr.call (.array [.array [t], .name "n", t]) membershipTest [t]
    let chain := anyEqualTo (.array [t]) [.name "n", t] t
    GivenOnly test context ∧
      (∀ p ∈ [t, .array [t], .name "n", t], ∃ v, (p.evaluate context).1 = .ok v) ∧
      (test.evaluate context).1 = .ok (.bool true) ∧
      (chain.evaluate context).1 = .ok (.bool true) := by
  intro t context test chain
  have language : Grammar.InLanguage test := by
    have name (key : String) : Grammar.InLanguage (.name key) := .name key
    exact .call _ (.array (by simp [t, name, Grammar.InLanguage.array])) (by simp [t, name])
  -- Nothing in the context is a list that the evaluation builds.
  have held : (Value.map (.given 0)
      [(.string "t", .list (.given 1) []), (.string "n", .double .nan)]).BuiltBefore 0 := by
    refine Value.builtBefore_map nofun fun key v mem => ?_
    simp only [List.mem_cons, Prod.mk.injEq, List.not_mem_nil, or_false] at mem
    rcases mem with ⟨-, rfl⟩ | ⟨-, rfl⟩
    · exact Value.builtBefore_list nofun nofun
    · exact Value.builtBefore_of_no_identity rfl 0
  have ofT : (t.evaluate context).1 = .ok (.list (.given 1) []) := by
    dsimp only [t, context]
    cbv
  have ofArray : ((Expr.array [t]).evaluate context).1 =
      .ok (.list (.built 0) [.list (.given 1) []]) := by
    dsimp only [t, context]
    cbv
  have ofN : ((Expr.name "n").evaluate context).1 = .ok (.double .nan) := by
    dsimp only [context]
    cbv
  have value : (test.evaluate context).1 = .ok (.bool true) := by
    dsimp only [test, t, context]
    cbv
  have each : ∀ p ∈ [t, .array [t], .name "n", t], ∃ v, (p.evaluate context).1 = .ok v := by
    simp [ofT, ofArray, ofN]
  have given : GivenOnly test context := givenOnly_of_inLanguage language held
  have alike := (evaluate_includes given each).1 evaluationDepth evaluationDepth (by decide)
    (by decide)
  exact ⟨given, each, value, alike.symm.trans value⟩

end Expr

end Visibility
