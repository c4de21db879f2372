import Visibility.Proofs.NonInterference

/-!
# The order in which names are read

Operands are evaluated from left to right and never twice, so the names that are read from the
context follow the text: they are some of the occurrences of names in the expression, in their
order.  Failures, tests of methods and operands that are left out cut the sequence short at various
places, but never change its order.  Of the arguments of a call only the first counts.

* `occurrences`, `firstArgumentsOnly`, `isStraight` — the names of an expression from left to right,
  the expression without the arguments that are never evaluated, and whether it has `&&` or `||`
* `Step.ReadsAlong` — the relation between a step and the names it may read, with one rule for
  every operation on steps
* `evaluateWithin_readsAlong` — each kind of node keeps it, by induction on the nodes within each
  other
* `evaluate_reads_in_order` — whole evaluations
-/

namespace Visibility

/-! ## §1 Names from left to right -/

namespace Expr

mutual

/-- The names of an expression from left to right, each as often as it occurs. -/
def occurrences : Expr → List String
  | .literal _ | .unknown _ => []
  | .name key => [key]
  | .member object _ => object.occurrences
  | .array elements => occurrencesOf elements
  | .call object _ arguments => object.occurrences ++ occurrencesOf arguments
  | .binary _ left right => left.occurrences ++ right.occurrences
  | .unary _ operand => operand.occurrences
  | .group inner => inner.occurrences

/-- The names of several expressions, one after the other. -/
def occurrencesOf : List Expr → List String
  | [] => []
  | e :: es => e.occurrences ++ occurrencesOf es

end

mutual

/-- The expression without the arguments that follow the first one of a call. -/
def firstArgumentsOnly : Expr → Expr
  | .literal v => .literal v
  | .unknown kind => .unknown kind
  | .name key => .name key
  | .member object property => .member object.firstArgumentsOnly property
  | .array elements => .array (firstArgumentsOnlyIn elements)
  | .call object method arguments =>
    .call object.firstArgumentsOnly method ((firstArgumentsOnlyIn arguments).take 1)
  | .binary operator left right =>
    .binary operator left.firstArgumentsOnly right.firstArgumentsOnly
  | .unary operator operand => .unary operator operand.firstArgumentsOnly
  | .group inner => .group inner.firstArgumentsOnly

/-- The same for several expressions. -/
def firstArgumentsOnlyIn : List Expr → List Expr
  | [] => []
  | e :: es => e.firstArgumentsOnly :: firstArgumentsOnlyIn es

end

mutual

/-- No operand can be left out: neither `&&` nor `||` occurs in the expression. -/
def isStraight : Expr → Bool
  | .literal _ | .name _ | .unknown _ => true
  | .member object _ => object.isStraight
  | .array elements => areStraight elements
  | .call object _ arguments => object.isStraight && areStraight arguments
  | .binary operator left right =>
    operator != .and && operator != .or && left.isStraight && right.isStraight
  | .unary _ operand => operand.isStraight
  | .group inner => inner.isStraight

/-- The same for several expressions. -/
def areStraight : List Expr → Bool
  | [] => true
  | e :: es => e.isStraight && areStraight es

end

theorem areStraight_iff {es : List Expr} : areStraight es ↔ ∀ e ∈ es, e.isStraight := by
  induction es with
  | nil => simp [areStraight]
  | cons e es ih => rw [areStraight, Bool.and_eq_true, ih, List.forall_mem_cons]

theorem isStraight_child {e child : Expr} (straight : e.isStraight) (mem : child ∈ e.children) :
    child.isStraight := by
  cases e with
  | literal | name | unknown => simp [children] at mem
  | array elements => exact areStraight_iff.mp straight child mem
  | call object method arguments =>
    obtain ⟨ofObject, ofArguments⟩ := Bool.and_eq_true_iff.mp straight
    rcases List.mem_cons.mp mem with rfl | mem
    · exact ofObject
    · exact areStraight_iff.mp ofArguments child mem
  | binary operator left right =>
    simp only [isStraight, Bool.and_eq_true] at straight
    rcases List.mem_pair.mp mem with rfl | rfl
    · exact straight.1.2
    · exact straight.2
  | member | unary | group =>
    obtain rfl := List.mem_singleton.mp mem
    exact straight

/-- The occurrences of names that an evaluation may come to. -/
def readable (e : Expr) : List String :=
  e.firstArgumentsOnly.occurrences

theorem readable_array (elements : List Expr) :
    (array elements).readable = elements.flatMap readable := by
  show occurrencesOf (firstArgumentsOnlyIn elements) = _
  induction elements with
  | nil => rfl
  | cons e es ih => rw [firstArgumentsOnlyIn, occurrencesOf, ih, List.flatMap_cons, readable]

theorem readable_call (object : Expr) (method : String) (arguments : List Expr) :
    (call object method arguments).readable =
      object.readable ++ (arguments.take 1).flatMap readable := by
  cases arguments with
  | nil => rfl
  | cons argument more =>
    show _ ++ (argument.readable ++ []) = _ ++ (argument.readable ++ [])
    rfl

theorem readable_binary (operator : Operator) (left right : Expr) :
    (binary operator left right).readable = left.readable ++ right.readable := rfl

end Expr

/-! ## §2 What a step reads -/

namespace Step

open Evaluation

variable {α β : Type} {complete : Prop} {names more : List String}

/-- The step reads some of the names, in their order and each at most once, whether it returns or
fails.  If it is `complete`, a step that returns has read all of them. -/
def ReadsAlong (complete : Prop) (names : List String) (x : Step α) : Prop :=
  ∀ t, ∃ read, (x t).2.reads = t.reads ++ read ∧ read.Sublist names ∧
    (complete → ∀ a, (x t).1 = .ok a → read = names)

namespace ReadsAlong

/-- A step that reads nothing. -/
theorem of_silent {x : Step α} (silent : ∀ t, (x t).2.reads = t.reads) :
    ReadsAlong complete [] x := by
  intro t
  exact ⟨[], by rw [silent, List.append_nil], .slnil, fun _ _ _ => rfl⟩

theorem pure (a : α) : ReadsAlong complete [] (pure a : Step α) :=
  of_silent fun _ => rfl

theorem lift (x : Except CoercionError α) : ReadsAlong complete [] (lift x) :=
  of_silent fun t => by rw [lift_trace]

theorem buildList (items : List Value) : ReadsAlong complete [] (buildList items) :=
  of_silent fun _ => rfl

/-- A failure may come before any of the names. -/
theorem fail (cause : Failure) (names : List String) :
    ReadsAlong complete names (fail cause : Step α) := by
  intro t
  exact ⟨[], (List.append_nil _).symm, List.nil_sublist names, fun _ _ returned => nomatch returned⟩

/-- Names that a step does not come to can be added, unless it has to read all. -/
theorem mono {x : Step α} (reads : ReadsAlong complete names x) (sub : names.Sublist more)
    (incomplete : ¬complete) : ReadsAlong complete more x := by
  intro t
  obtain ⟨read, grown, within, -⟩ := reads t
  exact ⟨read, grown, within.trans sub, fun holds => absurd holds incomplete⟩

theorem weaken {less : Prop} {x : Step α} (reads : ReadsAlong complete names x)
    (imp : less → complete) : ReadsAlong less names x := by
  intro t
  obtain ⟨read, grown, within, all⟩ := reads t
  exact ⟨read, grown, within, fun holds => all (imp holds)⟩

theorem lookUp (context : Context) (name : String) :
    ReadsAlong complete [name] (lookUp context name) := by
  intro t
  unfold Step.lookUp
  split
  · exact ⟨[name], by simp [Trace.reads], .refl _, fun _ _ _ => rfl⟩
  · exact ⟨[], by simp [Trace.reads], List.nil_sublist _, fun _ _ returned => nomatch returned⟩
  · exact ⟨[], by simp [Trace.reads], List.nil_sublist _, fun _ _ returned => nomatch returned⟩

/-- What the first step reads comes before what the second one does. -/
theorem bind {x : Step α} {f : α → Step β} (first : ReadsAlong complete names x)
    (rest : ∀ a, ReadsAlong complete more (f a)) : ReadsAlong complete (names ++ more) (x >>= f) := by
  intro t
  obtain ⟨read, grown, within, all⟩ := first t
  show ∃ read, (andThen x f t).2.reads = _ ∧ _ ∧ (_ → ∀ a, (andThen x f t).1 = .ok a → _)
  unfold andThen
  rcases ends : x t with ⟨cause | a, u⟩
  · rw [ends] at grown
    exact ⟨read, grown, within.trans (List.sublist_append_left ..), fun _ _ returned =>
      nomatch returned⟩
  · rw [ends] at grown all
    obtain ⟨read', grown', within', all'⟩ := rest a u
    refine ⟨read ++ read', ?_, within.append within', fun holds b returned => ?_⟩
    · rw [grown', grown, List.append_assoc]
    · rw [all holds a rfl, all' holds b returned]

/-- A second step that reads nothing adds nothing. -/
theorem andThenSilent {x : Step α} {f : α → Step β} (first : ReadsAlong complete names x)
    (rest : ∀ a, ReadsAlong complete [] (f a)) : ReadsAlong complete names (x >>= f) := by
  have both := first.bind rest
  rwa [List.append_nil] at both

theorem mapM {f : α → Step β} {names : α → List String} {as : List α}
    (each : ∀ a ∈ as, ReadsAlong complete (names a) (f a)) :
    ReadsAlong complete (as.flatMap names) (as.mapM f) := by
  induction as with
  | nil =>
    rw [List.mapM_nil]
    exact .pure []
  | cons a as ih =>
    obtain ⟨first, others⟩ := List.forall_mem_cons.mp each
    rw [List.mapM_cons, List.flatMap_cons]
    exact first.bind fun _ => (ih others).andThenSilent fun _ => .pure _

theorem readProperty (v : Value) (property : String) :
    ReadsAlong complete [] (readProperty v property) := by
  unfold Evaluation.readProperty
  split
  · split
    · exact .pure _
    · exact .fail _ _
  · exact .pure _

theorem compareWith (operator : Operator) (a b : Value) :
    ReadsAlong complete [] (compareWith operator a b) := by
  unfold Evaluation.compareWith
  split <;> first | exact .lift _ | exact .fail _ _

theorem negateWith (operator : Operator) (v : Value) :
    ReadsAlong complete [] (Expr.negateWith operator v) := by
  unfold Expr.negateWith
  split
  · exact (ReadsAlong.lift _).andThenSilent fun _ => .pure _
  · exact .fail _ _

end ReadsAlong

end Step

/-! ## §3 Evaluations -/

namespace Expr

open Evaluation Step

variable {context : Context}

/-- What is done with the value of the object of a call reads along the first argument. -/
theorem callOn_readsAlong {complete : Prop} {depth : Nat} (method : String) {arguments : List Expr}
    (each : ∀ e ∈ arguments, ReadsAlong complete e.readable (evaluateWithin context depth e))
    (v : Value) :
    ReadsAlong complete ((arguments.take 1).flatMap readable)
      (callOn context depth method arguments v) := by
  unfold callOn
  split
  · exact .fail _ _
  · split
    · exact .fail _ _
    · refine ReadsAlong.andThenSilent ?_ fun needle =>
        (ReadsAlong.lift _).andThenSilent fun found => .pure _
      cases arguments with
      | nil => exact .pure _
      | cons argument more =>
        show ReadsAlong complete (argument.readable ++ []) (evaluateWithin context depth argument)
        rw [List.append_nil]
        exact each argument (List.mem_cons_self ..)

theorem evaluateWithin_readsAlong (depth : Nat) (e : Expr) :
    ReadsAlong e.isStraight e.readable (evaluateWithin context depth e) := by
  induction depth generalizing e with
  | zero => exact .fail _ _
  | succ depth ih =>
    have below (child : Expr) (mem : child ∈ e.children) :
        ReadsAlong e.isStraight child.readable (evaluateWithin context depth child) :=
      (ih child).weaken fun straight => isStraight_child straight mem
    cases e with
    | literal v => exact .pure v
    | name key => exact .lookUp context key
    | member object property =>
      rw [evaluateWithin_member]
      exact (below object (by simp [children])).andThenSilent fun v =>
        .readProperty v property
    | array elements =>
      rw [evaluateWithin_array, readable_array]
      exact (ReadsAlong.mapM below).andThenSilent fun items => .buildList items
    | call object method arguments =>
      rw [evaluateWithin_call, readable_call]
      exact (below object (by simp [children])).bind fun v =>
        callOn_readsAlong method (fun e mem => below e (List.mem_cons_of_mem _ mem)) v
    | binary operator left right =>
      have ofLeft := below left (by simp [children])
      have ofRight := below right (by simp [children])
      rw [readable_binary]
      by_cases isAnd : operator = .and
      · subst isAnd
        -- The right operand may be left out; the expression makes no promise then.
        have notStraight : ¬(binary .and left right).isStraight := by simp [isStraight]
        rw [evaluateWithin_and]
        refine ofLeft.bind fun v => (ReadsAlong.lift _).bind fun truth => ?_
        cases truth
        · exact (ReadsAlong.pure v).mono (List.nil_sublist _) notStraight
        · exact ofRight
      · by_cases isOr : operator = .or
        · subst isOr
          have notStraight : ¬(binary .or left right).isStraight := by simp [isStraight]
          rw [evaluateWithin_or]
          refine ofLeft.bind fun v => (ReadsAlong.lift _).bind fun truth => ?_
          cases truth
          · exact ofRight
          · exact (ReadsAlong.pure v).mono (List.nil_sublist _) notStraight
        · rw [evaluateWithin_binary isAnd isOr]
          exact ofLeft.bind fun a => ofRight.andThenSilent fun b =>
            (ReadsAlong.compareWith operator a b).andThenSilent fun _ => .pure _
    | unary operator operand =>
      rw [evaluateWithin_unary]
      exact (below operand (by simp [children])).andThenSilent fun v =>
        .negateWith operator v
    | group inner => exact below inner (by simp [children])
    | unknown kind => exact .fail _ _

/-- **Names are read from left to right.**  What an evaluation reads, whether it returns or fails,
are some of the occurrences of names in the expression without the unused arguments of calls, in
their order and each at most once.  If no operand can be left out and the evaluation returns, it has
read all of them. -/
theorem evaluate_reads_in_order (e : Expr) (context : Context) :
    (e.evaluate context).2.reads.Sublist e.firstArgumentsOnly.occurrences ∧
    (e.isStraight → ∀ v, (e.evaluate context).1 = .ok v →
      (e.evaluate context).2.reads = e.firstArgumentsOnly.occurrences) := by
  obtain ⟨read, grown, within, all⟩ := evaluateWithin_readsAlong evaluationDepth e .empty
  have start : Trace.empty.reads = [] := rfl
  rw [start, List.nil_append] at grown
  rw [evaluate, grown]
  exact ⟨within, fun straight v returned => all straight v returned⟩

/-- In `[a, b.c].includes(d, f) === !a` the second argument is not evaluated, and `a` is read twice. -/
theorem evaluate_reads_in_order_includes :
    let e := Expr.binary .strictEqual
      (.call (.array [.name "a", .member (.name "b") "c"]) membershipTest [.name "d", .name "f"])
      (.unary .not (.name "a"))
    let context := Context.holding (.map (.given 0)
      [(.string "d", .int 1), (.string "b", .map (.given 1) [(.string "c", .int 1)]),
        (.string "a", .null)])
    e.isStraight ∧ (e.evaluate context).1 = .ok (.bool true) ∧
      (e.evaluate context).2.reads = ["a", "b", "d", "a"] := by
  intro e context
  have straight : e.isStraight := rfl
  have value : (e.evaluate context).1 = .ok (.bool true) := by
    rw [evaluate, evaluationDepth, evaluateWithin_binary (by decide) (by decide)]
    cbv
  exact ⟨straight, value, (evaluate_reads_in_order e context).2 straight _ value⟩

end Expr

end Visibility
