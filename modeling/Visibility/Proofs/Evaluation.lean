import Visibility.Evaluation

/-!
# How steps of an evaluation end

Every step of an evaluation either returns a value and a trace or fails with a cause.  The lemmas
here say, for each way of building a step, when it returns and when it fails, so that nothing later
unfolds a step again.  The same is done for the nodes of an expression.

* `Returns`, `Fails` — the two ends of a step, with one equivalence for every operation on steps
* `evaluateWithin_member`, …, `evaluateWithin_unary` — the steps of each kind of node
* `Congruence.node` — a relation between steps that all operations preserve relates two evaluations
  of a node as soon as it relates those of the parts right below it, and the lookups
* `Congruence.evaluateWithin` — so it relates the evaluations of an expression in two contexts
-/

namespace Visibility

/-! ## §1 The ends of a step -/

/-- The failure that a conversion without a result becomes. -/
def CoercionError.failure : CoercionError → Failure
  | .nestedTooDeeply => .malformed .nestedTooDeeply
  | cause => .coercion cause

namespace Step

variable {α β : Type} {t t' : Trace} {cause : Failure}

/-- The step returns a value and leaves a trace. -/
def Returns (x : Step α) (t : Trace) (a : α) (t' : Trace) : Prop :=
  x t = (.ok a, t')

/-- The step fails. -/
def Fails (x : Step α) (t : Trace) (cause : Failure) : Prop :=
  (x t).1 = .error cause

@[simp] theorem returns_pure {a b : α} :
    Returns (pure a : Step α) t b t' ↔ a = b ∧ t = t' := by
  show ((Except.ok a : Except Failure α), t) = (.ok b, t') ↔ _
  simp

@[simp] theorem returns_bind {x : Step α} {f : α → Step β} {b : β} :
    Returns (x >>= f) t b t' ↔ ∃ a u, Returns x t a u ∧ Returns (f a) u b t' := by
  show andThen x f t = _ ↔ _
  unfold andThen Returns
  rcases x t with ⟨_ | a, u⟩
  · simp
  · constructor
    · exact fun h => ⟨a, u, rfl, h⟩
    · rintro ⟨a, u, same, h⟩
      cases same
      exact h

/-- What comes after a step that returns goes on with its value and its trace. -/
theorem Returns.bind {x : Step α} {a : α} (h : Returns x t a t') (f : α → Step β) :
    (x >>= f) t = f a t' := by
  show andThen x f t = _
  rw [andThen, h]

@[simp] theorem returns_fail {a : α} : ¬Returns (fail cause : Step α) t a t' := by
  simp [Returns, fail]

@[simp] theorem returns_lift {x : Except CoercionError α} {a : α} :
    Returns (lift x) t a t' ↔ x = .ok a ∧ t = t' := by
  unfold Returns lift
  split <;> simp

@[simp] theorem returns_lookUp {context : Context} {name : String} {v : Value} :
    Returns (lookUp context name) t v t' ↔
      context.find? name = .ok (some v) ∧
        t' = { t with lookups := ⟨name, true⟩ :: t.lookups } := by
  unfold Returns lookUp
  split <;> rename_i found <;> simp [found, eq_comm]

@[simp] theorem returns_buildList {items : List Value} {v : Value} :
    Returns (buildList items) t v t' ↔
      v = .list (.built t.built) items ∧ t' = { t with built := t.built + 1 } := by
  simp [Returns, buildList, eq_comm]

@[simp] theorem fails_pure {a : α} : ¬Fails (pure a : Step α) t cause := by
  show ¬(Except.ok a : Except Failure α) = .error cause
  simp

@[simp] theorem fails_bind {x : Step α} {f : α → Step β} :
    Fails (x >>= f) t cause ↔ Fails x t cause ∨ ∃ a u, Returns x t a u ∧ Fails (f a) u cause := by
  show (andThen x f t).1 = _ ↔ _
  unfold andThen Fails Returns
  rcases x t with ⟨_ | a, u⟩
  · simp
  · constructor
    · exact fun h => .inr ⟨a, u, rfl, h⟩
    · rintro (h | ⟨a, u, same, h⟩)
      · cases h
      · cases same
        exact h

@[simp] theorem fails_fail {cause' : Failure} :
    Fails (fail cause : Step α) t cause' ↔ cause = cause' := by
  simp [Fails, fail]

@[simp] theorem fails_lift {x : Except CoercionError α} :
    Fails (lift x) t cause ↔ ∃ refusal, x = .error refusal ∧ cause = refusal.failure := by
  unfold Fails lift
  split
  · simp
  · simp [CoercionError.failure, eq_comm]
  · rename_i refusal ne
    have : refusal.failure = .coercion refusal := by cases refusal <;> simp_all [CoercionError.failure]
    simp [this, eq_comm]

@[simp] theorem fails_lookUp {context : Context} {name : String} :
    Fails (lookUp context name) t cause ↔
      context.find? name = .error cause ∨
        context.find? name = .ok none ∧ cause = .denied (.accessDenied name) := by
  unfold Fails lookUp
  split <;> rename_i found <;> simp [found, eq_comm]

@[simp] theorem fails_buildList {items : List Value} : ¬Fails (buildList items) t cause := by
  simp [Fails, buildList]

end Step

/-! ## §2 The steps of each kind of node -/

namespace Expr

open Evaluation Step

variable {context : Context} {depth : Nat}

/-- The parts right below a node. -/
def children : Expr → List Expr
  | .literal _ | .name _ | .unknown _ => []
  | .member object _ => [object]
  | .array elements => elements
  | .call object _ arguments => object :: arguments
  | .binary _ left right => [left, right]
  | .unary _ operand => [operand]
  | .group inner => [inner]

theorem evaluateWithin_literal (v : Value) :
    evaluateWithin context (depth + 1) (.literal v) = pure v := rfl

theorem evaluateWithin_name (key : String) :
    evaluateWithin context (depth + 1) (.name key) = .lookUp context key := rfl

theorem evaluateWithin_member (object : Expr) (property : String) :
    evaluateWithin context (depth + 1) (.member object property) =
      evaluateWithin context depth object >>= fun v => readProperty v property := rfl

theorem evaluateWithin_array (elements : List Expr) :
    evaluateWithin context (depth + 1) (.array elements) =
      elements.mapM (evaluateWithin context depth) >>= .buildList := rfl

/-- The value of the first argument of a call; of none it is undefined. -/
def firstArgument (context : Context) (depth : Nat) : List Expr → Step Value
  | [] => pure .undefined
  | argument :: _ => evaluateWithin context depth argument

/-- What a call does with the value of its object. -/
def callOn (context : Context) (depth : Nat) (method : String) (arguments : List Expr) (v : Value) :
    Step Value :=
  if method ≠ membershipTest then .fail (.denied (.methodDenied method))
  else match v.elements? with
    | none => .fail (.denied (.notAnArray method))
    | some items =>
      firstArgument context depth arguments >>= fun needle =>
        .lift (containsStrictly needle items) >>= fun found => pure (.bool found)

theorem evaluateWithin_call (object : Expr) (method : String) (arguments : List Expr) :
    evaluateWithin context (depth + 1) (.call object method arguments) =
      evaluateWithin context depth object >>= callOn context depth method arguments := by
  cases arguments <;> rfl

theorem evaluateWithin_and (left right : Expr) :
    evaluateWithin context (depth + 1) (.binary .and left right) =
      evaluateWithin context depth left >>= fun v => .lift v.isTruthy >>= fun truth =>
        if truth then evaluateWithin context depth right else pure v := rfl

theorem evaluateWithin_or (left right : Expr) :
    evaluateWithin context (depth + 1) (.binary .or left right) =
      evaluateWithin context depth left >>= fun v => .lift v.isTruthy >>= fun truth =>
        if truth then pure v else evaluateWithin context depth right := rfl

theorem evaluateWithin_binary {operator : Operator} (notAnd : operator ≠ .and)
    (notOr : operator ≠ .or) (left right : Expr) :
    evaluateWithin context (depth + 1) (.binary operator left right) =
      evaluateWithin context depth left >>= fun a => evaluateWithin context depth right >>= fun b =>
        compareWith operator a b >>= fun result => pure (.bool result) := by
  cases operator <;> first | rfl | contradiction

/-- What a unary operator does with the value of its operand. -/
def negateWith (operator : Operator) (v : Value) : Step Value :=
  match operator with
  | .not => .lift v.isTruthy >>= fun truth => pure (.bool !truth)
  | other => .fail (.malformed (.unknownUnaryOperator other.text))

theorem evaluateWithin_unary (operator : Operator) (operand : Expr) :
    evaluateWithin context (depth + 1) (.unary operator operand) =
      evaluateWithin context depth operand >>= negateWith operator := by
  cases operator <;> rfl

theorem evaluateWithin_group (inner : Expr) :
    evaluateWithin context (depth + 1) (.group inner) = evaluateWithin context depth inner := rfl

end Expr

/-! ## §3 Relations that all operations preserve -/

namespace Step

/-- A relation between steps that is preserved by all operations on steps but lookups. -/
structure Congruence (R : (α : Type) → Step α → Step α → Prop) : Prop where
  pure {α : Type} (a : α) : R α (pure a) (pure a)
  bind {α β : Type} {x y : Step α} {f g : α → Step β} :
    R α x y → (∀ a, R β (f a) (g a)) → R β (x >>= f) (y >>= g)
  fail {α : Type} (cause : Failure) : R α (fail cause) (fail cause)
  lift {α : Type} (x : Except CoercionError α) : R α (lift x) (lift x)
  buildList (items : List Value) : R Value (buildList items) (buildList items)

namespace Congruence

open Evaluation Visibility.Expr

variable {R : (α : Type) → Step α → Step α → Prop}

theorem mapM (C : Congruence R) {α β : Type} {f g : α → Step β} :
    ∀ as : List α, (∀ a ∈ as, R β (f a) (g a)) → R (List β) (as.mapM f) (as.mapM g)
  | [], _ => by
    simp only [List.mapM_nil]
    exact C.pure []
  | a :: as, related => by
    have ⟨first, others⟩ := List.forall_mem_cons.mp related
    simp only [List.mapM_cons]
    exact C.bind first fun b => C.bind (C.mapM as others) fun bs => C.pure _

theorem readProperty (C : Congruence R) (v : Value) (property : String) :
    R Value (readProperty v property) (readProperty v property) := by
  unfold Evaluation.readProperty
  split
  · split
    · exact C.pure _
    · exact C.fail _
  · exact C.pure _

theorem compareWith (C : Congruence R) (operator : Operator) (a b : Value) :
    R Bool (compareWith operator a b) (compareWith operator a b) := by
  unfold Evaluation.compareWith
  split <;> first | exact C.lift _ | exact C.fail _

theorem negateWith (C : Congruence R) (operator : Operator) (v : Value) :
    R Value (negateWith operator v) (negateWith operator v) := by
  unfold Expr.negateWith
  split
  · exact C.bind (C.lift _) fun _ => C.pure _
  · exact C.fail _

/-- A relation that lookups satisfy and everything else preserves goes over from the parts right
below a node to the node. -/
theorem node (C : Congruence R) {c₁ c₂ : Context}
    (lookUps : ∀ name, R Value (lookUp c₁ name) (lookUp c₂ name)) {d₁ d₂ : Nat} (e : Expr)
    (below : ∀ p ∈ e.children, R Value (evaluateWithin c₁ d₁ p) (evaluateWithin c₂ d₂ p)) :
    R Value (evaluateWithin c₁ (d₁ + 1) e) (evaluateWithin c₂ (d₂ + 1) e) := by
  -- one case for each kind of node, along the steps that its lemma lists
  cases e with
  | literal v => exact C.pure v
  | name key => exact lookUps key
  | member object property =>
    have ofObject := below object (by simp [children])
    simp only [evaluateWithin_member]
    exact C.bind ofObject fun v => C.readProperty v property
  | array elements =>
    simp only [evaluateWithin_array]
    exact C.bind (C.mapM elements below) fun items => C.buildList items
  | call object method arguments =>
    have ofObject := below object (by simp [children])
    simp only [evaluateWithin_call]
    refine C.bind ofObject fun v => ?_
    unfold callOn
    split
    · exact C.fail _
    · split
      · exact C.fail _
      · refine C.bind ?_ fun needle => C.bind (C.lift _) fun found => C.pure _
        cases arguments with
        | nil => exact C.pure _
        | cons argument _ => exact below argument (by simp [children])
  | binary operator left right =>
    have ofLeft := below left (by simp [children])
    have ofRight := below right (by simp [children])
    by_cases isAnd : operator = .and
    · subst isAnd
      simp only [evaluateWithin_and]
      refine C.bind ofLeft fun v => C.bind (C.lift _) fun truth => ?_
      cases truth
      · exact C.pure v
      · exact ofRight
    · by_cases isOr : operator = .or
      · subst isOr
        simp only [evaluateWithin_or]
        refine C.bind ofLeft fun v => C.bind (C.lift _) fun truth => ?_
        cases truth
        · exact ofRight
        · exact C.pure v
      · simp only [evaluateWithin_binary isAnd isOr]
        exact C.bind ofLeft fun a => C.bind ofRight fun b =>
          C.bind (C.compareWith operator a b) fun _ => C.pure _
  | unary operator operand =>
    have ofOperand := below operand (by simp [children])
    simp only [evaluateWithin_unary]
    exact C.bind ofOperand fun v => C.negateWith operator v
  | group inner => exact below inner (by simp [children])
  | unknown kind => exact C.fail _

/-- So it holds between whole evaluations, by induction on the nodes within each other. -/
theorem evaluateWithin (C : Congruence R) {c₁ c₂ : Context}
    (lookUps : ∀ name, R Value (lookUp c₁ name) (lookUp c₂ name)) (depth : Nat) (e : Expr) :
    R Value (evaluateWithin c₁ depth e) (evaluateWithin c₂ depth e) := by
  induction depth generalizing e with
  | zero => exact C.fail _
  | succ depth ih => exact C.node lookUps e fun p _ => ih p

end Congruence

end Step

end Visibility
