import Visibility.Proofs.Evaluation

/-!
# Evaluation away from the limit on nested nodes

The number of nodes within each other is limited, so the value of an expression depends on the depth
that is granted.  It does so only at the limit.  Once the depth covers the height of the expression
nothing depends on it any more, and a run that does not end at the limit ends in the same way under
every greater depth.

* `height` — how many nodes of an expression stand within each other
* `evaluateWithin_eq_of_height_le` — all depths that cover the height give the same run
* `evaluateFreely` — that run, with one equation for each kind of node
* `Outlasts` — the relation between a run and one that may go deeper
* `evaluate_eq_evaluateFreely` — a run that does not end at the limit is the one without a limit
-/

namespace Visibility

namespace Expr

open Evaluation Step

variable {context : Context} {depth : Nat}

/-! ## §1 Heights -/

mutual

/-- How many nodes of the expression stand within each other. -/
def height : Expr → Nat
  | .literal _ | .name _ | .unknown _ => 1
  | .member object _ => object.height + 1
  | .array elements => heights elements + 1
  | .call object _ arguments => max object.height (heights arguments) + 1
  | .binary _ left right => max left.height right.height + 1
  | .unary _ operand => operand.height + 1
  | .group inner => inner.height + 1

/-- The height of the highest of the expressions. -/
def heights : List Expr → Nat
  | [] => 0
  | e :: es => max e.height (heights es)

end

theorem height_pos (e : Expr) : 0 < e.height := by
  cases e <;> simp [height]

theorem heights_le_iff {es : List Expr} : heights es ≤ depth ↔ ∀ e ∈ es, e.height ≤ depth := by
  induction es with
  | nil => simp [heights]
  | cons e es ih => rw [heights, Nat.max_le, ih, List.forall_mem_cons]

/-- A depth covers the height of a node if one less covers the parts right below it. -/
theorem height_le_succ_iff {e : Expr} :
    e.height ≤ depth + 1 ↔ ∀ p ∈ e.children, p.height ≤ depth := by
  cases e with
  | literal | name | unknown | member | unary | group => simp [height, children]
  | array elements => simp only [height, children, Nat.add_le_add_iff_right, heights_le_iff]
  | call object method arguments =>
    simp only [height, children, Nat.add_le_add_iff_right, Nat.max_le, heights_le_iff,
      List.forall_mem_cons]
  | binary operator left right =>
    simp only [height, children, Nat.add_le_add_iff_right, Nat.max_le, List.forall_mem_cons,
      List.not_mem_nil, false_implies, implies_true, and_true]

/-! ## §2 Depths that cover the height -/

/-- Equality is one of the relations that all operations on steps preserve. -/
theorem eq_congruence : Congruence fun _ x y => x = y where
  pure _ := rfl
  bind same sameOn := by rw [same, funext sameOn]
  fail _ := rfl
  lift _ := rfl
  buildList _ := rfl

/-- Depths that cover the height of an expression give the same run. -/
theorem evaluateWithin_eq_of_height_le {d₁ d₂ : Nat} {e : Expr} (le₁ : e.height ≤ d₁)
    (le₂ : e.height ≤ d₂) : evaluateWithin context d₁ e = evaluateWithin context d₂ e := by
  induction d₁ generalizing d₂ e with
  | zero => exact absurd (height_pos e) (by omega)
  | succ d₁ ih =>
    -- No height is zero, so the other depth is a successor, too.
    cases d₂ with
    | zero => exact absurd (height_pos e) (by omega)
    | succ d₂ =>
      refine eq_congruence.node (fun _ => rfl) e fun p mem => ?_
      exact ih (height_le_succ_iff.mp le₁ p mem) (height_le_succ_iff.mp le₂ p mem)

/-- The value of an expression without a limit on its nodes. -/
def evaluateFreely (context : Context) (e : Expr) : Step Value :=
  evaluateWithin context e.height e

theorem evaluateWithin_eq_evaluateFreely {e : Expr} (le : e.height ≤ depth) :
    evaluateWithin context depth e = evaluateFreely context e :=
  evaluateWithin_eq_of_height_le le (Nat.le_refl _)

/-! ## §3 The steps of each kind of node -/

/-- A node is evaluated one deeper than any depth that covers the parts right below it. -/
theorem evaluateFreely_succ {e : Expr} (covers : ∀ p ∈ e.children, p.height ≤ depth) :
    evaluateFreely context e = evaluateWithin context (depth + 1) e :=
  (evaluateWithin_eq_evaluateFreely (height_le_succ_iff.mpr covers)).symm

theorem evaluateFreely_member (object : Expr) (property : String) :
    evaluateFreely context (.member object property) =
      evaluateFreely context object >>= fun v => readProperty v property := by
  have covers : ∀ p ∈ (member object property).children, p.height ≤ object.height := by
    simp [children]
  rw [evaluateFreely_succ covers, evaluateWithin_member]
  rfl

theorem evaluateFreely_array (elements : List Expr) :
    evaluateFreely context (.array elements) =
      elements.mapM (evaluateFreely context) >>= .buildList := by
  have covers : ∀ e ∈ (array elements).children, e.height ≤ heights elements :=
    heights_le_iff.mp (Nat.le_refl _)
  have each : ∀ e ∈ elements, evaluateWithin context (heights elements) e = evaluateFreely context e :=
    fun e mem => evaluateWithin_eq_evaluateFreely (covers e mem)
  rw [evaluateFreely_succ covers, evaluateWithin_array, eq_congruence.mapM elements each]

theorem firstArgument_eq_of_heights_le {d₁ d₂ : Nat} {arguments : List Expr}
    (le₁ : heights arguments ≤ d₁) (le₂ : heights arguments ≤ d₂) :
    firstArgument context d₁ arguments = firstArgument context d₂ arguments := by
  cases arguments with
  | nil => rfl
  | cons argument _ =>
    rw [heights_le_iff, List.forall_mem_cons] at le₁ le₂
    exact evaluateWithin_eq_of_height_le le₁.1 le₂.1

/-- Of the arguments a call depends only on the value of the first. -/
theorem callOn_congr {d₁ d₂ : Nat} {as₁ as₂ : List Expr}
    (same : firstArgument context d₁ as₁ = firstArgument context d₂ as₂) (method : String) :
    callOn context d₁ method as₁ = callOn context d₂ method as₂ := by
  funext v
  unfold callOn
  rw [same]

theorem evaluateFreely_call (object : Expr) (method : String) {arguments : List Expr}
    (le : heights arguments ≤ depth) :
    evaluateFreely context (.call object method arguments) =
      evaluateFreely context object >>= callOn context depth method arguments := by
  let deep := max object.height (heights arguments)
  have ofObject : object.height ≤ deep := Nat.le_max_left ..
  have ofArguments : heights arguments ≤ deep := Nat.le_max_right ..
  have covers : ∀ p ∈ (call object method arguments).children, p.height ≤ deep :=
    List.forall_mem_cons.mpr ⟨ofObject, heights_le_iff.mp ofArguments⟩
  rw [evaluateFreely_succ covers, evaluateWithin_call,
    callOn_congr (firstArgument_eq_of_heights_le ofArguments le),
    evaluateWithin_eq_evaluateFreely ofObject]

/-- The operands of an operator are covered by the greater of their heights. -/
theorem evaluateFreely_binary_succ (operator : Operator) (left right : Expr) :
    evaluateFreely context (.binary operator left right) =
      evaluateWithin context (max left.height right.height + 1) (.binary operator left right) := by
  refine evaluateFreely_succ (List.forall_mem_cons.mpr ⟨Nat.le_max_left .., ?_⟩)
  exact List.forall_mem_singleton.mpr (Nat.le_max_right ..)

theorem evaluateFreely_and (left right : Expr) :
    evaluateFreely context (.binary .and left right) =
      evaluateFreely context left >>= fun v => .lift v.isTruthy >>= fun truth =>
        if truth then evaluateFreely context right else pure v := by
  rw [evaluateFreely_binary_succ, evaluateWithin_and,
    evaluateWithin_eq_evaluateFreely (Nat.le_max_left ..),
    evaluateWithin_eq_evaluateFreely (Nat.le_max_right ..)]

theorem evaluateFreely_or (left right : Expr) :
    evaluateFreely context (.binary .or left right) =
      evaluateFreely context left >>= fun v => .lift v.isTruthy >>= fun truth =>
        if truth then pure v else evaluateFreely context right := by
  rw [evaluateFreely_binary_succ, evaluateWithin_or,
    evaluateWithin_eq_evaluateFreely (Nat.le_max_left ..),
    evaluateWithin_eq_evaluateFreely (Nat.le_max_right ..)]

theorem evaluateFreely_binary {operator : Operator} (notAnd : operator ≠ .and)
    (notOr : operator ≠ .or) (left right : Expr) :
    evaluateFreely context (.binary operator left right) =
      evaluateFreely context left >>= fun a => evaluateFreely context right >>= fun b =>
        compareWith operator a b >>= fun result => pure (.bool result) := by
  rw [evaluateFreely_binary_succ, evaluateWithin_binary notAnd notOr,
    evaluateWithin_eq_evaluateFreely (Nat.le_max_left ..),
    evaluateWithin_eq_evaluateFreely (Nat.le_max_right ..)]

theorem evaluateFreely_unary (operator : Operator) (operand : Expr) :
    evaluateFreely context (.unary operator operand) =
      evaluateFreely context operand >>= negateWith operator := by
  have covers : ∀ p ∈ (unary operator operand).children, p.height ≤ operand.height := by
    simp [children]
  rw [evaluateFreely_succ covers, evaluateWithin_unary]
  rfl

theorem evaluateFreely_group (inner : Expr) :
    evaluateFreely context (.group inner) = evaluateFreely context inner := by
  have covers : ∀ p ∈ (group inner).children, p.height ≤ inner.height := by
    simp [children]
  rw [evaluateFreely_succ covers, evaluateWithin_group]
  rfl

/-! ## §4 Runs that do not end at the limit -/

/-- The failure of an expression whose nodes are nested too deeply. -/
abbrev tooDeep : Failure := .malformed .nestedTooDeeply

/-- The second step does what the first one does, wherever that does not end at the limit. -/
def Outlasts (α : Type) (x y : Step α) : Prop :=
  ∀ t, (x t).1 ≠ .error tooDeep → y t = x t

theorem Outlasts.refl {α : Type} (x : Step α) : Outlasts α x x :=
  fun _ _ => rfl

theorem Outlasts.bind {α β : Type} {x y : Step α} {f g : α → Step β} (first : Outlasts α x y)
    (rest : ∀ a, Outlasts β (f a) (g a)) : Outlasts β (x >>= f) (y >>= g) := by
  intro t
  show (andThen x f t).1 ≠ _ → andThen y g t = andThen x f t
  have follows := first t
  unfold andThen
  rcases ends : x t with ⟨cause | a, u⟩
  · -- The failure of the first step is that of both.
    rw [ends] at follows
    intro notDeep
    rw [follows (by simpa using notDeep)]
  · rw [ends] at follows
    intro notDeep
    rw [follows (by simp)]
    exact rest a u notDeep

theorem outlasts_congruence : Congruence Outlasts where
  pure _ := .refl _
  bind := .bind
  fail _ := .refl _
  lift _ := .refl _
  buildList _ := .refl _

/-- More depth changes no run but those that end at the limit. -/
theorem evaluateWithin_outlasts {d₁ d₂ : Nat} (le : d₁ ≤ d₂) (e : Expr) :
    Outlasts Value (evaluateWithin context d₁ e) (evaluateWithin context d₂ e) := by
  induction d₁ generalizing d₂ e with
  | zero => exact fun _ notDeep => absurd rfl notDeep
  | succ d₁ ih =>
    obtain ⟨d₂, rfl⟩ : ∃ d, d₂ = d + 1 := ⟨d₂ - 1, by omega⟩
    exact outlasts_congruence.node (fun _ => .refl _) e fun p _ => ih (by omega) p

theorem evaluate_eq_evaluateFreely {e : Expr}
    (notDeep : (e.evaluate context).1 ≠ .error tooDeep) :
    e.evaluate context = evaluateFreely context e .empty := by
  have covers : e.height ≤ max evaluationDepth e.height := Nat.le_max_right ..
  rw [← evaluateWithin_eq_evaluateFreely covers]
  exact (evaluateWithin_outlasts (Nat.le_max_left ..) e .empty notDeep).symm

end Expr

end Visibility
