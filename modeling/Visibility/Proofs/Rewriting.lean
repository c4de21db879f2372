import Mathlib.Logic.Relation
import Visibility.Proofs.Depth
import Visibility.Proofs.Provenance

/-!
# Expressions that mean the same

`&&` and `||` hand on the operand that decides, as it is, and leave out the operand after it.  The
laws of truth values that people rely on hold all the same, with nothing said about the operands:
the sides of a law look up the same names in the same order, fail for the same cause and return the
same value.  They do so wherever in an expression they stand.

* `Place`, `fillAlong` — what surrounds a part of an expression, and `part_iff_exists_fillAlong`
* `Counterpart` — the laws, and `Counterpart.evaluateFreely` for the runs of their sides
* `Place.fill_congr` — a node does not tell parts with equal runs apart
* `evaluate_rewritten` — the laws apply to every part, and expressions that they turn into each other
  have equal runs, away from the limit on nested nodes
-/

namespace Visibility

/-! ## §1 Steps whose result is known -/

namespace Step

variable {α β : Type}

@[simp] theorem lift_ok (a : α) : lift (.ok a) = pure a := rfl

@[simp] theorem lift_error (cause : CoercionError) :
    (lift (.error cause) : Step α) = fail cause.failure := by
  cases cause <;> rfl

@[simp] theorem fail_bind (cause : Failure) (f : α → Step β) : fail cause >>= f = fail cause := rfl

theorem lift_map (f : α → β) (x : Except CoercionError α) :
    lift (x.map f) = lift x >>= fun a => pure (f a) := by
  cases x with
  | error cause => simp only [Except.map, lift_error, fail_bind]
  | ok a => rfl

end Step

@[simp] theorem Value.isTruthy_bool (b : Bool) : (Value.bool b).isTruthy = .ok b := rfl

namespace Expr

open Evaluation Step

variable {context : Context}

/-! ## §2 Surroundings -/

/-- A place right below a node, and the rest of the node. -/
inductive Place where
  | memberObject (property : String)
  | element (before after : List Expr)
  | callObject (method : String) (arguments : List Expr)
  | argument (object : Expr) (method : String) (before after : List Expr)
  | leftOperand (operator : Operator) (right : Expr)
  | rightOperand (operator : Operator) (left : Expr)
  | soleOperand (operator : Operator)
  | grouped

/-- The node with the expression put in the place. -/
def Place.fill : Place → Expr → Expr
  | .memberObject property, e => .member e property
  | .element before after, e => .array (before ++ e :: after)
  | .callObject method arguments, e => .call e method arguments
  | .argument object method before after, e => .call object method (before ++ e :: after)
  | .leftOperand operator right, e => .binary operator e right
  | .rightOperand operator left, e => .binary operator left e
  | .soleOperand operator, e => .unary operator e
  | .grouped, e => .group e

/-- The expression with everything around it, the nearest place first. -/
def fillAlong : List Place → Expr → Expr
  | [], e => e
  | place :: places, e => fillAlong places (place.fill e)

theorem mem_children_iff_exists_fill {part e : Expr} :
    part ∈ e.children ↔ ∃ place : Place, place.fill part = e := by
  constructor
  · intro mem
    cases e with
    | literal | name | unknown => simp [children] at mem
    | member object property =>
      obtain rfl := List.mem_singleton.mp mem
      exact ⟨.memberObject property, rfl⟩
    | array elements =>
      obtain ⟨before, after, rfl⟩ := List.append_of_mem mem
      exact ⟨.element before after, rfl⟩
    | call object method arguments =>
      rcases List.mem_cons.mp mem with rfl | mem
      · exact ⟨.callObject method arguments, rfl⟩
      · obtain ⟨before, after, rfl⟩ := List.append_of_mem mem
        exact ⟨.argument object method before after, rfl⟩
    | binary operator left right =>
      rcases List.mem_cons.mp mem with rfl | mem
      · exact ⟨.leftOperand operator right, rfl⟩
      · obtain rfl := List.mem_singleton.mp mem
        exact ⟨.rightOperand operator left, rfl⟩
    | unary operator operand =>
      obtain rfl := List.mem_singleton.mp mem
      exact ⟨.soleOperand operator, rfl⟩
    | group inner =>
      obtain rfl := List.mem_singleton.mp mem
      exact ⟨.grouped, rfl⟩
  · rintro ⟨place, rfl⟩
    cases place <;> simp [Place.fill, children]

/-- The parts of an expression are what its surroundings can be put around. -/
theorem part_iff_exists_fillAlong {root e : Expr} :
    Part root e ↔ ∃ places, fillAlong places e = root := by
  constructor
  · intro part
    induction part with
    | root => exact ⟨[], rfl⟩
    | child _ mem ih =>
      obtain ⟨places, same⟩ := ih
      obtain ⟨place, rfl⟩ := mem_children_iff_exists_fill.mp mem
      exact ⟨place :: places, same⟩
  · rintro ⟨places, same⟩
    induction places generalizing e with
    | nil => exact same ▸ .root
    | cons place places ih => exact (ih same).child (mem_children_iff_exists_fill.mpr ⟨place, rfl⟩)

/-! ## §3 Laws -/

/-- The two sides of a law. -/
inductive Counterpart : Expr → Expr → Prop where
  | andAssoc (x y z : Expr) :
      Counterpart (.binary .and (.binary .and x y) z) (.binary .and x (.binary .and y z))
  | orAssoc (x y z : Expr) :
      Counterpart (.binary .or (.binary .or x y) z) (.binary .or x (.binary .or y z))
  | notAnd (x y : Expr) :
      Counterpart (.unary .not (.binary .and x y)) (.binary .or (.unary .not x) (.unary .not y))
  | notOr (x y : Expr) :
      Counterpart (.unary .not (.binary .or x y)) (.binary .and (.unary .not x) (.unary .not y))
  | strictUnequal (x y : Expr) :
      Counterpart (.binary .strictUnequal x y) (.unary .not (.binary .strictEqual x y))
  | looseUnequal (x y : Expr) :
      Counterpart (.binary .looseUnequal x y) (.unary .not (.binary .looseEqual x y))
  | group (inner : Expr) : Counterpart (.group inner) inner
  /-- The membership test has no use for more than one argument. -/
  | arguments (object x : Expr) (more : List Expr) :
      Counterpart (.call object membershipTest (x :: more)) (.call object membershipTest [x])

theorem evaluateFreely_not (x : Expr) :
    evaluateFreely context (.unary .not x) =
      evaluateFreely context x >>= fun v => .lift v.isTruthy >>= fun truth => pure (.bool !truth) :=
  evaluateFreely_unary .not x

/-- The operator that is decided by a left operand of this truth. -/
def junction (decisive : Bool) : Operator :=
  if decisive then .or else .and

theorem evaluateFreely_junction (decisive : Bool) (x y : Expr) :
    evaluateFreely context (.binary (junction decisive) x y) =
      evaluateFreely context x >>= fun v => .lift v.isTruthy >>= fun truth =>
        if truth = decisive then pure v else evaluateFreely context y := by
  cases decisive
  · refine (evaluateFreely_and x y).trans (bind_congr fun v => bind_congr fun truth => ?_)
    cases truth <;> rfl
  · exact evaluateFreely_or x y

theorem evaluateFreely_junction_assoc (decisive : Bool) (x y z : Expr) :
    evaluateFreely context (.binary (junction decisive) (.binary (junction decisive) x y) z) =
      evaluateFreely context (.binary (junction decisive) x (.binary (junction decisive) y z)) := by
  simp only [evaluateFreely_junction, bind_assoc]
  refine bind_congr fun v => ?_
  cases tested : v.isTruthy with
  | error cause => simp only [lift_error, fail_bind]
  | ok truth =>
    simp only [lift_ok, pure_bind]
    by_cases decides : truth = decisive
    · -- The truth of `x` is tested once more, with the same result.
      simp only [decides, if_true, pure_bind, tested, lift_ok]
    · simp only [decides, if_false]

/-- The negation of an operator is the other one of the negations. -/
theorem evaluateFreely_not_junction (decisive : Bool) (x y : Expr) :
    evaluateFreely context (.unary .not (.binary (junction decisive) x y)) =
      evaluateFreely context (.binary (junction !decisive) (.unary .not x) (.unary .not y)) := by
  simp only [evaluateFreely_not, evaluateFreely_junction, bind_assoc]
  refine bind_congr fun v => ?_
  cases tested : v.isTruthy with
  | error cause => simp only [lift_error, fail_bind]
  | ok truth =>
    simp only [lift_ok, pure_bind, Value.isTruthy_bool, Bool.not_inj_iff]
    by_cases decides : truth = decisive
    · simp only [decides, if_true, pure_bind, tested, lift_ok]
    · simp only [decides, if_false]

theorem compareWith_strictUnequal (a b : Value) :
    compareWith .strictUnequal a b = compareWith .strictEqual a b >>= fun result => pure !result :=
  lift_map ..

theorem compareWith_looseUnequal (a b : Value) :
    compareWith .looseUnequal a b = compareWith .looseEqual a b >>= fun result => pure !result :=
  lift_map ..

/-- An operator whose result is the opposite of another one's is the negation of that. -/
theorem evaluateFreely_opposite {operator opposite : Operator}
    (comparison : operator.isComparison) (oppositeComparison : opposite.isComparison)
    (opposed : ∀ a b, compareWith opposite a b =
      compareWith operator a b >>= fun result => pure !result) (x y : Expr) :
    evaluateFreely context (.binary opposite x y) =
      evaluateFreely context (.unary .not (.binary operator x y)) := by
  have notLogical {o : Operator} (h : o.isComparison) : o ≠ .and ∧ o ≠ .or := by
    constructor <;> (rintro rfl; cases h)
  rw [evaluateFreely_not, evaluateFreely_binary (notLogical comparison).1 (notLogical comparison).2,
    evaluateFreely_binary (notLogical oppositeComparison).1 (notLogical oppositeComparison).2]
  simp only [opposed, bind_assoc, pure_bind]
  rfl

theorem evaluateFreely_arguments (object x : Expr) (method : String) (more : List Expr) :
    evaluateFreely context (.call object method (x :: more)) =
      evaluateFreely context (.call object method [x]) := by
  have covers : heights [x] ≤ heights (x :: more) := by simp [heights]
  rw [evaluateFreely_call object method (Nat.le_refl (heights (x :: more))),
    evaluateFreely_call object method covers]
  rfl

/-- The sides of a law have the same run. -/
theorem Counterpart.evaluateFreely_eq {a b : Expr} (h : Counterpart a b) :
    evaluateFreely context a = evaluateFreely context b := by
  cases h with
  | andAssoc x y z => exact evaluateFreely_junction_assoc false x y z
  | orAssoc x y z => exact evaluateFreely_junction_assoc true x y z
  | notAnd x y => exact evaluateFreely_not_junction false x y
  | notOr x y => exact evaluateFreely_not_junction true x y
  | strictUnequal x y => exact evaluateFreely_opposite rfl rfl compareWith_strictUnequal x y
  | looseUnequal x y => exact evaluateFreely_opposite rfl rfl compareWith_looseUnequal x y
  | group inner => exact evaluateFreely_group b
  | arguments object x more => exact evaluateFreely_arguments object x membershipTest more

/-! ## §4 Replacement -/

theorem evaluateFreely_binary_congr {x x' y y' : Expr}
    (sameLeft : evaluateFreely context x = evaluateFreely context x')
    (sameRight : evaluateFreely context y = evaluateFreely context y') (operator : Operator) :
    evaluateFreely context (.binary operator x y) =
      evaluateFreely context (.binary operator x' y') := by
  by_cases isAnd : operator = .and
  · subst isAnd
    simp only [evaluateFreely_and, sameLeft, sameRight]
  · by_cases isOr : operator = .or
    · subst isOr
      simp only [evaluateFreely_or, sameLeft, sameRight]
    · simp only [evaluateFreely_binary isAnd isOr, sameLeft, sameRight]

/-- Arguments with equal runs can stand for each other in any place. -/
theorem evaluateFreely_argument_congr {a b : Expr}
    (same : evaluateFreely context a = evaluateFreely context b) (object : Expr) (method : String)
    (before after : List Expr) :
    evaluateFreely context (.call object method (before ++ a :: after)) =
      evaluateFreely context (.call object method (before ++ b :: after)) := by
  let depth := max (heights (before ++ a :: after)) (heights (before ++ b :: after))
  have coversA : heights (before ++ a :: after) ≤ depth := Nat.le_max_left ..
  have coversB : heights (before ++ b :: after) ≤ depth := Nat.le_max_right ..
  -- It makes a difference only if nothing stands before it.
  have first : firstArgument context depth (before ++ a :: after) =
      firstArgument context depth (before ++ b :: after) := by
    cases before with
    | nil =>
      rw [heights_le_iff] at coversA coversB
      calc evaluateWithin context depth a
          = evaluateFreely context a := evaluateWithin_eq_evaluateFreely (coversA a (by simp))
        _ = evaluateFreely context b := same
        _ = evaluateWithin context depth b :=
          (evaluateWithin_eq_evaluateFreely (coversB b (by simp))).symm
    | cons e before => rfl
  rw [evaluateFreely_call object method coversA, evaluateFreely_call object method coversB,
    callOn_congr first]

/-- A node does not tell parts with equal runs apart. -/
theorem Place.fill_congr {a b : Expr} (same : evaluateFreely context a = evaluateFreely context b)
    (place : Place) : evaluateFreely context (place.fill a) = evaluateFreely context (place.fill b) := by
  cases place with
  | memberObject property => simp only [fill, evaluateFreely_member, same]
  | element before after =>
    simp only [fill, evaluateFreely_array, List.mapM_append, List.mapM_cons, same]
  | callObject method arguments =>
    have covers := Nat.le_refl (heights arguments)
    simp only [fill, evaluateFreely_call _ method covers, same]
  | argument object method before after =>
    exact evaluateFreely_argument_congr same object method before after
  | leftOperand operator right => exact evaluateFreely_binary_congr same rfl operator
  | rightOperand operator left => exact evaluateFreely_binary_congr rfl same operator
  | soleOperand operator => simp only [fill, evaluateFreely_unary, same]
  | grouped => simp only [fill, evaluateFreely_group, same]

theorem fillAlong_congr {a b : Expr} (same : evaluateFreely context a = evaluateFreely context b)
    (places : List Place) :
    evaluateFreely context (fillAlong places a) = evaluateFreely context (fillAlong places b) := by
  induction places generalizing a b with
  | nil => exact same
  | cons place places ih => exact ih (place.fill_congr same)

/-- One part of an expression is replaced by its counterpart. -/
inductive Replaced : Expr → Expr → Prop where
  | along (places : List Place) {a b : Expr} :
      Counterpart a b → Replaced (fillAlong places a) (fillAlong places b)

/-- Replacements, in either direction, turn the expressions into each other. -/
def Rewritten : Expr → Expr → Prop := Relation.EqvGen Replaced

theorem Rewritten.evaluateFreely_eq {e e' : Expr} (h : Rewritten e e') :
    evaluateFreely context e = evaluateFreely context e' := by
  induction h with
  | rel _ _ replaced =>
    obtain ⟨places, counterpart⟩ := replaced
    exact fillAlong_congr counterpart.evaluateFreely_eq places
  | refl e => rfl
  | symm _ _ _ ih => exact ih.symm
  | trans _ _ _ _ _ ih₁ ih₂ => exact ih₁.trans ih₂

/-- **The laws hold anywhere in an expression.**  Each part that is a side of a law can be replaced by
the other side.  Expressions that such replacements turn into each other have the same run, so the
same value or failure and the same lookups, at every depth that covers both, and at the limited one
whenever neither run ends at the limit. -/
theorem evaluate_rewritten (e : Expr) (context : Context) :
    (∀ a b, Part e a → Counterpart a b →
      ∃ places, fillAlong places a = e ∧ Rewritten e (fillAlong places b)) ∧
    ∀ e', Rewritten e e' →
      (∀ depth, e.height ≤ depth → e'.height ≤ depth →
        e.evaluateWithin context depth = e'.evaluateWithin context depth) ∧
      ((e.evaluate context).1 ≠ .error tooDeep → (e'.evaluate context).1 ≠ .error tooDeep →
        e.evaluate context = e'.evaluate context) := by
  refine ⟨fun a b part counterpart => ?_, fun e' rewritten => ?_⟩
  · obtain ⟨places, rfl⟩ := part_iff_exists_fillAlong.mp part
    exact ⟨places, rfl, .rel _ _ (.along places counterpart)⟩
  · have same : evaluateFreely context e = evaluateFreely context e' := rewritten.evaluateFreely_eq
    constructor
    · intro depth covers covers'
      rw [evaluateWithin_eq_evaluateFreely covers, evaluateWithin_eq_evaluateFreely covers', same]
    · intro notDeep notDeep'
      rw [evaluate_eq_evaluateFreely notDeep, evaluate_eq_evaluateFreely notDeep', same]

/-- `!(user && (tags.includes("new", more)))` means `!user || !tags.includes("new")`. -/
theorem evaluate_rewritten_includes :
    let e := Expr.unary .not (.binary .and (.name "user") (.group
      (.call (.name "tags") membershipTest [.literal (.string "new"), .name "more"])))
    let e' := Expr.binary .or (.unary .not (.name "user")) (.unary .not
      (.call (.name "tags") membershipTest [.literal (.string "new")]))
    let context := Context.holding (.map (.given 0)
      [(.string "user", .int 1), (.string "tags", .list (.given 1) [.string "new"])])
    Rewritten e e' ∧ e.evaluate context = e'.evaluate context ∧
      (e'.evaluate context).1 = .ok (.bool false) := by
  intro e e' context
  let places : List Place := [.soleOperand .not, .rightOperand .or (.unary .not (.name "user"))]
  have rewritten : Rewritten e e' := by
    -- The negation is moved in, the parentheses are dropped, and the further argument is dropped.
    refine .trans _ _ _ (.rel _ _ (.along [] (.notAnd ..))) ?_
    refine .trans _ _ _ (.rel _ _ (.along places (.group _))) ?_
    exact .rel _ _ (.along places (.arguments ..))
  have value : (e.evaluate context).1 = .ok (.bool false) := by
    dsimp only [e]
    cbv
  have value' : (e'.evaluate context).1 = .ok (.bool false) := by
    dsimp only [e']
    cbv
  refine ⟨rewritten, ((evaluate_rewritten e context).2 e' rewritten).2 ?_ ?_, value'⟩
  · simp [value]
  · simp [value']

end Expr

end Visibility
