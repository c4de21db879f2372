import Visibility.Proofs.ArrayText
import Visibility.Proofs.Display
import Visibility.Proofs.LooseEquality
import Visibility.Proofs.Provenance

/-!
# The numbers of built lists

The lists that an evaluation builds are numbered, so the identity of a list tells how many lists were
built before it.  It tells nothing else: no conversion and no comparison looks at an identity but to
ask whether two objects are one, and so an evaluation that starts later does the same with greater
numbers.

* `Value.later` — a value with greater numbers, and what conversions and comparisons make of it
* `Value.BuiltBefore` — a bound on the numbers in a value
* `Step.Postponed` — the relation between a step and the same step taken later, with one rule for
  every operation on steps
* `evaluateWithin_postponed` — each kind of node keeps it, by induction on the nodes within each other
-/

namespace Visibility

/-! ## §1 Greater numbers -/

/-- The identity of an object if `k` more lists were built before. -/
def Identity.later (k : Nat) : Identity → Identity
  | .built n => .built (n + k)
  | id => id

theorem Identity.later_inj {k : Nat} {i j : Identity} : i.later k = j.later k ↔ i = j := by
  cases i <;> cases j <;> simp [later]

namespace Value

mutual

/-- The value if `k` more lists were built before. -/
def later (k : Nat) (v : Value) : Value :=
  match v with
  | .list id items => .list (id.later k) (laterItems k items)
  | .tuple id items => .tuple (id.later k) (laterItems k items)
  | .map id entries => .map (id.later k) (laterEntries k entries)
  | .foreign id thing => .foreign (id.later k) thing
  | v => v
termination_by structural v

/-- The same for each item of an array. -/
def laterItems (k : Nat) (items : List Value) : List Value :=
  match items with
  | [] => []
  | v :: vs => v.later k :: laterItems k vs
termination_by structural items

/-- The same for the value of each entry of a mapping. -/
def laterEntries (k : Nat) (entries : List (Value × Value)) : List (Value × Value) :=
  match entries with
  | [] => []
  | (key, v) :: es => (key, v.later k) :: laterEntries k es
termination_by structural entries

end

variable {k : Nat} {v a b : Value}

theorem laterItems_eq_map (items : List Value) : laterItems k items = items.map (later k) := by
  induction items with
  | nil => rfl
  | cons v vs ih => rw [laterItems, ih, List.map_cons]

theorem laterEntries_eq_map (entries : List (Value × Value)) :
    laterEntries k entries = entries.map fun entry => (entry.1, entry.2.later k) := by
  induction entries with
  | nil => rfl
  | cons entry es ih => rw [laterEntries, ih, List.map_cons]

@[simp] theorem kind_later (v : Value) : (v.later k).kind = v.kind := by
  cases v <;> rfl

@[simp] theorem identity?_later (v : Value) : (v.later k).identity? = v.identity?.map (.later k) := by
  cases v <;> rfl

@[simp] theorem isAbsent_later (v : Value) : (v.later k).isAbsent = v.isAbsent := by
  cases v <;> rfl

@[simp] theorem isTruthy_later (v : Value) : (v.later k).isTruthy = v.isTruthy := by
  cases v <;> rfl

@[simp] theorem elements?_later (v : Value) :
    (v.later k).elements? = v.elements?.map (·.map (later k)) := by
  cases v <;> simp [later, elements?, laterItems_eq_map]

/-- Only objects have a number. -/
theorem later_of_kind_ne (plain : v.kind ≠ .object) : v.later k = v := by
  cases v <;> first | rfl | exact absurd rfl plain

theorem find?_laterEntries (name : String) (entries : List (Value × Value)) :
    find? name (laterEntries k entries) = (find? name entries).map (later k) := by
  simp [find?, laterEntries_eq_map, List.find?_map, Function.comp_def]

theorem property?_later (name : String) (v : Value) :
    (v.later k).property? name = (v.property? name).map (later k) := by
  cases v with
  | map id entries => exact find?_laterEntries name entries
  | list id items | tuple id items =>
    simp only [later, property?, laterItems_eq_map, List.length_map]
    split <;> rfl
  | _ => rfl

/-! ## §2 Conversions and comparisons -/

theorem textWithin_later (depth : Nat) (v : Value) :
    (v.later k).textWithin depth = v.textWithin depth := by
  induction depth generalizing v with
  | zero => cases v <;> rfl
  | succ depth ih =>
    have each (items : List Value) :
        (items.map (later k)).mapM (itemText depth) = items.mapM (itemText depth) := by
      have same : itemText depth ∘ later k = itemText depth := by
        funext item
        simp only [Function.comp_apply, itemText, isAbsent_later, ih]
      rw [List.mapM_map, same]
    cases elements : v.elements? with
    | some items =>
      have elements' : (v.later k).elements? = some (items.map (later k)) := by
        rw [elements?_later, elements, Option.map_some]
      rw [textWithin_of_elements elements', textWithin_of_elements elements, each]
    | none =>
      cases v with
      | list | tuple => cases elements
      | _ => rfl

theorem text_later (v : Value) : (v.later k).text = v.text :=
  textWithin_later textDepth v

/-- What is primitive has no number. -/
theorem toPrimitive_later (v : Value) : (v.later k).toPrimitive = v.toPrimitive := by
  by_cases object : v.kind = .object
  · simp only [toPrimitive, kind_later, text_later, object, if_true]
  · rw [later_of_kind_ne object]

theorem relate_later (operator : Operator) (a b : Value) :
    (a.later k).relate operator (b.later k) = a.relate operator b := by
  simp only [relate, toPrimitive_later]

/-- Objects stay one, or different ones. -/
theorem strictEquals_later (a b : Value) :
    (a.later k).strictEquals (b.later k) = a.strictEquals b := by
  by_cases object : a.kind = .object ∨ b.kind = .object
  · rw [strictEquals_of_object object, strictEquals_of_object (by simpa using object)]
    have injective : Function.Injective (Option.map (Identity.later k)) :=
      Option.map_injective fun _ _ => Identity.later_inj.mp
    simp only [identity?_later, beq_eq_decide, injective.eq_iff]
  · obtain ⟨plain, plain'⟩ := not_or.mp object
    rw [later_of_kind_ne plain, later_of_kind_ne plain']

theorem looseEquals_later (a b : Value) :
    (a.later k).looseEquals (b.later k) = a.looseEquals b := by
  by_cases same : a.kind = b.kind
  · rw [looseEquals_of_kind same, looseEquals_of_kind (by simpa using same), strictEquals_later]
  · by_cases absent : (a.isAbsent || b.isAbsent) = true
    · rw [looseEquals_of_absent same absent, looseEquals_of_absent (by simpa using same) (by simpa using absent)]
      simp only [isAbsent_later]
    · have notBoth : ¬(a.kind = .object ∧ b.kind = .object) :=
        fun both => same (both.1.trans both.2.symm)
      obtain ⟨presentA, presentB⟩ := Bool.or_eq_false_iff.mp (Bool.not_eq_true _ ▸ absent)
      rw [looseEquals_eq_coercedOrder presentA presentB notBoth,
        looseEquals_eq_coercedOrder (by simpa) (by simpa) (by simpa using notBoth)]
      simp only [coercedOrder, toPrimitive_later]

open Evaluation in
theorem containsStrictly_later (needle : Value) (items : List Value) :
    containsStrictly (needle.later k) (items.map (later k)) = containsStrictly needle items := by
  induction items with
  | nil => rfl
  | cons item items ih => simp only [List.map_cons, containsStrictly, strictEquals_later, ih]

/-! ## §3 Values without lists to come -/

/-- If the value is a list that an evaluation built, it is one of the first `n`. -/
def NumberedBelow (n : Nat) (v : Value) : Prop :=
  ∀ m, v.identity? = some (.built m) → m < n

/-- Every list within the value that an evaluation built is one of the first `n`. -/
def BuiltBefore (n : Nat) (v : Value) : Prop :=
  ∀ depth w, Lies w depth v → w.NumberedBelow n

theorem BuiltBefore.mono {m n : Nat} (le : m ≤ n) (before : v.BuiltBefore m) : v.BuiltBefore n :=
  fun depth w lies number same => Nat.lt_of_lt_of_le (before depth w lies number same) le

theorem builtBefore_of_no_identity (none : v.identity? = none) (n : Nat) : v.BuiltBefore n := by
  have own : v.NumberedBelow n := fun m same => nomatch none.symm.trans same
  cases v with
  | list | tuple | map | foreign => cases none
  | _ => exact fun _ _ => Lies.of_no_parts rfl rfl own

theorem BuiltBefore.element {n : Nat} {items : List Value} {item : Value} (before : v.BuiltBefore n)
    (elements : v.elements? = some items) (mem : item ∈ items) : item.BuiltBefore n :=
  fun _ w lies => before _ w (.item elements mem lies)

theorem BuiltBefore.entry {n : Nat} {id : Identity} {entries : List (Value × Value)} {key : Value}
    (before : (map id entries).BuiltBefore n) (mem : (key, v) ∈ entries) : v.BuiltBefore n :=
  fun _ w lies => before _ w (.entry mem lies)

theorem builtBefore_list {n : Nat} {id : Identity} {items : List Value}
    (number : ∀ m, id = .built m → m < n) (each : ∀ item ∈ items, item.BuiltBefore n) :
    (list id items).BuiltBefore n := by
  have own : (list id items).NumberedBelow n := fun m same => number m (Option.some.inj same)
  exact fun _ _ => Lies.of_list own each

theorem builtBefore_map {n : Nat} {id : Identity} {entries : List (Value × Value)}
    (number : ∀ m, id = .built m → m < n) (each : ∀ key v, (key, v) ∈ entries → v.BuiltBefore n) :
    (map id entries).BuiltBefore n := by
  have own : (map id entries).NumberedBelow n := fun m same => number m (Option.some.inj same)
  exact fun _ _ => Lies.of_map own each

theorem BuiltBefore.later_identity {id : Identity} (given : v.BuiltBefore 0)
    (same : v.identity? = some id) : id.later k = id := by
  cases id with
  | built n => exact absurd (given _ _ .here n same) (Nat.not_lt_zero n)
  | given | assembled => rfl

mutual

/-- A value without built lists has no number that could be greater. -/
theorem later_of_builtBefore (v : Value) (given : v.BuiltBefore 0) : v.later k = v :=
  match v with
  | .list id items => by
    rw [later, given.later_identity rfl, laterItems_of_builtBefore items fun _ => given.element rfl]
  | .tuple id items => by
    rw [later, given.later_identity rfl, laterItems_of_builtBefore items fun _ => given.element rfl]
  | .map id entries => by
    rw [later, given.later_identity rfl, laterEntries_of_builtBefore entries fun _ _ => given.entry]
  | .foreign id thing => by rw [later, given.later_identity rfl]
  | .undefined | .null | .bool _ | .number _ | .string _ => rfl
termination_by structural v

theorem laterItems_of_builtBefore (items : List Value)
    (given : ∀ item ∈ items, item.BuiltBefore 0) : laterItems k items = items :=
  match items with
  | [] => rfl
  | v :: vs => by
    obtain ⟨first, others⟩ := List.forall_mem_cons.mp given
    rw [laterItems, later_of_builtBefore v first, laterItems_of_builtBefore vs others]
termination_by structural items

theorem laterEntries_of_builtBefore (entries : List (Value × Value))
    (given : ∀ key v, (key, v) ∈ entries → v.BuiltBefore 0) : laterEntries k entries = entries :=
  match entries with
  | [] => rfl
  | (key, v) :: es => by
    have first := given key v (List.mem_cons_self ..)
    have others := fun key v mem => given key v (List.mem_cons_of_mem _ mem)
    rw [laterEntries, later_of_builtBefore v first, laterEntries_of_builtBefore es others]
termination_by structural entries

end

end Value

/-! ## §4 Steps that are taken later -/

/-- The trace of something together with that of what came before it. -/
def Trace.after (t before : Trace) : Trace :=
  ⟨t.lookups ++ before.lookups, t.built + before.built⟩

theorem Trace.empty_after (before : Trace) : Trace.empty.after before = before := by
  simp [after, empty]

namespace Step

open Evaluation

variable {α β γ δ : Type} {before : Trace} {r : α → β} {s : γ → δ}

/-- After what came before, the second step does what the first one does without it.  Its result is
that of the first step, changed by `r`. -/
def Postponed (before : Trace) (r : α → β) (x : Step α) (y : Step β) : Prop :=
  ∀ t, y (t.after before) = ((x t).1.map r, (x t).2.after before)

namespace Postponed

theorem returns {x : Step α} {y : Step β} {t u : Trace} {a : α} (h : Postponed before r x y)
    (run : Returns x t a u) : Returns y (t.after before) (r a) (u.after before) := by
  rw [Returns, h t, run]
  rfl

theorem pure (a : α) : Postponed before r (pure a) (pure (r a)) :=
  fun _ => rfl

theorem fail (cause : Failure) : Postponed before r (fail cause) (fail cause) :=
  fun _ => rfl

theorem lift (x : Except CoercionError α) : Postponed before id (lift x) (lift x) := by
  intro t
  unfold Step.lift
  split <;> rfl

theorem bind {x : Step α} {y : Step β} {f : α → Step γ} {g : β → Step δ}
    (first : Postponed before r x y) (rest : ∀ a, Postponed before s (f a) (g (r a))) :
    Postponed before s (x >>= f) (y >>= g) := by
  intro t
  show andThen y g (t.after before) = ((andThen x f t).1.map s, (andThen x f t).2.after before)
  simp only [andThen, first t]
  rcases x t with ⟨cause | a, u⟩
  · rfl
  · exact rest a u

theorem mapM {f : γ → Step α} {g : γ → Step β} {as : List γ}
    (each : ∀ a ∈ as, Postponed before r (f a) (g a)) :
    Postponed before (List.map r) (as.mapM f) (as.mapM g) := by
  induction as with
  | nil =>
    simp only [List.mapM_nil]
    exact .pure []
  | cons a as ih =>
    obtain ⟨first, others⟩ := List.forall_mem_cons.mp each
    simp only [List.mapM_cons]
    exact first.bind fun b => (ih others).bind fun bs => .pure (b :: bs)

/-- An entry of the context is the same at any time, if nothing in it has to be renumbered. -/
theorem lookUp {context : Context} {name : String} {r : Value → Value}
    (fixed : ∀ v, context.find? name = .ok (some v) → r v = v) :
    Postponed before r (lookUp context name) (lookUp context name) := by
  intro t
  unfold Step.lookUp
  split
  · rename_i v found
    simp only [Except.map, fixed v found]
    rfl
  · rfl
  · rfl

theorem buildList (items : List Value) :
    Postponed before (Value.later before.built) (buildList items)
      (buildList (items.map (Value.later before.built))) := by
  intro t
  simp only [Step.buildList, Except.map, Value.later, Value.laterItems_eq_map, Identity.later,
    Trace.after, Nat.add_right_comm]

theorem readProperty (v : Value) (property : String) :
    Postponed before (Value.later before.built) (readProperty v property)
      (readProperty (v.later before.built) property) := by
  unfold Evaluation.readProperty
  rw [Value.kind_later, Value.property?_later]
  split
  · cases v.property? property with
    | none => exact .fail _
    | some w => exact .pure w
  · exact .pure Value.undefined

theorem compareWith (operator : Operator) (a b : Value) :
    Postponed before id (compareWith operator a b)
      (compareWith operator (a.later before.built) (b.later before.built)) := by
  simp only [Evaluation.compareWith, Value.strictEquals_later, Value.looseEquals_later,
    Value.relate_later]
  split <;> first | exact .lift _ | exact .fail _

theorem negateWith (operator : Operator) (v : Value) :
    Postponed before (Value.later before.built) (Expr.negateWith operator v)
      (Expr.negateWith operator (v.later before.built)) := by
  simp only [Expr.negateWith, Value.isTruthy_later]
  split
  · exact (Postponed.lift _).bind fun truth => .pure (Value.bool !truth)
  · exact .fail _

end Postponed

end Step

/-! ## §5 Evaluations that start later -/

namespace Expr

open Evaluation Step

variable {root : Expr} {context : Context} {before : Trace} {depth : Nat}

/-- What the literals of the expression and the context hold was there before the evaluation, so none
of it is a list that the evaluation builds. -/
structure GivenOnly (root : Expr) (context : Context) : Prop where
  literal {v : Value} : Part root (.literal v) → v.BuiltBefore 0
  name {key : String} {v : Value} : context.find? key = .ok (some v) → v.BuiltBefore 0

/-- So every built list that an evaluation comes to is one of those that it has built so far. -/
theorem GivenOnly.closedAlong (given : GivenOnly root context) :
    ClosedAlong root context fun n v => v.BuiltBefore n where
  grows le before := before.mono le
  literal part := (given.literal part).mono (Nat.zero_le _)
  bool n b := Value.builtBefore_of_no_identity rfl n
  undefined n := Value.builtBefore_of_no_identity rfl n
  name _ found := (given.name found).mono (Nat.zero_le _)
  property mapping _ found := by
    obtain ⟨key, mem⟩ := Value.mem_of_find? found
    exact mapping.entry mem
  length _ _ := Value.builtBefore_of_no_identity rfl _
  built {n _ _} _ _ all := by
    -- The new list takes the next number.
    have number (m : Nat) (same : Identity.built n = .built m) : m < n + 1 := by
      cases same
      exact Nat.lt_succ_self n
    exact Value.builtBefore_list number fun item mem => (all item mem).mono (Nat.le_succ n)

/-- What is done with the value of the object of a call can be done later. -/
theorem callOn_postponed (method : String) {arguments : List Expr}
    (each : ∀ e ∈ arguments, Postponed before (Value.later before.built)
      (evaluateWithin context depth e) (evaluateWithin context depth e)) (v : Value) :
    Postponed before (Value.later before.built) (callOn context depth method arguments v)
      (callOn context depth method arguments (v.later before.built)) := by
  unfold callOn
  rw [Value.elements?_later]
  split
  · exact .fail _
  · cases v.elements? with
    | none => exact .fail _
    | some items =>
      refine Postponed.bind (r := Value.later before.built) ?_ fun needle => ?_
      · cases arguments with
        | nil => exact .pure Value.undefined
        | cons argument more => exact each argument (List.mem_cons_self ..)
      · rw [Value.containsStrictly_later]
        exact (Postponed.lift _).bind fun found => .pure (Value.bool found)

/-- **Evaluations can start later.**  Whatever was looked up and built before, a part of an expression
has the same lookups and the same result, in which the built lists have greater numbers. -/
theorem evaluateWithin_postponed (given : GivenOnly root context) (before : Trace) (depth : Nat)
    {e : Expr} (part : Part root e) :
    Postponed before (Value.later before.built) (evaluateWithin context depth e)
      (evaluateWithin context depth e) := by
  induction depth generalizing e with
  | zero => exact .fail _
  | succ depth ih =>
    have below (child : Expr) (mem : child ∈ e.children) :
        Postponed before (Value.later before.built) (evaluateWithin context depth child)
          (evaluateWithin context depth child) := ih (part.child mem)
    cases e with
    | literal v =>
      -- A literal is handed on as it is, so there must be no number in it that grows.
      have run : Postponed before (Value.later before.built) (pure v : Step Value)
          (pure (v.later before.built)) := .pure v
      rwa [Value.later_of_builtBefore v (given.literal part)] at run
    | name key => exact .lookUp fun v found => Value.later_of_builtBefore v (given.name found)
    | member object property =>
      rw [evaluateWithin_member]
      exact (below object (by simp [children])).bind fun v => .readProperty v property
    | array elements =>
      rw [evaluateWithin_array]
      exact (Postponed.mapM below).bind fun items => .buildList items
    | call object method arguments =>
      rw [evaluateWithin_call]
      exact (below object (by simp [children])).bind fun v =>
        callOn_postponed method (fun e mem => below e (List.mem_cons_of_mem _ mem)) v
    | binary operator left right =>
      have ofLeft := below left (by simp [children])
      have ofRight := below right (by simp [children])
      by_cases isAnd : operator = .and
      · subst isAnd
        rw [evaluateWithin_and]
        refine ofLeft.bind fun v => ?_
        rw [Value.isTruthy_later]
        refine (Postponed.lift _).bind fun truth => ?_
        cases truth
        · exact .pure v
        · exact ofRight
      · by_cases isOr : operator = .or
        · subst isOr
          rw [evaluateWithin_or]
          refine ofLeft.bind fun v => ?_
          rw [Value.isTruthy_later]
          refine (Postponed.lift _).bind fun truth => ?_
          cases truth
          · exact ofRight
          · exact .pure v
        · rw [evaluateWithin_binary isAnd isOr]
          exact ofLeft.bind fun a => ofRight.bind fun b =>
            (Postponed.compareWith operator a b).bind fun result => .pure (Value.bool result)
    | unary operator operand =>
      rw [evaluateWithin_unary]
      exact (below operand (by simp [children])).bind fun v => .negateWith operator v
    | group inner => exact below inner (by simp [children])
    | unknown kind => exact .fail _

end Expr

end Visibility
