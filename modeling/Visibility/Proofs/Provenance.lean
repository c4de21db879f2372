import Mathlib.Data.List.Permutation
import Visibility.Proofs.Evaluation

/-!
# Where the value of an expression comes from

An expression gets hold of its literals, of the entries of the context that it names, and of entries
of mappings under property names that it spells; beyond that it only makes truth values, lengths and
lists of its own.  `Reachable` is the least set of values with these properties, and every value
that an evaluation returns belongs to it.

* `evaluateWithin_closedAlong`, `evaluateWithin_closed` — each kind of node stays within any set with
  these properties, which may grow with the lists that are built, by induction on the nodes within
  each other
* `Reachable.origin` — an object of the set is a list that was built, or it stands at the end of a
  path of spelled keys that starts at a literal or at a name; no step of a path leads from an array
  to an element
* `evaluate_reachable` — both for whole evaluations
-/

namespace Visibility

/-! ## §1 Paths of keys -/

/-- What a path of keys leads to, if each key is one of the mapping that the keys before it lead
to. -/
def Value.along? : List String → Value → Option Value
  | [], v => some v
  | key :: path, .map _ entries => (Value.find? key entries).bind (along? path)
  | _ :: _, _ => none

theorem Value.along?_append {path : List String} {v m : Value} (h : v.along? path = some m)
    (more : List String) : v.along? (path ++ more) = m.along? more := by
  induction path generalizing v with
  | nil =>
    cases h
    rfl
  | cons key path ih =>
    cases v <;> simp only [along?, reduceCtorEq] at h
    obtain ⟨w, found, rest⟩ := Option.bind_eq_some_iff.mp h
    simp only [List.cons_append, along?, found, Option.bind_some]
    exact ih rest

namespace Expr

/-! ## §2 Parts of an expression -/

/-- The parts of an expression, which is one of them itself. -/
inductive Part (root : Expr) : Expr → Prop where
  | root : Part root root
  | child {e part : Expr} : Part root e → part ∈ e.children → Part root part

/-! ## §3 Reachable values -/

/-- The values that an expression can get hold of in a context. -/
inductive Reachable (root : Expr) (context : Context) : Value → Prop where
  | literal {v : Value} : Part root (.literal v) → Reachable root context v
  | bool (b : Bool) : Reachable root context (.bool b)
  | undefined : Reachable root context .undefined
  /-- The entry of the context for one of the names. -/
  | name {key : String} {v : Value} :
      Part root (.name key) → context.find? key = .ok (some v) → Reachable root context v
  /-- The entry of a mapping for one of the property names. -/
  | property {object : Expr} {key : String} {id : Identity} {entries : List (Value × Value)}
      {v : Value} :
      Reachable root context (.map id entries) → Part root (.member object key) →
      Value.find? key entries = some v → Reachable root context v
  /-- The length of an array, but not its elements. -/
  | length {array : Value} {items : List Value} :
      Reachable root context array → array.elements? = some items →
      Reachable root context (.int items.length)
  /-- A list that the evaluation built. -/
  | built {n : Nat} {items : List Value} :
      (∀ v ∈ items, Reachable root context v) → Reachable root context (.list (.built n) items)

/-- A set of values that is left neither by reading from its members nor by what an evaluation makes
of them.  The lists that it holds have as many items as some array of the expression has elements.
-/
structure Closed (root : Expr) (context : Context) (R : Value → Prop) : Prop where
  literal {v : Value} : Part root (.literal v) → R v
  bool (b : Bool) : R (.bool b)
  undefined : R .undefined
  name {key : String} {v : Value} :
    Part root (.name key) → context.find? key = .ok (some v) → R v
  property {object : Expr} {key : String} {id : Identity} {entries : List (Value × Value)}
    {v : Value} :
    R (.map id entries) → Part root (.member object key) → Value.find? key entries = some v → R v
  length {array : Value} {items : List Value} :
    R array → array.elements? = some items → R (.int items.length)
  built {n : Nat} {elements : List Expr} {items : List Value} :
    Part root (.array elements) → items.length = elements.length → (∀ v ∈ items, R v) →
      R (.list (.built n) items)

/-- The same of a set that may grow with every list that is built. -/
structure ClosedAlong (root : Expr) (context : Context) (R : Nat → Value → Prop) : Prop where
  grows {m n : Nat} {v : Value} : m ≤ n → R m v → R n v
  literal {n : Nat} {v : Value} : Part root (.literal v) → R n v
  bool (n : Nat) (b : Bool) : R n (.bool b)
  undefined (n : Nat) : R n .undefined
  name {n : Nat} {key : String} {v : Value} :
    Part root (.name key) → context.find? key = .ok (some v) → R n v
  property {n : Nat} {object : Expr} {key : String} {id : Identity}
    {entries : List (Value × Value)} {v : Value} :
    R n (.map id entries) → Part root (.member object key) → Value.find? key entries = some v → R n v
  length {n : Nat} {array : Value} {items : List Value} :
    R n array → array.elements? = some items → R n (.int items.length)
  built {n : Nat} {elements : List Expr} {items : List Value} :
    Part root (.array elements) → items.length = elements.length → (∀ v ∈ items, R n v) →
      R (n + 1) (.list (.built n) items)

theorem Closed.along {root : Expr} {context : Context} {R : Value → Prop}
    (closed : Closed root context R) : ClosedAlong root context fun _ => R where
  grows _ holds := holds
  literal := closed.literal
  bool _ := closed.bool
  undefined _ := closed.undefined
  name := closed.name
  property := closed.property
  length := closed.length
  built := closed.built

theorem Reachable.closed (root : Expr) (context : Context) :
    Closed root context (Reachable root context) where
  literal := .literal
  bool := .bool
  undefined := .undefined
  name := .name
  property := .property
  length := .length
  built _ _ := .built

section Evaluation

open Step Evaluation

variable {root : Expr} {context : Context} {t t' : Trace}

/-- No operation on steps forgets that a list was built. -/
theorem built_congruence : Congruence fun _ x _ => ∀ t, t.built ≤ (x t).2.built where
  pure _ _ := Nat.le_refl _
  bind {_ _ x _ f _} first rest t := by
    have before := first t
    show t.built ≤ (andThen x f t).2.built
    unfold andThen
    rcases ends : x t with ⟨cause | a, u⟩
    · rwa [ends] at before
    · rw [ends] at before
      exact Nat.le_trans before (rest a u)
  fail _ _ := Nat.le_refl _
  lift x t := by
    unfold lift
    split <;> exact Nat.le_refl _
  buildList _ _ := Nat.le_succ _

theorem built_le_of_returns {depth : Nat} {e : Expr} {v : Value}
    (h : Returns (evaluateWithin context depth e) t v t') : t.built ≤ t'.built := by
  have lookUps (name : String) (t : Trace) : t.built ≤ (lookUp context name t).2.built := by
    unfold lookUp
    split <;> exact Nat.le_refl _
  have grown := @Congruence.evaluateWithin _ built_congruence context context lookUps depth e t
  rwa [h] at grown

variable {R : Nat → Value → Prop}

theorem readProperty_closed (closed : ClosedAlong root context R) {object : Expr}
    {property : String} {v w : Value} (part : Part root (.member object property))
    (holds : R t.built v) (h : Returns (readProperty v property) t w t') : R t'.built w := by
  unfold readProperty at h
  split at h
  · split at h
    · rename_i found
      obtain ⟨rfl, rfl⟩ := returns_pure.mp h
      -- A mapping gives one of its entries, an array its length.
      cases v with
      | map id entries => exact closed.property holds part found
      | list id items | tuple id items =>
        simp only [Value.property?, Option.ite_none_right_eq_some, Option.some.injEq] at found
        obtain ⟨_, rfl⟩ := found
        exact closed.length holds rfl
      | _ => cases found
    · exact absurd h returns_fail
  · obtain ⟨rfl, _⟩ := returns_pure.mp h
    exact closed.undefined _

/-- Steps that keep to the set give a list of as many values of it. -/
theorem mapM_closed (closed : ClosedAlong root context R) {f : Expr → Step Value} {es : List Expr}
    {items : List Value}
    (each : ∀ e ∈ es, ∀ t v t', Returns (f e) t v t' → t.built ≤ t'.built ∧ R t'.built v)
    (h : Returns (es.mapM f) t items t') :
    t.built ≤ t'.built ∧ items.length = es.length ∧ ∀ v ∈ items, R t'.built v := by
  induction es generalizing items t t' with
  | nil =>
    rw [List.mapM_nil, returns_pure] at h
    obtain ⟨rfl, rfl⟩ := h
    exact ⟨Nat.le_refl _, rfl, nofun⟩
  | cons e es ih =>
    simp only [List.mapM_cons, returns_bind, returns_pure] at h
    obtain ⟨v, u, first, others, u', rest, rfl, rfl⟩ := h
    obtain ⟨before, holds⟩ := each e (List.mem_cons_self ..) _ _ _ first
    obtain ⟨after, count, all⟩ := ih (fun e mem => each e (List.mem_cons_of_mem _ mem)) rest
    refine ⟨Nat.le_trans before after, by rw [List.length_cons, List.length_cons, count], ?_⟩
    exact List.forall_mem_cons.mpr ⟨closed.grows after holds, all⟩

/-- A call that returns gives a truth value, whatever it was called on. -/
theorem callOn_closed (closed : ClosedAlong root context R) {depth : Nat} {method : String}
    {arguments : List Expr} {v w : Value}
    (h : Returns (callOn context depth method arguments v) t w t') : R t'.built w := by
  unfold callOn at h
  split at h
  · exact absurd h returns_fail
  · split at h
    · exact absurd h returns_fail
    · simp only [returns_bind, returns_pure] at h
      obtain ⟨_, _, _, found, _, _, rfl, _⟩ := h
      exact closed.bool _ found

theorem negateWith_closed (closed : ClosedAlong root context R) {operator : Operator} {v w : Value}
    (h : Returns (negateWith operator v) t w t') : R t'.built w := by
  unfold negateWith at h
  split at h
  · simp only [returns_bind, returns_pure] at h
    obtain ⟨truth, _, _, rfl, _⟩ := h
    exact closed.bool _ _
  · exact absurd h returns_fail

/-- Whatever part of an expression is evaluated returns a value of the set as it is then. -/
theorem evaluateWithin_closedAlong (closed : ClosedAlong root context R) (depth : Nat) {e : Expr}
    {v : Value} (part : Part root e) (h : Returns (evaluateWithin context depth e) t v t') :
    R t'.built v := by
  induction depth generalizing e v t t' with
  | zero => exact absurd h returns_fail
  | succ depth ih =>
    have below {child : Expr} (mem : child ∈ e.children) : Part root child := part.child mem
    cases e with
    | literal w =>
      obtain ⟨rfl, _⟩ := returns_pure.mp h
      exact closed.literal part
    | name key =>
      obtain ⟨found, _⟩ := returns_lookUp.mp h
      exact closed.name part found
    | member object property =>
      rw [evaluateWithin_member, returns_bind] at h
      obtain ⟨w, u, read, rest⟩ := h
      exact readProperty_closed closed part (ih (below (by simp [children])) read) rest
    | array elements =>
      rw [evaluateWithin_array, returns_bind] at h
      obtain ⟨items, u, read, rest⟩ := h
      obtain ⟨rfl, rfl⟩ := returns_buildList.mp rest
      obtain ⟨_, count, all⟩ := mapM_closed closed
        (fun e mem _ _ _ read => ⟨built_le_of_returns read, ih (below mem) read⟩) read
      exact closed.built part count all
    | call object method arguments =>
      rw [evaluateWithin_call, returns_bind] at h
      obtain ⟨w, u, _, rest⟩ := h
      exact callOn_closed closed rest
    | binary operator left right =>
      have inLeft : Part root left := below (by simp [children])
      have inRight : Part root right := below (by simp [children])
      by_cases isAnd : operator = .and
      · subst isAnd
        simp only [evaluateWithin_and, returns_bind, returns_lift] at h
        obtain ⟨w, u, read, truth, _, ⟨_, rfl⟩, rest⟩ := h
        -- The operand that decides is handed on as it is.
        split at rest
        · exact ih inRight rest
        · obtain ⟨rfl, rfl⟩ := returns_pure.mp rest
          exact ih inLeft read
      · by_cases isOr : operator = .or
        · subst isOr
          simp only [evaluateWithin_or, returns_bind, returns_lift] at h
          obtain ⟨w, u, read, truth, _, ⟨_, rfl⟩, rest⟩ := h
          split at rest
          · obtain ⟨rfl, rfl⟩ := returns_pure.mp rest
            exact ih inLeft read
          · exact ih inRight rest
        · simp only [evaluateWithin_binary isAnd isOr, returns_bind, returns_pure] at h
          obtain ⟨_, _, _, _, _, _, result, _, _, rfl, _⟩ := h
          exact closed.bool _ result
    | unary operator operand =>
      rw [evaluateWithin_unary, returns_bind] at h
      obtain ⟨w, u, _, rest⟩ := h
      exact negateWith_closed closed rest
    | group inner => exact ih (below (by simp [children])) h
    | unknown kind => exact absurd h returns_fail

/-- Whatever part of an expression is evaluated returns a value of each closed set. -/
theorem evaluateWithin_closed {R : Value → Prop} (closed : Closed root context R) (depth : Nat)
    {e : Expr} {v : Value} (part : Part root e)
    (h : Returns (evaluateWithin context depth e) t v t') : R v :=
  evaluateWithin_closedAlong closed.along depth part h

/-- So it returns a value that the expression can reach. -/
theorem evaluateWithin_reachable (depth : Nat) {e : Expr} {v : Value} (part : Part root e)
    (h : Returns (evaluateWithin context depth e) t v t') : Reachable root context v :=
  evaluateWithin_closed (Reachable.closed root context) depth part h

end Evaluation

/-! ## §4 Origins of objects -/

section Origins

variable {root : Expr} {context : Context} {v : Value}

/-- Every key of the path is a property name of the expression. -/
def Spelled (root : Expr) (path : List String) : Prop :=
  ∀ key ∈ path, ∃ object, Part root (.member object key)

/-- The value stands at the end of a path that starts at a literal. -/
def FromLiteral (root : Expr) (v : Value) : Prop :=
  ∃ start path, Part root (.literal start) ∧ Spelled root path ∧ start.along? path = some v

/-- The value stands at the end of a path that starts at the entry of the context for a name. -/
def FromContext (root : Expr) (context : Context) (v : Value) : Prop :=
  ∃ key start path, Part root (.name key) ∧ context.find? key = .ok (some start) ∧
    Spelled root path ∧ start.along? path = some v

/-- The value is a list that the evaluation built of reachable values. -/
def IsBuilt (root : Expr) (context : Context) (v : Value) : Prop :=
  ∃ n items, v = .list (.built n) items ∧ ∀ w ∈ items, Reachable root context w

theorem Spelled.append {path : List String} {object : Expr} {key : String}
    (spelled : Spelled root path) (part : Part root (.member object key)) :
    Spelled root (path ++ [key]) := by
  intro other mem
  rcases List.mem_append.mp mem with mem | mem
  · exact spelled other mem
  · obtain rfl := List.mem_singleton.mp mem
    exact ⟨object, part⟩

/-- A reachable object is built or stands at the end of a path of keys. -/
theorem Reachable.origin (h : Reachable root context v) (isObject : v.kind = .object) :
    IsBuilt root context v ∨ FromLiteral root v ∨ FromContext root context v := by
  induction h with
  | literal part => exact .inr (.inl ⟨_, [], part, by simp [Spelled], rfl⟩)
  | bool | undefined | length => cases isObject
  | name part found => exact .inr (.inr ⟨_, _, [], part, found, by simp [Spelled], rfl⟩)
  | @property object key id entries v _ part found ih =>
    -- The mapping has an origin, and its path goes on with the key.
    have last : (Value.map id entries).along? [key] = some v := by
      simp [Value.along?, found]
    rcases ih rfl with ⟨_, _, same, _⟩ | ⟨start, path, literal, spelled, leads⟩ |
      ⟨name, start, path, named, entry, spelled, leads⟩
    · cases same
    · exact .inr (.inl ⟨start, path ++ [key], literal, spelled.append part,
        (Value.along?_append leads [key]).trans last⟩)
    · exact .inr (.inr ⟨name, start, path ++ [key], named, entry, spelled.append part,
        (Value.along?_append leads [key]).trans last⟩)
  | built reachable => exact .inl ⟨_, _, rfl, reachable⟩

end Origins

/-- **An evaluation returns only what the expression can reach.**  The value belongs to the least
set of reachable values, and of that set every object was built by the evaluation or is read from a
literal or from the context along keys that the expression spells. -/
theorem evaluate_reachable {e : Expr} {context : Context} {v : Value}
    (h : (e.evaluate context).1 = .ok v) :
    Reachable e context v ∧
      ∀ w, Reachable e context w → w.kind = .object →
        IsBuilt e context w ∨ FromLiteral e w ∨ FromContext e context w := by
  have returned : Step.Returns (evaluateWithin context evaluationDepth e) .empty v
      (e.evaluate context).2 :=
    Prod.ext h rfl
  exact ⟨evaluateWithin_reachable _ .root returned, fun w reachable => reachable.origin⟩

/-- The value of `[user.roles, user.roles.length]` is a list of a list of the context and a
number. -/
theorem evaluate_reachable_roles :
    let roles := Value.list (.given 2) [.string "admin"]
    let context := Context.holding
      (.map (.given 0) [(.string "user", .map (.given 1) [(.string "roles", roles)])])
    let e := Expr.array
      [.member (.name "user") "roles", .member (.member (.name "user") "roles") "length"]
    let v := Value.list (.built 0) [roles, .int 1]
    (e.evaluate context).1 = .ok v ∧ Reachable e context v := by
  intro roles context e v
  have returned : (e.evaluate context).1 = .ok v := by cbv
  exact ⟨returned, (evaluate_reachable returned).1⟩

end Expr

end Visibility
