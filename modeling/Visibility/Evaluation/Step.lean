import Visibility.Context

/-!
# Steps of an evaluation

A step of an evaluation takes the trace so far and gives a value or a failure together with the
trace after it; what was looked up before a failure stays in the trace.

The trace holds the lookups of names in the context and the number of lists built, which gives the
next list its identity.
-/

namespace Visibility

/-! ## §1 Traces -/

/-- A name that was looked up in the context, and whether it was found. -/
structure Lookup where
  name : String
  found : Bool
  deriving DecidableEq, Repr

/-- What an evaluation leaves behind.  The newest lookup comes first. -/
structure Trace where
  lookups : List Lookup
  built : Nat
  deriving Repr

namespace Trace

/-- The trace before an evaluation. -/
def empty : Trace := ⟨[], 0⟩

/-- The names that were fetched from the context, in order. -/
def reads (t : Trace) : List String :=
  ((t.lookups.filter (·.found)).map (·.name)).reverse

end Trace

/-! ## §2 Steps -/

/-- A step of an evaluation. -/
def Step (α : Type) : Type :=
  Trace → Except Failure α × Trace

namespace Step

/-- Runs one step and goes on with its value. -/
def andThen {α β : Type} (x : Step α) (f : α → Step β) : Step β := fun t =>
  match x t with
  | (.ok a, t) => f a t
  | (.error e, t) => (.error e, t)

instance : Monad Step where
  pure a := fun t => (.ok a, t)
  bind := andThen

/-- Ends the evaluation. -/
def fail {α : Type} (cause : Failure) : Step α := fun t =>
  (.error cause, t)

/-- A conversion of values as a step.  Arrays that are nested too deeply to be written count as an
expression that is nested too deeply. -/
def lift {α : Type} (x : Except CoercionError α) : Step α := fun t =>
  match x with
  | .ok a => (.ok a, t)
  | .error .nestedTooDeeply => (.error (.malformed .nestedTooDeeply), t)
  | .error cause => (.error (.coercion cause), t)

/-- Looks a name up in the context. -/
def lookUp (context : Context) (name : String) : Step Value := fun t =>
  match context.find? name with
  | .ok (some v) => (.ok v, { t with lookups := ⟨name, true⟩ :: t.lookups })
  -- What was looked for in vain is part of the trace, too.
  | .ok none =>
    (.error (.denied (.accessDenied name)), { t with lookups := ⟨name, false⟩ :: t.lookups })
  | .error cause => (.error cause, { t with lookups := ⟨name, false⟩ :: t.lookups })

/-- Builds a list, which is an object of its own. -/
def buildList (items : List Value) : Step Value := fun t =>
  (.ok (.list (.built t.built) items), { t with built := t.built + 1 })

instance : LawfulMonad Step :=
  LawfulMonad.mk' Step
    (fun x => by
      funext t
      show andThen x (fun a t => (.ok a, t)) t = x t
      unfold andThen
      split <;> simp_all)
    (fun _ _ => rfl)
    (fun x f g => by
      funext t
      show andThen (andThen x f) g t = andThen x (fun a => andThen (f a) g) t
      unfold andThen
      cases h : x t with
      | mk r t' => cases r <;> rfl)

end Step

end Visibility
