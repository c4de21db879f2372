import Visibility.Condition.Cache

/-!
# Showing and hiding

Whether a thing with a list of conditions is shown.  Conditions are attempted in order, the first
one that counts as true decides, and an empty list shows always.  An attempt never fails: a text
that does not compile or evaluate counts as `false`, and the failure is kept as *swallowed*.

All attempts share one cache of compiled conditions.
-/

namespace Visibility

/-! ## §1 Attempts -/

/-- A failure that was turned into `false`, and the text it belongs to. -/
structure Swallowed where
  source : String
  cause : Failure
  deriving DecidableEq, Repr

/-- What an attempt to evaluate a text gives. -/
structure Attempt where
  value : Value
  swallowed : List Swallowed
  reads : List String

/-- Compiles and evaluates a text; any failure becomes `false`. -/
def attempt (source : String) (context : Context) (cache : Cache) : Attempt × Cache :=
  match cache.request source with
  | (.error cause, cache) => (⟨.bool false, [⟨source, .malformed cause⟩], []⟩, cache)
  | (.ok entry, cache) =>
    match entry.condition.evaluate context with
    | (.ok v, trace) => (⟨v, [], trace.reads⟩, cache)
    | (.error cause, trace) => (⟨.bool false, [⟨source, cause⟩], trace.reads⟩, cache)

/-- What is wrong with the form of a text, if anything.  Nothing is evaluated. -/
def problem (source : String) (cache : Cache) : Option SyntaxError × Cache :=
  match cache.request source with
  | (.error cause, cache) => (some cause, cache)
  | (.ok _, cache) => (none, cache)

/-! ## §2 Lists of conditions -/

/-- The conditions of a thing: none, one text, or a list of texts. -/
inductive Conditions where
  | none
  | one (source : String)
  | many (sources : List String)

/-- The conditions as a list. -/
def Conditions.toList : Conditions → List String
  | .none => []
  | .one source => [source]
  | .many sources => sources

/-- Whether a thing is shown, what was swallowed on the way and what was read. -/
structure Decision where
  shown : Except CoercionError Bool
  swallowed : List Swallowed
  reads : List String

/-- Puts an attempt in front of a decision. -/
def Decision.after (a : Attempt) (d : Decision) : Decision :=
  { d with swallowed := a.swallowed ++ d.swallowed, reads := a.reads ++ d.reads }

/-- Whether one of the texts counts as true; those after the first that does are not attempted. -/
def decideAny (context : Context) : List String → Cache → Decision × Cache
  | [], cache => (⟨.ok false, [], []⟩, cache)
  | source :: sources, cache =>
    let (a, cache) := attempt source context cache
    -- The truth of the value is no part of the attempt, so its failure is not swallowed.
    match a.value.isTruthy with
    | .ok false =>
      let (d, cache) := decideAny context sources cache
      (d.after a, cache)
    | shown => (⟨shown, a.swallowed, a.reads⟩, cache)

/-- Decides whether a thing with these conditions is shown. -/
def decideShown (conditions : Conditions) (context : Context) (cache : Cache) : Decision × Cache :=
  match conditions.toList with
  | [] => (⟨.ok true, [], []⟩, cache)
  | sources => decideAny context sources cache

end Visibility
