import Visibility.Value.Coercion

/-!
# Equality of values

Strict equality never converts: two values are equal if they have the same dynamic type and the same
value, and objects if they are the same object.

Loose equality converts first.  `looseStep` is one step of it: it either answers, or replaces a
boolean by its number or an object by its text.  No pair of values takes more than two such
replacements.
-/

namespace Visibility.Value

/-! ## §1 Strict equality -/

/-- Equal in type and value; objects only if they are one. -/
def strictEquals (a b : Value) : Except CoercionError Bool :=
  match a, b with
  | .undefined, .undefined => .ok true
  | .null, .null => .ok true
  | .bool x, .bool y => .ok (x == y)
  | .number x, .number y => x.equals y
  | .string x, .string y => .ok (x == y)
  | _, _ => .ok (a.kind = .object && a.identity? == b.identity?)

/-! ## §2 Loose equality -/

/-- What one step of a loose comparison leads to. -/
inductive LooseStep where
  | answer (equal : Bool)
  | convert (a b : Value)
  /-- No rule applies to the two values. -/
  | unrelated

/-- One step of a loose comparison. -/
def looseStep (a b : Value) : Except CoercionError LooseStep := do
  if a.kind = b.kind then
    return .answer (← strictEquals a b)
  -- The absent values equal each other and nothing else.
  if a.isAbsent || b.isAbsent then
    return .answer (a.isAbsent && b.isAbsent)
  match a, b with
  -- A string is compared with a number as a number.
  | .number x, .string _ => return .answer (← x.equals (← b.toNumber))
  | .string _, .number y => return .answer (← (← a.toNumber).equals y)
  -- A boolean becomes a number before an object becomes a text.
  | .bool _, _ => return .convert (.number (← a.toNumber)) b
  | _, .bool _ => return .convert a (.number (← b.toNumber))
  | _, _ =>
    if a.kind = .object then return .convert (← a.toPrimitive) b
    if b.kind = .object then return .convert a (← b.toPrimitive)
    return .unrelated

/-- A loose comparison of at most `steps` steps. -/
def looseEqualsWithin : Nat → Value → Value → Except CoercionError Bool
  | 0, _, _ => .ok false
  | steps + 1, a, b => do
    match ← looseStep a b with
    | .answer equal => return equal
    | .convert a b => looseEqualsWithin steps a b
    | .unrelated => return false

/-- Equal after conversion.  Two conversions and an answer are three steps. -/
def looseEquals (a b : Value) : Except CoercionError Bool :=
  looseEqualsWithin 3 a b

end Visibility.Value
