import Visibility.Value

/-!
# Entries of mappings

A mapping has each key once.  Keys of different types may still be one key: numbers and booleans are
the same key if they have the same value, `true` counting as one and `false` as zero.  Objects are
the same key if they are one object, and foreign things also if they hold the same.

Main statements: `find?_put_self` and `find?_put_of_ne` say what is found under a string key after
an entry was put.
-/

namespace Visibility.Value

/-- The number that a key stands for. -/
def keyNumber? : Value → Option Number
  | .bool b => some (.int b.toNat)
  | .number x => some x
  | _ => none

/-- Whether two values are one key. -/
def sameKey (a b : Value) : Bool :=
  match a, b with
  | .undefined, .undefined => true
  | .null, .null => true
  | .string s, .string t => s == t
  | .foreign i x, .foreign j y => i == j || x.sameContent y
  | _, _ =>
    match keyNumber? a, keyNumber? b with
    -- NaN is not even the same key as itself.
    | some x, some y => x.exact.order? y.exact == some .eq
    | _, _ => a.kind = .object && a.identity? == b.identity?

/-- Puts an entry: a key that is there keeps its place, a new one comes last. -/
def put (key v : Value) : List (Value × Value) → List (Value × Value)
  | [] => [(key, v)]
  | entry :: entries =>
    if sameKey entry.1 key then (entry.1, v) :: entries else entry :: put key v entries

theorem sameKey_string (k : Value) (name : String) : sameKey k (.string name) = isKey name k := by
  cases k <;> rfl

theorem find?_put_self (name : String) (v : Value) (entries : List (Value × Value)) :
    find? name (put (.string name) v entries) = some v := by
  induction entries with
  | nil => simp [put, find?, isKey]
  | cons entry entries ih =>
    simp only [put, sameKey_string]
    split
    · rename_i h
      simp [find?, h]
    · rename_i h
      simp only [find?, List.find?_cons, h] at ih ⊢
      exact ih

theorem find?_put_of_ne {name other : String} (ne : other ≠ name) (v : Value)
    (entries : List (Value × Value)) :
    find? other (put (.string name) v entries) = find? other entries := by
  induction entries with
  | nil => simp [put, find?, isKey, ne.symm]
  | cons entry entries ih =>
    simp only [put, sameKey_string]
    split
    · rename_i h
      have : isKey other entry.1 = false := by
        cases entry with
        | mk k w =>
          cases k <;> simp_all [isKey]
          exact fun eq => ne eq.symm
      simp [find?, this]
    · simp only [find?, List.find?_cons] at ih ⊢
      split
      · rfl
      · exact ih

/-- The entries of a list of keys and values, in which a later value replaces an earlier one. -/
def entriesOf (pairs : List (Value × Value)) : List (Value × Value) :=
  pairs.foldl (fun entries pair => put pair.1 pair.2 entries) []

end Visibility.Value
