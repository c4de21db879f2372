import Visibility.Condition

/-!
# The cache of compiled conditions

Compiled conditions are kept by their texts, the most recently requested first; beyond the capacity
the ones that were not requested for longest are dropped.  Texts that do not compile are not kept.
Each compilation makes an object of its own, told apart by a serial number.

`Cache.request` is the only operation.  `Cache.entries_length_le` says that it stays within the
capacity.
-/

namespace Visibility

/-- A condition as the cache keeps it: with the serial number of its compilation. -/
structure CompiledCondition where
  condition : Condition
  serial : Nat

/-- Compiled conditions, the most recently requested first, and the count of requests that found
theirs and of those that did not. -/
structure Cache where
  entries : List CompiledCondition
  hits : Nat
  misses : Nat

namespace Cache

/-- How many conditions are kept. -/
def capacity : Nat := 512

/-- The cache before the first request. -/
def empty : Cache := ⟨[], 0, 0⟩

/-- Whether an entry is the one for a text. -/
def isFor (source : String) (entry : CompiledCondition) : Bool :=
  entry.condition.source == source

/-- Gives the compiled condition of a text, from the cache or by compiling it. -/
def request (source : String) (cache : Cache) : Except SyntaxError CompiledCondition × Cache :=
  match cache.entries.find? (isFor source) with
  -- A condition that is found becomes the most recent one.
  | some entry =>
    (.ok entry,
      { cache with
        entries := entry :: cache.entries.eraseP (isFor source)
        hits := cache.hits + 1 })
  | none =>
    match Condition.compile source with
    | .error cause => (.error cause, { cache with misses := cache.misses + 1 })
    | .ok condition =>
      -- The count of misses grows with each compilation, so serial numbers never repeat.
      let entry := ⟨condition, cache.misses⟩
      (.ok entry,
        { cache with
          entries := (entry :: cache.entries).take capacity
          misses := cache.misses + 1 })

/-- A request keeps the cache within its capacity. -/
theorem entries_length_le {source : String} {cache : Cache}
    (h : cache.entries.length ≤ capacity) :
    (cache.request source).2.entries.length ≤ capacity := by
  unfold request
  split
  · rename_i entry found
    have mem := List.mem_of_find?_eq_some found
    have holds := List.find?_some found
    simp only [List.length_cons, List.length_eraseP_of_mem mem holds]
    have := List.length_pos_of_mem mem
    omega
  · split
    · exact h
    · simp only [List.length_take]
      omega

end Cache

end Visibility
