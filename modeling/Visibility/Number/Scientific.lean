import Visibility.Number.Power

/-!
# Numbers in scientific form

A number `± coefficient * 10 ^ exponent`.  It is the common ground of all the finite numbers here:
a numeral denotes one, a decimal is one, and a double has exactly the value of one.  So numbers of
different representations are compared, without rounding, by comparing these.

`Scientific.order` first looks at the orders of magnitude and only then brings the two numbers to
one exponent; it never writes out more digits than the two coefficients have.
-/

namespace Visibility

/-! ## §1 Counting digits -/

/-- The number of decimal digits of `n`; zero has one. -/
def digitCount (n : Nat) : Nat :=
  if n < 10 then 1 else digitCount (n / 10) + 1

theorem digitCount_pos (n : Nat) : 0 < digitCount n := by
  unfold digitCount
  split <;> omega

/-- A number is below the power of ten of its digit count. -/
theorem lt_tenPow_digitCount (n : Nat) : n < tenPow (digitCount n) := by
  induction n using Nat.strongRecOn with
  | ind n ih =>
    unfold digitCount
    split
    · rw [tenPow_one]; assumption
    -- one more digit than the number without its last one
    · have := ih (n / 10) (by omega)
      rw [tenPow_succ]
      omega

/-- A positive number reaches the power of ten of one less than its digit count. -/
theorem tenPow_digitCount_le {n : Nat} (pos : 0 < n) : tenPow (digitCount n - 1) ≤ n := by
  induction n using Nat.strongRecOn with
  | ind n ih =>
    unfold digitCount
    split
    · simp; omega
    · have step := ih (n / 10) (by omega) (by omega)
      obtain ⟨k, hk⟩ : ∃ k, digitCount (n / 10) = k + 1 :=
        ⟨digitCount (n / 10) - 1, by have := digitCount_pos (n / 10); omega⟩
      simp only [hk, Nat.add_sub_cancel] at step ⊢
      rw [tenPow_succ]
      omega

/-! ## §2 The form -/

/-- The number `± coefficient * 10 ^ exponent`. -/
structure Scientific where
  negative : Bool
  coefficient : Nat
  exponent : Int
  deriving DecidableEq, Repr

namespace Scientific

/-- The whole number `n`. -/
def ofInt (n : Int) : Scientific :=
  ⟨n < 0, n.natAbs, 0⟩

/-- A nonzero number of magnitude `k` lies from `10 ^ (k - 1)` up to but not including `10 ^ k`. -/
def magnitude (x : Scientific) : Int :=
  digitCount x.coefficient + x.exponent

/-- The same number without trailing zeros in the coefficient. -/
def normalize (x : Scientific) : Scientific :=
  if x.coefficient = 0 then ⟨x.negative, 0, 0⟩
  else if x.coefficient % 10 = 0 then
    normalize ⟨x.negative, x.coefficient / 10, x.exponent + 1⟩
  else x
termination_by x.coefficient
decreasing_by omega

/-! ## §3 Order by value -/

/-- The order of the absolute values. -/
def orderAbs (x y : Scientific) : Ordering :=
  if x.coefficient = 0 ∨ y.coefficient = 0 then compare x.coefficient y.coefficient
  else if x.magnitude = y.magnitude then
    -- Of one magnitude, the exponents differ by no more than the counts of digits do.
    let e := min x.exponent y.exponent
    compare (x.coefficient * tenPow (x.exponent - e).toNat)
      (y.coefficient * tenPow (y.exponent - e).toNat)
  else compare x.magnitude y.magnitude

/-- Whether the number is below zero; a zero never is, whatever its sign. -/
def isNegative (x : Scientific) : Bool :=
  x.negative && x.coefficient != 0

/-- The order of two numbers by their exact values. -/
def order (x y : Scientific) : Ordering :=
  match x.isNegative, y.isNegative with
  | false, false => orderAbs x y
  | true, true => orderAbs y x
  | true, false => .lt
  | false, true => .gt

end Scientific

end Visibility
