/-!
# Powers of ten and of two

The two bases that numbers are written in here: decimals count in powers of ten, doubles in powers
of two.  Each is a function of its exponent, with the few laws that the number modules rest on.
-/

namespace Visibility

/-! ## §1 Ten -/

/-- Ten to the power of `n`. -/
def tenPow (n : Nat) : Nat := Nat.pow 10 n

@[simp] theorem tenPow_zero : tenPow 0 = 1 := rfl

theorem tenPow_one : tenPow 1 = 10 := rfl

theorem tenPow_succ (n : Nat) : tenPow (n + 1) = tenPow n * 10 := rfl

theorem tenPow_pos (n : Nat) : 0 < tenPow n := Nat.pow_pos (by decide)

theorem tenPow_add (m n : Nat) : tenPow (m + n) = tenPow m * tenPow n := Nat.pow_add 10 m n

theorem tenPow_le_tenPow {m n : Nat} (le : m ≤ n) : tenPow m ≤ tenPow n :=
  Nat.pow_le_pow_right (by decide) le

/-! ## §2 Two -/

/-- Two to the power of `n`. -/
def twoPow (n : Nat) : Nat := Nat.pow 2 n

@[simp] theorem twoPow_zero : twoPow 0 = 1 := rfl

theorem twoPow_succ (n : Nat) : twoPow (n + 1) = twoPow n * 2 := rfl

theorem twoPow_pos (n : Nat) : 0 < twoPow n := Nat.two_pow_pos n

theorem twoPow_add (m n : Nat) : twoPow (m + n) = twoPow m * twoPow n := Nat.pow_add 2 m n

theorem twoPow_le_twoPow {m n : Nat} (le : m ≤ n) : twoPow m ≤ twoPow n :=
  Nat.pow_le_pow_right (by decide) le

/-- A number is below the power of two one above its binary order of magnitude. -/
theorem lt_twoPow_log2 (n : Nat) : n < twoPow (n.log2 + 1) := Nat.lt_log2_self

end Visibility
