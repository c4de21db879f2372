/-!
# Digits

Digits as characters and their values: the digits of a base up to sixteen, and the decimal digits of
every script, which come in runs of ten characters from a zero to a nine.
-/

namespace Visibility

/-! ## §1 ASCII digits -/

/-- One of the ten ASCII digits. -/
def isDigit (c : Char) : Bool :=
  '0' ≤ c && c ≤ '9'

/-- A digit of base two. -/
def isBinaryDigit (c : Char) : Bool :=
  c == '0' || c == '1'

/-- A digit of base eight. -/
def isOctalDigit (c : Char) : Bool :=
  '0' ≤ c && c ≤ '7'

/-- A digit of base sixteen, in either case. -/
def isHexDigit (c : Char) : Bool :=
  isDigit c || ('a' ≤ c && c ≤ 'f') || ('A' ≤ c && c ≤ 'F')

/-- The value of a digit of a base up to sixteen, in either case. -/
def digitValue (c : Char) : Nat :=
  if 'a' ≤ c && c ≤ 'f' then c.toNat - 'a'.toNat + 10
  else if 'A' ≤ c && c ≤ 'F' then c.toNat - 'A'.toNat + 10
  else c.toNat - '0'.toNat

theorem toNat_of_isDigit {c : Char} (h : isDigit c = true) : 48 ≤ c.toNat ∧ c.toNat ≤ 57 := by
  simp only [isDigit, Bool.and_eq_true, decide_eq_true_eq, Char.le_def, UInt32.le_iff_toNat_le] at h
  exact h

/-- A decimal digit counts from the zero, the letters coming after it. -/
theorem digitValue_of_isDigit {c : Char} (h : isDigit c = true) : digitValue c = c.toNat - 48 := by
  have ⟨_, high⟩ := toNat_of_isDigit h
  have notSmall : ¬('a' ≤ c) := by
    simp only [Char.le_def, UInt32.le_iff_toNat_le]
    show ¬(97 ≤ c.toNat)
    omega
  have notCapital : ¬('A' ≤ c) := by
    simp only [Char.le_def, UInt32.le_iff_toNat_le]
    show ¬(65 ≤ c.toNat)
    omega
  simp only [digitValue, notSmall, notCapital, decide_false, Bool.false_and, Bool.false_eq_true,
    if_false]
  rfl

/-- The number that digits denote in a base, the first digit being the highest. -/
def ofDigits (base : Nat) (cs : List Char) : Nat :=
  cs.foldl (fun n c => n * base + digitValue c) 0

/-! ## §2 Decimal digits of every script -/

/-- The zeros of the runs of decimal digits, in ascending order. -/
def decimalZeros : List Nat :=
  [0x30, 0x660, 0x6F0, 0x7C0, 0x966, 0x9E6, 0xA66, 0xAE6, 0xB66, 0xBE6, 0xC66, 0xCE6, 0xD66, 0xDE6,
    0xE50, 0xED0, 0xF20, 0x1040, 0x1090, 0x17E0, 0x1810, 0x1946, 0x19D0, 0x1A80, 0x1A90, 0x1B50,
    0x1BB0, 0x1C40, 0x1C50, 0xA620, 0xA8D0, 0xA900, 0xA9D0, 0xA9F0, 0xAA50, 0xABF0, 0xFF10, 0x104A0,
    0x10D30, 0x11066, 0x110F0, 0x11136, 0x111D0, 0x112F0, 0x11450, 0x114D0, 0x11650, 0x116C0,
    0x11730, 0x118E0, 0x11950, 0x11C50, 0x11D50, 0x11DA0, 0x16A60, 0x16AC0, 0x16B50, 0x1D7CE,
    0x1D7D8, 0x1D7E2, 0x1D7EC, 0x1D7F6, 0x1E140, 0x1E2F0, 0x1E950, 0x1FBF0]

/-- The value of a decimal digit of any script. -/
def decimalDigit? (c : Char) : Option Nat :=
  (decimalZeros.find? fun first => first ≤ c.toNat && c.toNat < first + 10).map (c.toNat - ·)

/-- The ASCII digits are decimal digits. -/
theorem decimalDigit?_of_isDigit {c : Char} (h : isDigit c = true) :
    decimalDigit? c = some (digitValue c) := by
  have ⟨low, high⟩ := toNat_of_isDigit h
  have first : (decide (0x30 ≤ c.toNat) && decide (c.toNat < 0x30 + 10)) = true := by
    simp only [Bool.and_eq_true, decide_eq_true_eq]; omega
  rw [digitValue_of_isDigit h]
  simp only [decimalDigit?, decimalZeros, List.find?_cons, first, Option.map_some]

end Visibility
