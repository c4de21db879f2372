/-!
# Blank characters

Two sets of blank characters occur in the language of conditions.  Between tokens an expression
may hold the blanks of condition code; around a numeral held in a string a wider set of spaces is
dropped, which has the separator controls and the next-line control but not the byte order mark.

`trimSpaces` drops the spaces at both ends of a text.
-/

namespace Visibility.Text

/-! ## §1 The two sets -/

/-- A blank between two tokens of an expression. -/
def isBlank (c : Char) : Bool :=
  let n := c.toNat
  -- The byte order mark is a blank here; the next-line control 0x85 is none.
  (9 ≤ n && n ≤ 13) || n == 0x20 || n == 0xA0 || n == 0x1680 || (0x2000 ≤ n && n ≤ 0x200A) ||
    n == 0x2028 || n == 0x2029 || n == 0x202F || n == 0x205F || n == 0x3000 || n == 0xFEFF

/-- A space that may surround a numeral held in a string. -/
def isSpace (c : Char) : Bool :=
  let n := c.toNat
  -- The separator controls 0x1C to 0x1F are in the run that ends with the space.
  (9 ≤ n && n ≤ 13) || (0x1C ≤ n && n ≤ 0x20) || n == 0x85 || n == 0xA0 || n == 0x1680 ||
    (0x2000 ≤ n && n ≤ 0x200A) || n == 0x2028 || n == 0x2029 || n == 0x202F || n == 0x205F ||
    n == 0x3000

/-- White space of the ASCII range is blank between tokens. -/
theorem isBlank_of_isWhitespace {c : Char} (h : c.isWhitespace = true) : isBlank c = true := by
  simp only [Char.isWhitespace, Bool.or_eq_true, decide_eq_true_eq] at h
  rcases h with ((h | h) | h) | h <;> subst h <;> decide

/-- White space of the ASCII range is a space around a numeral. -/
theorem isSpace_of_isWhitespace {c : Char} (h : c.isWhitespace = true) : isSpace c = true := by
  simp only [Char.isWhitespace, Bool.or_eq_true, decide_eq_true_eq] at h
  rcases h with ((h | h) | h) | h <;> subst h <;> decide

/-! ## §2 Dropping them -/

/-- Drops the characters at both ends that satisfy `p`. -/
def trim (p : Char → Bool) (cs : List Char) : List Char :=
  ((cs.dropWhile p).reverse.dropWhile p).reverse

/-- Drops the spaces around a numeral. -/
def trimSpaces (cs : List Char) : List Char :=
  trim isSpace cs

end Visibility.Text
