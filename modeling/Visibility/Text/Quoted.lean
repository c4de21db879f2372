/-!
# Quoted text

A text between double quotes in plain ASCII.  Quotes, backslashes and control characters are
escaped, and every character beyond the printable ASCII ones is written by its UTF-16 units in four
lower-case hexadecimal digits.
-/

namespace Visibility.Text

/-- A number below `2 ^ 16` in four hexadecimal digits. -/
def fourDigits (n : Nat) : List Char :=
  let digits := Nat.toDigits 16 n
  List.replicate (4 - digits.length) '0' ++ digits

/-- A UTF-16 unit as an escape. -/
def unitEscape (unit : Nat) : List Char :=
  '\\' :: 'u' :: fourDigits unit

/-- The escapes of a character beyond the printable ASCII ones: one, or two for a surrogate pair. -/
def unicodeEscape (c : Char) : List Char :=
  let n := c.toNat
  -- Beyond the first plane the ten high and the ten low bits make one unit each.
  if n < 0x10000 then unitEscape n
  else unitEscape (0xD800 + (n - 0x10000) / 0x400) ++ unitEscape (0xDC00 + (n - 0x10000) % 0x400)

/-- A character as it is written between quotes. -/
def quoteChar (c : Char) : List Char :=
  if c = '"' then ['\\', '"']
  else if c = '\\' then ['\\', '\\']
  else if c = '\n' then ['\\', 'n']
  else if c = '\r' then ['\\', 'r']
  else if c = '\t' then ['\\', 't']
  -- Backspace and form feed have short escapes, too.
  else if c.toNat = 8 then ['\\', 'b']
  else if c.toNat = 12 then ['\\', 'f']
  else if ' ' ≤ c ∧ c ≤ '~' then [c]
  else unicodeEscape c

/-- A text between quotes. -/
def quote (s : String) : String :=
  String.ofList ('"' :: (s.toList.flatMap quoteChar ++ ['"']))

end Visibility.Text
