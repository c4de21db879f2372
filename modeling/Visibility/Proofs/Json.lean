import Mathlib.Data.List.TakeWhile
import Visibility.Proofs.NumberRoundTrip
import Visibility.Text.Quoted

/-!
# Reading JSON

A reader of JSON texts by the grammar of JSON, apart from the writer of shown values.  So what it
makes of a shown value is what the text means.

Between quotes there are short escapes and escapes of UTF-16 units, of which two may make one
character.  A number without a point and an exponent is a whole number of any size, and every other
one is the double nearest to it.  The names in an object are distinct.

* `Json`, `Json.read` — what a text says
* `Json.stringChars_quote` — a quoted string is read back
* `Json.number?_chars` — the number of a numeral by its parts
* `Json.number?_repr`, `Json.number?_write` — whole numbers and doubles are read back
-/

namespace Visibility

/-- What a JSON text says. -/
inductive Json where
  | null
  | bool (b : Bool)
  | number (x : Number)
  | string (s : String)
  | array (items : List Json)
  | object (entries : List (String × Json))

namespace Json

/-! ## §1 Strings -/

/-- A UTF-16 unit in four hexadecimal digits, and what follows it. -/
def unit? : List Char → Option (Nat × List Char)
  | a :: b :: c :: d :: cs =>
    if [a, b, c, d].all isHexDigit then some (ofDigits 16 [a, b, c, d], cs) else none
  | _ => none

/-- The character of one or two units after the letter of their escape. -/
def unicode? (cs : List Char) : Option (Char × List Char) := do
  let (high, cs) ← unit? cs
  if high < 0xD800 ∨ 0xE000 ≤ high then return (Char.ofNat high, cs)
  -- The units in between come in pairs, with the ten high bits in the first one.
  else if 0xDC00 ≤ high then none
  else match cs with
    | '\\' :: 'u' :: cs => do
      let (low, cs) ← unit? cs
      if low < 0xDC00 ∨ 0xE000 ≤ low then none
      else return (Char.ofNat (0x10000 + (high - 0xD800) * 0x400 + (low - 0xDC00)), cs)
    | _ => none

/-- The character of an escape of one letter. -/
def letterEscape? : Char → Option Char
  | '"' => some '"'
  | '\\' => some '\\'
  | '/' => some '/'
  | 'b' => some '\x08'
  | 'f' => some '\x0c'
  | 'n' => some '\n'
  | 'r' => some '\r'
  | 't' => some '\t'
  | _ => none

/-- The character of an escape after its backslash. -/
def escape? : List Char → Option (Char × List Char)
  | [] => none
  | 'u' :: cs => unicode? cs
  | c :: cs => (letterEscape? c).map (·, cs)

/-- The characters up to the quote that ends a string, in at most so many steps. -/
def stringChars : Nat → List Char → Option (List Char × List Char)
  | 0, _ | _, [] => none
  | _ + 1, '"' :: cs => some ([], cs)
  | n + 1, '\\' :: cs =>
    (escape? cs).bind fun (c, cs) => (stringChars n cs).map (Prod.map (List.cons c) id)
  | n + 1, c :: cs =>
    -- Control characters are written by escapes only.
    if c.toNat < 0x20 then none else (stringChars n cs).map (Prod.map (List.cons c) id)

/-! ## §2 Numbers and words -/

/-- The number of a numeral: no plus and no needless zero in front, digits on both sides of a
point. -/
def number? (cs : List Char) : Option Number :=
  let (negative, unsigned) := Numeral.sign cs
  let whole := unsigned.takeWhile isDigit
  let rest := unsigned.dropWhile isDigit
  if cs.head? = some '+' ∨ whole = [] ∨ whole.head? = some '0' ∧ whole ≠ ['0'] then none
  else if rest = [] then some (.int (if negative then -ofDigits 10 whole else ofDigits 10 whole))
  else if rest.head? = some '.' ∧ (Numeral.fraction rest).1 = [] then none
  else (Numeral.decimal? cs).map fun x => .double (.ofScientific x)

/-- What a word or a number says. -/
def word? (cs : List Char) : Option Json :=
  if cs = "null".toList then some .null
  else if cs = "true".toList then some (.bool true)
  else if cs = "false".toList then some (.bool false)
  else (number? cs).map .number

/-- A character that goes on with a word or a number. -/
def isWordChar (c : Char) : Bool :=
  c.isAlphanum || c == '+' || c == '-' || c == '.'

/-! ## §3 Whole texts -/

def isBlank (c : Char) : Bool :=
  c == ' ' || c == '\t' || c == '\n' || c == '\r'

def skipBlanks (cs : List Char) : List Char :=
  cs.dropWhile isBlank

section Sequences

variable {α : Type} (item : List Char → Option (α × List Char)) (close : Char)

/-- At least one item, with commas between them, up to the closing character. -/
def itemsUntil : Nat → List Char → Option (List α × List Char)
  | 0, _ => none
  | n + 1, cs => do
    let (a, cs) ← item cs
    match skipBlanks cs with
    | [] => none
    | c :: cs =>
      if c = close then return ([a], cs)
      else if c = ',' then (itemsUntil n cs).map (Prod.map (List.cons a) id) else none

/-- The items up to the closing character. -/
def sequence (cs : List Char) : Option (List α × List Char) :=
  match skipBlanks cs with
  | [] => none
  | c :: rest => if c = close then some ([], rest) else itemsUntil item close cs.length cs

end Sequences

/-- An entry of an object: its name, a colon and its value. -/
def entry (value : List Char → Option (Json × List Char)) (cs : List Char) :
    Option ((String × Json) × List Char) := do
  match skipBlanks cs with
  | '"' :: cs =>
    let (name, cs) ← stringChars cs.length cs
    match skipBlanks cs with
    | ':' :: cs =>
      let (j, cs) ← value cs
      return ((String.ofList name, j), cs)
    | _ => none
  | _ => none

/-- What a text starts with, if it is nested less deeply than so many levels. -/
def valueWithin : Nat → List Char → Option (Json × List Char)
  | 0, _ => none
  | depth + 1, cs => do
    match skipBlanks cs with
    | '"' :: cs =>
      let (s, cs) ← stringChars cs.length cs
      return (.string (String.ofList s), cs)
    | '[' :: cs =>
      let (items, cs) ← sequence (valueWithin depth) ']' cs
      return (.array items, cs)
    | '\x7b' :: cs =>
      let (entries, cs) ← sequence (entry (valueWithin depth)) '\x7d' cs
      if (entries.map Prod.fst).Nodup then return (.object entries, cs) else none
    | cs => (word? (cs.takeWhile isWordChar)).map (·, cs.dropWhile isWordChar)

/-- What a text says.  No text is nested more deeply than it is long. -/
def read (text : String) : Option Json := do
  let (j, rest) ← valueWithin (text.length + 1) text.toList
  if skipBlanks rest = [] then return j else none

end Json

/-! ## §4 Strings are read back -/

/-- The digits of base sixteen, each with its value. -/
theorem digitChar_hex : ∀ d < 16,
    isHexDigit (Nat.digitChar d) = true ∧ digitValue (Nat.digitChar d) = d := by
  decide

theorem isHexDigit_toDigits (n : Nat) : ∀ c ∈ Nat.toDigits 16 n, isHexDigit c = true := by
  induction n using Nat.strongRecOn with
  | ind n ih =>
    rw [Nat.toDigits_eq_if (by decide)]
    split
    · rename_i digit
      exact List.forall_mem_singleton.mpr (digitChar_hex n digit).1
    · have last := digitChar_hex (n % 16) (Nat.mod_lt n (by decide))
      exact List.forall_mem_append.mpr ⟨ih _ (by omega), List.forall_mem_singleton.mpr last.1⟩

theorem ofDigits_toDigits (n : Nat) : ofDigits 16 (Nat.toDigits 16 n) = n := by
  induction n using Nat.strongRecOn with
  | ind n ih =>
    rw [Nat.toDigits_eq_if (by decide)]
    split
    · rename_i digit
      simp [ofDigits, digitChar_hex n digit]
    · have last := digitChar_hex (n % 16) (Nat.mod_lt n (by decide))
      have front := ih (n / 16) (by omega)
      unfold ofDigits at front ⊢
      rw [List.foldl_append, front, List.foldl_cons, last.2]
      exact Nat.div_add_mod' n 16

namespace Json

open Text (quote quoteChar fourDigits unitEscape unicodeEscape)

variable {cs ds es : List Char} {unit high low : Nat}

/-- Four digits are enough for a unit. -/
theorem unit?_fourDigits {n : Nat} (unit : n < 0x10000) (cs : List Char) :
    unit? (fourDigits n ++ cs) = some (n, cs) := by
  -- With zeros in front the digits are four.
  have fits : (Nat.toDigits 16 n).length ≤ 4 :=
    (Nat.length_toDigits_le_iff (by decide) (by decide)).mpr unit
  have length : (fourDigits n).length = 4 := by
    simp [fourDigits]
    omega
  have digits : (fourDigits n).all isHexDigit = true := by
    rw [List.all_eq_true]
    apply List.forall_mem_append.mpr ⟨?_, isHexDigit_toDigits n⟩
    intro c zero
    rw [List.eq_of_mem_replicate zero]
    rfl
  have value : ofDigits 16 (fourDigits n) = n := by
    unfold fourDigits
    rw [ofDigits_zeros_append, ofDigits_toDigits]
  obtain ⟨a, b, c, d, same⟩ := List.length_eq_four.mp length
  rw [same] at digits value ⊢
  simp only [List.cons_append, List.nil_append, unit?, digits, value, if_true]

theorem unicode?_single (read : unit? cs = some (unit, ds))
    (alone : unit < 0xD800 ∨ 0xE000 ≤ unit) : unicode? cs = some (Char.ofNat unit, ds) := by
  unfold unicode?
  simp only [read, Option.bind_eq_bind, Option.bind_some]
  exact if_pos alone

theorem unicode?_pair (first : unit? cs = some (high, '\\' :: 'u' :: ds))
    (second : unit? ds = some (low, es)) (isHigh : 0xD800 ≤ high ∧ high < 0xDC00)
    (isLow : 0xDC00 ≤ low ∧ low < 0xE000) :
    unicode? cs = some (Char.ofNat (0x10000 + (high - 0xD800) * 0x400 + (low - 0xDC00)), es) := by
  have paired : ¬(high < 0xD800 ∨ 0xE000 ≤ high) := by omega
  have notLow : ¬0xDC00 ≤ high := by omega
  have fits : ¬(low < 0xDC00 ∨ 0xE000 ≤ low) := by omega
  unfold unicode?
  simp only [first, second, Option.bind_eq_bind, Option.bind_some]
  rw [if_neg paired, if_neg notLow, if_neg fits]
  rfl

/-- The units of a character make this character. -/
theorem unicode?_unicodeEscape (c : Char) (cs : List Char) :
    ∃ ds, unicodeEscape c = '\\' :: 'u' :: ds ∧ unicode? (ds ++ cs) = some (c, cs) := by
  have valid : c.toNat < 0xD800 ∨ 0xDFFF < c.toNat ∧ c.toNat < 0x110000 := c.valid
  have same : Char.ofNat c.toNat = c := Char.ofNat_toNat c
  unfold unicodeEscape unitEscape
  dsimp only
  generalize c.toNat = n at *
  split
  · -- A character of one unit is no surrogate, so that its unit stands alone.
    rename_i single
    refine ⟨fourDigits n, rfl, ?_⟩
    rw [unicode?_single (unit?_fourDigits single cs) (by omega), same]
  · -- The high and the low ten bits are put together again.
    generalize defHigh : 0xD800 + (n - 0x10000) / 0x400 = high
    generalize defLow : 0xDC00 + (n - 0x10000) % 0x400 = low
    have isHigh : 0xD800 ≤ high ∧ high < 0xDC00 := by omega
    have isLow : 0xDC00 ≤ low ∧ low < 0xE000 := by omega
    have joined : 0x10000 + (high - 0xD800) * 0x400 + (low - 0xDC00) = n := by omega
    have first := unit?_fourDigits (n := high) (by omega) ('\\' :: 'u' :: (fourDigits low ++ cs))
    have second := unit?_fourDigits (n := low) (by omega) cs
    rw [List.cons_append, List.cons_append]
    refine ⟨_, rfl, ?_⟩
    rw [List.append_assoc, List.cons_append, List.cons_append,
      unicode?_pair first second isHigh isLow, joined, same]

/-- A character is read back from between quotes. -/
theorem stringChars_quoteChar (c : Char) (cs : List Char) (n : Nat) :
    stringChars (n + 1) (quoteChar c ++ cs) =
      (stringChars n cs).map (Prod.map (List.cons c) id) := by
  have same : Char.ofNat c.toNat = c := Char.ofNat_toNat c
  unfold quoteChar
  split_ifs with quote backslash newline carriage tab backspace feed plain
  · rw [quote]; rfl
  · rw [backslash]; rfl
  · rw [newline]; rfl
  · rw [carriage]; rfl
  · rw [tab]; rfl
  · rw [← same, backspace]; rfl
  · rw [← same, feed]; rfl
  · -- A printable character that is no quote and no backslash stands for itself.
    have printable : ¬c.toNat < 0x20 := by
      have first : ' '.toNat ≤ c.toNat := plain.1
      exact Nat.not_lt.mpr first
    rw [List.singleton_append, stringChars]
    · exact if_neg printable
    · exact quote
    · exact backslash
  · obtain ⟨ds, written, read⟩ := unicode?_unicodeEscape c cs
    rw [written]
    show (unicode? (ds ++ cs)).bind _ = _
    rw [read]
    rfl

/-- A quoted string is read back, whatever follows it. -/
theorem stringChars_flatMap (s rest : List Char) {n : Nat} (steps : s.length < n) :
    stringChars n (s.flatMap quoteChar ++ '"' :: rest) = some (s, rest) := by
  induction s generalizing n with
  | nil =>
    obtain ⟨n, rfl⟩ := Nat.exists_eq_add_one.mpr steps
    rfl
  | cons c s ih =>
    obtain ⟨n, rfl⟩ := Nat.exists_eq_add_one.mpr (Nat.zero_lt_of_lt steps)
    rw [List.flatMap_cons, List.append_assoc, stringChars_quoteChar,
      ih (Nat.lt_of_succ_lt_succ steps)]
    rfl

/-- Between quotes there is room for as many steps. -/
theorem length_le_flatMap (s : List Char) : s.length ≤ (s.flatMap quoteChar).length := by
  have written (c : Char) : 1 ≤ (quoteChar c).length := by
    obtain ⟨ds, written, -⟩ := unicode?_unicodeEscape c []
    unfold quoteChar
    rw [written]
    split_ifs <;> simp
  induction s with
  | nil => exact Nat.le_refl 0
  | cons c s ih =>
    rw [List.flatMap_cons, List.length_append, List.length_cons]
    have := written c
    omega

/-- A string is read back from between quotes. -/
theorem stringChars_quote (s : List Char) (rest : List Char) :
    stringChars (s.flatMap quoteChar ++ '"' :: rest).length (s.flatMap quoteChar ++ '"' :: rest) =
      some (s, rest) := by
  apply stringChars_flatMap
  have := length_le_flatMap s
  rw [List.length_append, List.length_cons]
  omega

theorem quote_append (s : String) (rest : List Char) :
    (quote s).toList ++ rest = '"' :: (s.toList.flatMap quoteChar ++ '"' :: rest) := by
  rw [quote, String.toList_ofList, List.cons_append, List.append_assoc, List.singleton_append]

/-! ## §5 Numbers are read back -/

open Numeral (Parts)

/-- The number of the parts: a whole number if there are neither places nor an exponent. -/
def numberOf (negative : Bool) (p : Parts) : Number :=
  if p.places = [] ∧ p.exponent = none then
    .int (if negative then -ofDigits 10 p.whole else ofDigits 10 p.whole)
  else .double (.ofScientific (p.value negative))

theorem rest_eq_nil {p : Parts} (width : Nat) :
    p.pointChars ++ p.exponentChars width = [] ↔ p.places = [] ∧ p.exponent = none := by
  unfold Parts.pointChars Parts.exponentChars
  cases p.exponent <;> by_cases places : p.places = [] <;> simp [places]

/-- A point in a text has digits after it. -/
theorem places_of_point {p : Parts} (width : Nat)
    (point : (p.pointChars ++ p.exponentChars width).head? = some '.') : p.places ≠ [] := by
  intro none
  unfold Parts.pointChars Parts.exponentChars at point
  rw [if_pos none, List.nil_append] at point
  cases exponent : p.exponent <;> simp [exponent] at point

/-- A numeral is read as the number of its parts. -/
theorem number?_chars {p : Parts} (proper : p.Proper)
    (leading : p.whole = ['0'] ∨ p.whole.head? ≠ some '0') (negative : Bool) (width : Nat) :
    number? (signChars negative ++ p.chars width) = some (numberOf negative p) := by
  have decimal := Numeral.decimal?_chars proper negative width
  -- A digit comes first, so that nothing but the sign is split off.
  obtain ⟨c, cs, same⟩ := List.exists_cons_of_ne_nil proper.whole_ne_nil
  have first : isDigit c = true := proper.whole c (by rw [same]; exact List.mem_cons_self)
  have split : Numeral.sign (signChars negative ++ p.chars width) = (negative, p.chars width) := by
    unfold Parts.chars
    rw [same]
    exact Numeral.sign_signChars first negative
  have noPlus : (signChars negative ++ p.chars width).head? ≠ some '+' := by
    unfold Parts.chars
    rw [same]
    cases negative with
    | true => simp [signChars]
    | false =>
      intro plus
      obtain rfl := Option.some.inj plus
      cases first
  have noZero : ¬(p.whole.head? = some '0' ∧ p.whole ≠ ['0']) := by
    rintro ⟨zero, more⟩
    exact leading.elim more fun other => other zero
  obtain ⟨whole, rest⟩ := scan_run proper.whole (Parts.takeWhile_rest (p := p) width)
  have fraction := Parts.fraction_chars width proper
  have point := places_of_point (p := p) width
  unfold number?
  rw [split, decimal]
  unfold Parts.chars at noPlus ⊢
  simp only [whole, rest, noPlus, proper.whole_ne_nil, noZero, or_self, if_false, fraction,
    rest_eq_nil, Option.map_some]
  unfold numberOf
  split
  · rfl
  · rw [if_neg]
    rintro ⟨there, nothing⟩
    exact point there nothing

theorem digitsOf_leading (n : Nat) : digitsOf n = ['0'] ∨ (digitsOf n).head? ≠ some '0' := by
  rcases Nat.eq_zero_or_pos n with rfl | positive
  · exact .inl rfl
  · exact .inr (head?_digitsOf positive.ne')

/-- A whole number is read back from its digits. -/
theorem number?_repr (n : Int) : number? n.repr.toList = some (.int n) := by
  let p : Parts := ⟨digitsOf n.natAbs, [], none⟩
  have proper : p.Proper := ⟨digitsOf_ne_nil _, isDigit_digitsOf _, List.forall_mem_nil _⟩
  have chars : p.chars 1 = digitsOf n.natAbs := List.append_nil _
  have value : (if decide (n < 0) = true then -(n.natAbs : Int) else n.natAbs) = n := by
    split_ifs with negative
    · have := of_decide_eq_true negative
      omega
    · have := of_decide_eq_false (Bool.eq_false_iff.mpr negative)
      omega
  rw [toList_repr, ← chars, number?_chars proper (digitsOf_leading _)]
  unfold numberOf
  rw [if_pos ⟨rfl, rfl⟩, ofDigits_digitsOf, value]

/-- In a document every double has a point or an exponent. -/
theorem json_parts (x : Scientific) :
    ¬((Layout.json.parts x).places = [] ∧ (Layout.json.parts x).exponent = none) := by
  have nonempty : digitsOf x.coefficient ≠ [] := digitsOf_ne_nil _
  have suffix : Layout.json.wholeSuffix.tail = ['0'] := rfl
  unfold Layout.parts
  dsimp only
  split_ifs with inPlace before whole
  · simp [nonempty]
  · simp [suffix]
  · simp only [List.drop_eq_nil_iff, and_true]
    omega
  · simp

/-- A double is read back from its text in a document, a zero with its sign. -/
theorem number?_write (negative : Bool) {units : Nat} (representable : Double.Representable units) :
    number? (Layout.json.write (.finite negative units representable)).toList =
      some (.double (.finite negative units representable)) := by
  by_cases zero : units = 0
  · subst zero
    unfold Layout.write
    dsimp only
    rw [if_pos rfl, String.toList_ofList]
    cases negative <;> rfl
  · have laid := Layout.laid_parts Layout.zeroSuffix_json (Double.shortest units)
    have nonzero := Double.shortest_ne_zero representable zero
    have rounded := Double.ofScientific_of_size representable zero (laid.size negative)
    rw [toList_write negative representable Layout.zeroSuffix_json zero,
      number?_chars laid.proper (laid.leading nonzero)]
    unfold numberOf
    rw [if_neg (json_parts _), rounded]
    rfl

end Json

end Visibility
