import Visibility.Proofs.Display
import Visibility.Proofs.Json

/-!
# Documents are read back

A value that is made of what JSON has a form for has a content, and the document of the value says
just this content.

What the reader takes of a text does not depend on what follows, as long as that does not go on with
a word, and items end at the commas between them.  So the reading of a document is put together from
the readings of its parts, down to words, numbers and strings.

* `Value.Content` — the values that JSON has a form for, with what they say
* `Json.Takes`, `Json.sequence_takes` — a text is taken as a whole, and a sequence item by item
* `Json.takes_array`, `Json.takes_object` — one lemma for each form of a text
* `Display.takes_jsonWithin` — a document is read back as the content of its value
-/

namespace Visibility

/-! ## §1 The content of a value -/

mutual

/-- The value is made of what JSON has a form for, and `j` is what it says.  A tuple is an array like
a list, and the keys of a mapping are names of which none comes twice. -/
inductive Value.Content : Value → Json → Prop where
  | null : Value.Content .null .null
  | bool (b : Bool) : Value.Content (.bool b) (.bool b)
  | int (n : Int) : Value.Content (.number (.int n)) (.number (.int n))
  | double (negative : Bool) (units : Nat) (representable : Double.Representable units) :
      Value.Content (.number (.double (.finite negative units representable)))
        (.number (.double (.finite negative units representable)))
  | string (s : String) : Value.Content (.string s) (.string s)
  | list (id : Identity) {vs : List Value} {js : List Json} :
      ItemsContent vs js → Value.Content (.list id vs) (.array js)
  | tuple (id : Identity) {vs : List Value} {js : List Json} :
      ItemsContent vs js → Value.Content (.tuple id vs) (.array js)
  | map (id : Identity) {es : List (Value × Value)} {fs : List (String × Json)} :
      EntriesContent es fs → (fs.map Prod.fst).Nodup → Value.Content (.map id es) (.object fs)

/-- The same for the items of an array. -/
inductive ItemsContent : List Value → List Json → Prop where
  | nil : ItemsContent [] []
  | cons {v : Value} {vs : List Value} {j : Json} {js : List Json} :
      v.Content j → ItemsContent vs js → ItemsContent (v :: vs) (j :: js)

/-- The same for the entries of a mapping. -/
inductive EntriesContent : List (Value × Value) → List (String × Json) → Prop where
  | nil : EntriesContent [] []
  | cons (name : String) {v : Value} {es : List (Value × Value)} {j : Json}
      {fs : List (String × Json)} :
      v.Content j → EntriesContent es fs →
        EntriesContent ((.string name, v) :: es) ((name, j) :: fs)

end

theorem ItemsContent.of_mem {vs : List Value} {js : List Json} (content : ItemsContent vs js) :
    ∀ v ∈ vs, ∃ j, v.Content j := by
  induction vs generalizing js with
  | nil => exact List.forall_mem_nil _
  | cons v vs ih =>
    cases content with
    | cons first others => exact List.forall_mem_cons.mpr ⟨⟨_, first⟩, ih others⟩

theorem EntriesContent.of_mem {es : List (Value × Value)} {fs : List (String × Json)}
    (content : EntriesContent es fs) :
    ∀ e ∈ es, (∃ name, e.1 = .string name) ∧ ∃ j, e.2.Content j := by
  induction es generalizing fs with
  | nil => exact List.forall_mem_nil _
  | cons e es ih =>
    cases content with
    | cons name first others =>
      exact List.forall_mem_cons.mpr ⟨⟨⟨name, rfl⟩, _, first⟩, ih others⟩

/-- Whatever lies within such a value has a content, too. -/
theorem Value.Content.within {v part : Value} {j : Json} {n : Nat} (content : v.Content j)
    (lies : Lies part n v) : ∃ k, part.Content k := by
  induction lies generalizing j with
  | here => exact ⟨j, content⟩
  | item elements mem _ ih =>
    cases content with
    | list id items | tuple id items =>
      cases elements
      obtain ⟨k, item⟩ := items.of_mem _ mem
      exact ih item
    | _ => cases elements
  | entry mem _ ih =>
    cases content with
    | map id entries _ =>
      obtain ⟨-, k, value⟩ := entries.of_mem _ mem
      exact ih value

namespace Json

open Text (quote quoteChar)

/-! ## §2 Sequences -/

theorem skipBlanks_of_not_blank {c : Char} (notBlank : isBlank c = false) (cs : List Char) :
    skipBlanks (c :: cs) = c :: cs :=
  List.dropWhile_cons_of_neg (by simp [notBlank])

theorem skipBlanks_blank (cs : List Char) : skipBlanks (' ' :: cs) = skipBlanks cs := rfl

section Sequences

variable {α : Type} {item : List Char → Option (α × List Char)} {close : Char}

/-- A text is taken for `a`, whatever follows it that does not go on with a word. -/
def Takes (item : List Char → Option (α × List Char)) (text : List Char) (a : α) : Prop :=
  ∀ rest : List Char, rest.takeWhile isWordChar = [] → item (text ++ rest) = some (a, rest)

/-- A reader of the items before a closing mark: it skips a blank and does not take the mark for an
item. -/
structure Separable (item : List Char → Option (α × List Char)) (close : Char) : Prop where
  mark : isBlank close = false ∧ isWordChar close = false ∧ close ≠ ','
  blank : ∀ cs, item (' ' :: cs) = item cs
  closed : ∀ cs rest, skipBlanks cs = close :: rest → item cs = none

theorem itemsUntil_blank (separable : Separable item close) (n : Nat) (cs : List Char) :
    itemsUntil item close n (' ' :: cs) = itemsUntil item close n cs := by
  cases n with
  | zero => rfl
  | succ n => rw [itemsUntil, itemsUntil, separable.blank]

/-- Items with commas and blanks between them are taken one after the other. -/
theorem itemsUntil_takes (separable : Separable item close) {texts : List (List Char)} {as : List α}
    (each : List.Forall₂ (Takes item) texts as) (nonempty : texts ≠ []) {n : Nat}
    (steps : texts.length ≤ n) (rest : List Char) :
    itemsUntil item close n ([',', ' '].intercalate texts ++ close :: rest) = some (as, rest) := by
  obtain ⟨notBlank, noWord, notComma⟩ := separable.mark
  induction each generalizing n with
  | nil => exact absurd rfl nonempty
  | @cons text a texts as first others ih =>
    obtain ⟨n, rfl⟩ := Nat.exists_eq_add_one.mpr (Nat.zero_lt_of_lt steps)
    cases others with
    | nil =>
      -- The closing mark follows the last item.
      have taken := first (close :: rest) (by simp [noWord])
      rw [List.intercalate_singleton, itemsUntil, taken]
      simp [skipBlanks_of_not_blank notBlank]
    | @cons text' b texts as next others =>
      -- A comma follows every other one, and then the blank that the next item skips.
      have taken := first
        (',' :: ' ' :: ([',', ' '].intercalate (text' :: texts) ++ close :: rest)) rfl
      have remaining := ih (List.cons_ne_nil _ _) (Nat.le_of_succ_le_succ steps)
      rw [List.intercalate_cons_cons, List.append_assoc, List.append_assoc, List.cons_append,
        List.cons_append, List.nil_append, itemsUntil, taken]
      simp [skipBlanks_of_not_blank (c := ',') rfl, notComma.symm, itemsUntil_blank separable,
        remaining]

/-- The commas alone leave room for all the items. -/
theorem length_le_intercalate (texts : List (List Char)) :
    texts.length ≤ ([',', ' '].intercalate texts).length + 1 := by
  induction texts with
  | nil => exact Nat.zero_le _
  | cons text texts ih =>
    cases texts with
    | nil => simp
    | cons text' texts =>
      rw [List.intercalate_cons_cons]
      simp only [List.length_cons, List.length_append] at ih ⊢
      omega

/-- What ends with a closing mark does not consist of blanks. -/
theorem exists_skipBlanks (separable : Separable item close) (cs rest : List Char) :
    ∃ d ds, skipBlanks (cs ++ close :: rest) = d :: ds := by
  apply List.exists_cons_of_ne_nil
  intro none
  have all := List.dropWhile_eq_nil_iff.mp none close (by simp)
  rw [separable.mark.1] at all
  cases all

theorem sequence_takes (separable : Separable item close) {texts : List (List Char)} {as : List α}
    (each : List.Forall₂ (Takes item) texts as) (rest : List Char) :
    sequence item close ([',', ' '].intercalate texts ++ close :: rest) = some (as, rest) := by
  have steps : texts.length ≤ ([',', ' '].intercalate texts ++ close :: rest).length := by
    have := length_le_intercalate texts
    rw [List.length_append, List.length_cons]
    omega
  cases each with
  | nil =>
    unfold sequence
    rw [List.intercalate_nil, List.nil_append, skipBlanks_of_not_blank separable.mark.1]
    exact if_pos rfl
  | @cons text a texts as first others =>
    have taken := itemsUntil_takes separable (.cons first others) (List.cons_ne_nil _ _) steps rest
    obtain ⟨d, ds, start⟩ :=
      exists_skipBlanks separable ([',', ' '].intercalate (text :: texts)) rest
    -- What is taken for an item does not start with the closing mark.
    have notClosed : d ≠ close := by
      rintro rfl
      cases length : ([',', ' '].intercalate (text :: texts) ++ d :: rest).length with
      | zero => simp [length] at steps
      | succ n =>
        rw [length, itemsUntil, separable.closed _ ds start] at taken
        cases taken
    unfold sequence
    rw [start]
    exact (if_neg notClosed).trans taken

end Sequences

/-! ## §3 Values -/

theorem valueWithin_blank (depth : Nat) (cs : List Char) :
    valueWithin depth (' ' :: cs) = valueWithin depth cs := by
  cases depth with
  | zero => rfl
  | succ depth => rw [valueWithin, valueWithin, skipBlanks_blank]

theorem separable_valueWithin (depth : Nat) : Separable (valueWithin depth) ']' where
  mark := ⟨rfl, rfl, by decide⟩
  blank := valueWithin_blank depth
  closed cs rest start := by
    cases depth with
    | zero => rfl
    | succ depth =>
      rw [valueWithin, start]
      rfl

theorem separable_entry (value : List Char → Option (Json × List Char)) :
    Separable (entry value) '\x7d' where
  mark := ⟨rfl, rfl, by decide⟩
  blank cs := by rw [entry, entry, skipBlanks_blank]
  closed cs rest start := by
    rw [entry, start]
    rfl

section Values

variable {depth : Nat} {cs rest : List Char}

-- One lemma for each character that a value starts with.

theorem valueWithin_string {s : List Char} (taken : stringChars cs.length cs = some (s, rest)) :
    valueWithin (depth + 1) ('"' :: cs) = some (.string (String.ofList s), rest) := by
  rw [valueWithin, skipBlanks_of_not_blank rfl]
  show (stringChars cs.length cs >>= _) = _
  rw [taken]
  rfl

theorem valueWithin_array {items : List Json}
    (taken : sequence (valueWithin depth) ']' cs = some (items, rest)) :
    valueWithin (depth + 1) ('[' :: cs) = some (.array items, rest) := by
  rw [valueWithin, skipBlanks_of_not_blank rfl]
  show (sequence _ ']' cs >>= _) = _
  rw [taken]
  rfl

theorem valueWithin_object {entries : List (String × Json)}
    (taken : sequence (entry (valueWithin depth)) '\x7d' cs = some (entries, rest))
    (distinct : (entries.map Prod.fst).Nodup) :
    valueWithin (depth + 1) ('\x7b' :: cs) = some (.object entries, rest) := by
  rw [valueWithin, skipBlanks_of_not_blank rfl]
  show (sequence _ '\x7d' cs >>= _) = _
  rw [taken]
  exact if_pos distinct

theorem entry_quote {value : List Char → Option (Json × List Char)} {name ds : List Char}
    {j : Json} (taken : stringChars cs.length cs = some (name, ':' :: ds))
    (inner : value ds = some (j, rest)) :
    entry value ('"' :: cs) = some ((String.ofList name, j), rest) := by
  rw [entry, skipBlanks_of_not_blank rfl]
  show (stringChars cs.length cs >>= _) = _
  rw [taken]
  show (value ds >>= _) = _
  rw [inner]
  rfl

theorem isWordChar_marks {c : Char} (word : isWordChar c = true) :
    isBlank c = false ∧ c ≠ '"' ∧ c ≠ '[' ∧ c ≠ '\x7b' := by
  have other {d : Char} (mark : isWordChar d = false) : c ≠ d := by
    rintro rfl
    rw [word] at mark
    cases mark
  have blank : isBlank c = false := by
    unfold isBlank
    simp [other (d := ' ') rfl, other (d := '\t') rfl, other (d := '\n') rfl, other (d := '\r') rfl]
  exact ⟨blank, other rfl, other rfl, other rfl⟩

theorem valueWithin_word {c : Char} (word : isWordChar c = true) (cs : List Char) :
    valueWithin (depth + 1) (c :: cs) = (word? ((c :: cs).takeWhile isWordChar)).map
      (·, (c :: cs).dropWhile isWordChar) := by
  obtain ⟨blank, quote, array, object⟩ := isWordChar_marks word
  rw [valueWithin, skipBlanks_of_not_blank blank]
  split
  · rename_i same
    exact absurd (List.cons.inj same).1 quote
  · rename_i same
    exact absurd (List.cons.inj same).1 array
  · rename_i same
    exact absurd (List.cons.inj same).1 object
  · rfl

theorem takes_string (s : String) :
    Takes (valueWithin (depth + 1)) (quote s).toList (.string s) := by
  intro rest _
  rw [quote_append, valueWithin_string (stringChars_quote s.toList rest), String.ofList_toList]

theorem takes_word {text : List Char} {j : Json} (chars : ∀ c ∈ text, isWordChar c = true)
    (word : word? text = some j) : Takes (valueWithin (depth + 1)) text j := by
  intro rest ends
  obtain ⟨taken, left⟩ := scan_run chars ends
  cases text with
  | nil => cases word
  | cons c cs =>
    rw [List.cons_append] at taken left ⊢
    rw [valueWithin_word (chars c List.mem_cons_self), taken, left, word]
    rfl

theorem takes_array {texts : List (List Char)} {items : List Json}
    (each : List.Forall₂ (Takes (valueWithin depth)) texts items) :
    Takes (valueWithin (depth + 1)) ('[' :: ([',', ' '].intercalate texts ++ [']']))
      (.array items) := by
  intro rest _
  rw [List.cons_append, List.append_assoc]
  exact valueWithin_array (sequence_takes (separable_valueWithin depth) each rest)

theorem takes_entry {text : List Char} {j : Json} (name : String)
    (inner : Takes (valueWithin depth) text j) :
    Takes (entry (valueWithin depth)) ((quote name).toList ++ ':' :: ' ' :: text) (name, j) := by
  intro rest ends
  have value : valueWithin depth (' ' :: (text ++ rest)) = some (j, rest) :=
    (valueWithin_blank depth _).trans (inner rest ends)
  rw [List.append_assoc, quote_append, List.cons_append, List.cons_append,
    entry_quote (stringChars_quote name.toList _) value, String.ofList_toList]

theorem takes_object {texts : List (List Char)} {entries : List (String × Json)}
    (each : List.Forall₂ (Takes (entry (valueWithin depth))) texts entries)
    (distinct : (entries.map Prod.fst).Nodup) :
    Takes (valueWithin (depth + 1)) ('\x7b' :: ([',', ' '].intercalate texts ++ ['\x7d']))
      (.object entries) := by
  intro rest _
  rw [List.cons_append, List.append_assoc]
  exact valueWithin_object (sequence_takes (separable_entry _) each rest) distinct

end Values

/-- A text is read as what it is taken for. -/
theorem read_of_takes {text : String} {j : Json}
    (taken : Takes (valueWithin (text.length + 1)) text.toList j) : read text = some j := by
  have all := taken [] rfl
  rw [List.append_nil] at all
  unfold read
  rw [all]
  rfl

end Json

/-! ## §4 Documents -/

namespace Display

open Value Json
open Text (quote)

variable {v : Value} {j : Json} {depth levels : Nat} {s : String}

theorem isWordChar_of_isNumeric {c : Char} (numeric : IsNumeric c) : isWordChar c = true := by
  rcases numeric with digit | mark
  · simp [isWordChar, Char.isAlphanum, digit]
  · have marks : "+-.eINafinty".toList.all isWordChar = true := by decide
    exact List.all_eq_true.mp marks c mark

/-- A numeral is no word. -/
theorem word?_of_number {cs : List Char} {x : Number} (read : number? cs = some x) :
    word? cs = some (.number x) := by
  have other {word : List Char} (none : number? word = none) : cs ≠ word := by
    rintro rfl
    rw [none] at read
    cases read
  unfold word?
  rw [if_neg (other (by decide)), if_neg (other (by decide)), if_neg (other (by decide)), read]
  rfl

theorem takes_numeral {x : Number} (numeric : ∀ c ∈ s.toList, IsNumeric c)
    (read : number? s.toList = some x) :
    Takes (valueWithin (levels + 1)) s.toList (.number x) :=
  takes_word (fun c mem => isWordChar_of_isNumeric (numeric c mem)) (word?_of_number read)

theorem length_le_of_mem {text : String} {texts : List String} (mem : text ∈ texts) :
    text.length ≤ (String.intercalate ", " texts).length := by
  induction texts with
  | nil => cases mem
  | cons first texts ih =>
    cases texts with
    | nil =>
      rw [List.mem_singleton.mp mem, String.intercalate_singleton]
    | cons next texts =>
      rw [String.intercalate_cons_cons, String.length_append, String.length_append]
      rcases List.mem_cons.mp mem with rfl | mem
      · omega
      · have := ih mem
        omega

theorem takes_items {vs : List Value} {js : List Json} {texts : List String}
    (each : ∀ v s j, jsonWithin depth v = .ok s → v.Content j → s.length < levels →
      Takes (valueWithin levels) s.toList j)
    (written : vs.mapM (jsonWithin depth) = .ok texts) (content : ItemsContent vs js)
    (short : ∀ text ∈ texts, text.length < levels) :
    List.Forall₂ (Takes (valueWithin levels)) (texts.map String.toList) js := by
  induction vs generalizing js texts with
  | nil =>
    cases written
    cases content
    exact .nil
  | cons v vs ih =>
    obtain ⟨text, others, first, rest, rfl⟩ := Except.mapM_cons_eq_ok.mp written
    cases content with
    | cons one more =>
      rw [List.forall_mem_cons] at short
      exact .cons (each v text _ first one short.1) (ih rest more short.2)

theorem takes_entries {es : List (Value × Value)} {fs : List (String × Json)} {texts : List String}
    (each : ∀ v s j, jsonWithin depth v = .ok s → v.Content j → s.length < levels →
      Takes (valueWithin levels) s.toList j)
    (written : (es.mapM fun (k, v) => do
      return quote (← key k) ++ ": " ++ (← jsonWithin depth v)) = .ok texts)
    (content : EntriesContent es fs) (short : ∀ text ∈ texts, text.length < levels) :
    List.Forall₂ (Takes (entry (valueWithin levels))) (texts.map String.toList) fs := by
  induction es generalizing fs texts with
  | nil =>
    cases written
    cases content
    exact .nil
  | cons e es ih =>
    obtain ⟨text, others, first, rest, rfl⟩ := Except.mapM_cons_eq_ok.mp written
    cases content with
    | cons name one more =>
      rw [List.forall_mem_cons] at short
      -- The key is written before the value is.
      obtain ⟨_, named, first⟩ := Except.bind_eq_ok.mp first
      obtain ⟨value, inner, same⟩ := Except.bind_eq_ok.mp first
      cases named
      cases same
      have room : value.length < levels := by
        have := short.1
        rw [String.length_append] at this
        omega
      have taken := takes_entry name (each _ value _ inner one room)
      refine .cons ?_ (ih rest more short.2)
      simpa [String.toList_append] using taken

/-- What is written without brackets. -/
theorem takes_leaf (written : jsonWithin depth v = .ok s) (content : v.Content j)
    (leaf : ¬v.HasParts) : Takes (valueWithin (levels + 1)) s.toList j := by
  cases content with
  | null =>
    rw [jsonWithin] at written
    cases written
    exact takes_word (List.all_eq_true.mp (by decide)) rfl
  | bool b =>
    rw [jsonWithin] at written
    cases written
    cases b <;> exact takes_word (List.all_eq_true.mp (by decide)) rfl
  | int n =>
    rw [jsonWithin_number] at written
    obtain rfl := whole_eq_ok written
    exact takes_numeral (isNumeric_repr n) (number?_repr n)
  | double negative units representable =>
    rw [jsonWithin_number] at written
    cases written
    exact takes_numeral (isNumeric_json _) (number?_write negative representable)
  | string s =>
    rw [jsonWithin] at written
    cases written
    exact takes_string s
  | list | tuple => exact absurd (.inl rfl) leaf
  | map => exact absurd (.inr rfl) leaf

/-- The texts between brackets are shorter than what is written. -/
theorem length_lt_of_mem {opening closing text : String} {texts : List String}
    (room : (opening ++ String.intercalate ", " texts ++ closing).length < levels + 1)
    (nonempty : 0 < opening.length) (mem : text ∈ texts) : text.length < levels := by
  rw [String.length_append, String.length_append] at room
  have := length_le_of_mem mem
  omega

/-- A document is read back as the content of its value. -/
theorem takes_jsonWithin (written : jsonWithin depth v = .ok s) (content : v.Content j)
    (room : s.length < levels) : Takes (valueWithin levels) s.toList j := by
  -- Every bracket takes a character, so there are levels left for what is between the brackets.
  induction depth generalizing v s j levels with
  | zero =>
    obtain ⟨levels, rfl⟩ := Nat.exists_eq_add_one.mpr (Nat.zero_lt_of_lt room)
    apply takes_leaf written content
    exact (not_flaw_of_jsonWithin written .here).2 rfl
  | succ depth ih =>
    obtain ⟨levels, rfl⟩ := Nat.exists_eq_add_one.mpr (Nat.zero_lt_of_lt room)
    have each (v s j) : jsonWithin depth v = .ok s → v.Content j → s.length < levels →
        Takes (valueWithin levels) s.toList j := ih
    cases content with
    | list id items | tuple id items =>
      obtain ⟨texts, parts, same⟩ := Except.bind_eq_ok.mp written
      cases same
      have short (text) (mem : text ∈ texts) : text.length < levels :=
        length_lt_of_mem room Nat.one_pos mem
      have taken := takes_array (takes_items each parts items short)
      simpa [String.toList_append, String.toList_intercalate] using taken
    | map id entries distinct =>
      obtain ⟨texts, parts, same⟩ := Except.bind_eq_ok.mp written
      cases same
      have short (text) (mem : text ∈ texts) : text.length < levels :=
        length_lt_of_mem room Nat.one_pos mem
      have taken := takes_object (takes_entries each parts entries short) distinct
      simpa [String.toList_append, String.toList_intercalate] using taken
    | null | bool | int | double | string =>
      exact takes_leaf written (by constructor) (by simp [HasParts, isArray, elements?, entries?])

end Display

end Visibility
