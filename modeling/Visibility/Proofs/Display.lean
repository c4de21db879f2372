import Visibility.Display
import Visibility.Proofs.Conversion

/-!
# Which values can be shown

A value is shown unless something within it has no text, or it is nested too deeply or without an
end.  What is shown is one line of printable characters.

* `Value.Lies` — how deep a part lies within a value
* `Value.Flaw` — a part that no document can hold: a whole number of too many digits, or a mapping
  with a key that is none in a document
* `Value.display_eq_error`, `Value.not_displayed` — a value is shown exactly if nothing is wrong
  with it
* `Value.allPlain_display` — the characters of what is shown
-/

namespace Visibility

/-! ## §1 Printable characters -/

namespace Text

/-- A printable ASCII character. -/
def PlainChar (c : Char) : Prop :=
  ' ' ≤ c ∧ c ≤ '~'

/-- All characters are printable ones. -/
def AllPlain (cs : List Char) : Prop :=
  ∀ c ∈ cs, PlainChar c

instance (c : Char) : Decidable (PlainChar c) :=
  inferInstanceAs (Decidable (_ ∧ _))

-- The decision goes through the list; one through all characters would not end in time.
instance (cs : List Char) : Decidable (AllPlain cs) :=
  List.decidableBAll PlainChar cs

theorem allPlain_append {cs ds : List Char} : AllPlain (cs ++ ds) ↔ AllPlain cs ∧ AllPlain ds :=
  List.forall_mem_append

theorem allPlain_cons {c : Char} {cs : List Char} :
    AllPlain (c :: cs) ↔ PlainChar c ∧ AllPlain cs :=
  List.forall_mem_cons

theorem allPlain_replicate {c : Char} (plain : PlainChar c) (n : Nat) :
    AllPlain (List.replicate n c) :=
  fun _ mem => List.eq_of_mem_replicate mem ▸ plain

theorem plainChar_digitChar (d : Nat) : PlainChar (Nat.digitChar d) := by
  fun_cases Nat.digitChar <;> decide

/-- Digits are plain in every base. -/
theorem allPlain_toDigits {base : Nat} (large : 1 < base) (n : Nat) :
    AllPlain (Nat.toDigits base n) := by
  induction n using Nat.strongRecOn with
  | ind n ih =>
    rw [Nat.toDigits_eq_if large]
    split
    · exact List.forall_mem_singleton.mpr (plainChar_digitChar n)
    · rename_i notDigit
      have smaller : n / base < n := Nat.div_lt_self (by omega) large
      exact allPlain_append.mpr
        ⟨ih _ smaller, List.forall_mem_singleton.mpr (plainChar_digitChar _)⟩

theorem allPlain_unitEscape (unit : Nat) : AllPlain (unitEscape unit) := by
  simp only [unitEscape, fourDigits, allPlain_cons, allPlain_append]
  exact ⟨by decide, by decide, allPlain_replicate (by decide) _, allPlain_toDigits (by decide) unit⟩

theorem allPlain_quoteChar (c : Char) : AllPlain (quoteChar c) := by
  unfold quoteChar
  -- After the short escapes the character is plain itself, or it is escaped by its units.
  iterate 7 (split; · decide)
  split
  · rename_i plain
    exact List.forall_mem_singleton.mpr plain
  · unfold unicodeEscape
    dsimp only
    split
    · exact allPlain_unitEscape _
    · exact allPlain_append.mpr ⟨allPlain_unitEscape _, allPlain_unitEscape _⟩

/-- A text between quotes is plain, whatever the text is. -/
theorem allPlain_quote (s : String) : AllPlain (quote s).toList := by
  have inner : AllPlain (s.toList.flatMap quoteChar) := by
    intro d mem
    obtain ⟨c, -, mem⟩ := List.mem_flatMap.mp mem
    exact allPlain_quoteChar c d mem
  rw [quote, String.toList_ofList]
  exact allPlain_cons.mpr ⟨by decide, allPlain_append.mpr ⟨inner, by decide⟩⟩

theorem AllPlain.append {s t : String} (first : AllPlain s.toList) (second : AllPlain t.toList) :
    AllPlain (s ++ t).toList := by
  rw [String.toList_append]
  exact allPlain_append.mpr ⟨first, second⟩

theorem allPlain_intercalate {separator : String} {texts : List String}
    (between : AllPlain separator.toList) (each : ∀ text ∈ texts, AllPlain text.toList) :
    AllPlain (String.intercalate separator texts).toList := by
  induction texts with
  | nil => exact List.forall_mem_nil _
  | cons text texts ih =>
    rw [List.forall_mem_cons] at each
    cases texts with
    | nil => simpa using each.1
    | cons next texts =>
      rw [String.intercalate_cons_cons]
      exact (each.1.append between).append (ih each.2)

end Text

open Text (PlainChar AllPlain allPlain_intercalate allPlain_quote)

theorem IsNumeric.plainChar {c : Char} (h : IsNumeric c) : PlainChar c := by
  rcases h with digit | mark
  · simp only [Char.isDigit, Bool.and_eq_true, decide_eq_true_eq] at digit
    exact ⟨Char.le_trans (by decide) digit.1, Char.le_trans digit.2 (by decide)⟩
  · have marks : AllPlain "+-.eINafinty".toList := by decide
    exact marks c mark

/-! ## §2 Parts of a value -/

namespace Value

/-- The part lies within the value, with so many objects around it. -/
inductive Lies (part : Value) : Nat → Value → Prop where
  | here : Lies part 0 part
  | item {n : Nat} {v item : Value} {items : List Value} :
      v.elements? = some items → item ∈ items → Lies part n item → Lies part (n + 1) v
  | entry {n : Nat} {id : Identity} {entries : List (Value × Value)} {key v : Value} :
      (key, v) ∈ entries → Lies part n v → Lies part (n + 1) (.map id entries)

section Parts

variable {P : Value → Prop} {v w : Value} {id : Identity} {n : Nat}

/-- What holds of a value without parts holds of all that lies within it. -/
theorem Lies.of_no_parts (noElements : v.elements? = none) (noEntries : v.entries? = none)
    (own : P v) (lies : Lies w n v) : P w := by
  cases lies with
  | here => exact own
  | item elements => exact nomatch noElements.symm.trans elements
  | entry => cases noEntries

/-- What holds of a list and of all within its items holds of all within the list. -/
theorem Lies.of_list {items : List Value} (own : P (.list id items))
    (each : ∀ item ∈ items, ∀ n w, Lies w n item → P w) (lies : Lies w n (.list id items)) : P w := by
  cases lies with
  | here => exact own
  | item elements mem lies =>
    cases elements
    exact each _ mem _ _ lies

/-- What holds of a mapping and of all within its entries holds of all within the mapping. -/
theorem Lies.of_map {entries : List (Value × Value)} (own : P (.map id entries))
    (each : ∀ key v, (key, v) ∈ entries → ∀ n w, Lies w n v → P w)
    (lies : Lies w n (.map id entries)) : P w := by
  cases lies with
  | here => exact own
  | item elements => cases elements
  | entry mem lies => exact each _ _ mem _ _ lies

end Parts

/-- An entry that is found is one of the entries. -/
theorem mem_of_find? {key : String} {v : Value} {entries : List (Value × Value)}
    (found : find? key entries = some v) : ∃ k, (k, v) ∈ entries := by
  obtain ⟨⟨k, w⟩, mem, rfl⟩ := Option.map_eq_some_iff.mp found
  exact ⟨k, List.mem_of_find?_eq_some mem⟩

/-- Whether other values lie within it. -/
def HasParts (v : Value) : Prop :=
  v.isArray = true ∨ v.entries?.isSome = true

/-- A key that no document has. -/
inductive KeyFlaw : Value → DisplayError → Prop where
  | tooLong {n : Int} : Numeral.isTooLong n = true → KeyFlaw (.number (.int n)) .tooManyDigits
  | undefined : KeyFlaw .undefined .unwritableKey
  | decimal (d : Decimal) : KeyFlaw (.number (.decimal d)) .unwritableKey
  | object {k : Value} : k.kind = .object → KeyFlaw k .unwritableKey

/-- A part that no document has. -/
inductive Flaw : Value → DisplayError → Prop where
  | tooLong {n : Int} : Numeral.isTooLong n = true → Flaw (.number (.int n)) .tooManyDigits
  | key {id : Identity} {entries : List (Value × Value)} {k v : Value} {cause : DisplayError} :
      (k, v) ∈ entries → KeyFlaw k cause → Flaw (.map id entries) cause

end Value

/-! ## §3 Documents -/

namespace Display

open Value

variable {v part : Value} {cause : DisplayError} {n depth : Nat} {s : String}

theorem whole_eq_ok {n : Int} (written : whole n = .ok s) : s = n.repr := by
  unfold whole at written
  split at written
  · cases written
  · exact (Except.ok.inj written).symm

theorem whole_eq_error {n : Int} :
    whole n = .error cause ↔ Numeral.isTooLong n = true ∧ cause = .tooManyDigits := by
  unfold whole
  split
  · rename_i long
    rw [Except.error.injEq, and_iff_right long, eq_comm]
  · rename_i short
    exact ⟨nofun, fun ⟨long, _⟩ => absurd long short⟩

theorem number_eq_error {x : Number} (h : number x = .error cause) : Flaw (.number x) cause := by
  cases x with
  | int n =>
    obtain ⟨long, rfl⟩ := whole_eq_error.mp h
    exact .tooLong long
  | double | decimal => cases h

theorem jsonWithin_number (depth : Nat) (x : Number) :
    jsonWithin depth (.number x) = number x := by
  cases depth <;> rw [jsonWithin]

theorem key_eq_error {k : Value} : key k = .error cause ↔ KeyFlaw k cause := by
  constructor
  · intro h
    unfold key at h
    split at h
    · cases h
    · cases h
    · cases h
    · obtain ⟨long, rfl⟩ := whole_eq_error.mp h
      exact .tooLong long
    · cases h
    · -- What is left are the keys that no document has.
      rename_i notString notNull notBool notInt notDouble
      cases h
      cases k with
      | undefined => exact .undefined
      | number x =>
        cases x with
        | int n => exact absurd rfl (notInt n)
        | double x => exact absurd rfl (notDouble x)
        | decimal d => exact .decimal d
      | null => exact absurd rfl notNull
      | bool b => exact absurd rfl (notBool b)
      | string s => exact absurd rfl (notString s)
      | list | tuple | map | foreign => exact .object rfl
  · intro h
    cases h with
    | tooLong long => exact whole_eq_error.mpr ⟨long, rfl⟩
    | undefined | decimal => rfl
    | object isObject => cases k <;> first | rfl | cases isObject

/-- What a document of a value fails by lies within the value. -/
theorem jsonWithin_eq_error (h : jsonWithin depth v = .error cause) :
    (∃ n part, Lies part n v ∧ Flaw part cause) ∨
      cause = .nestedTooDeeply ∧ ∃ part, Lies part depth v ∧ part.HasParts := by
  induction depth generalizing v with
  | zero =>
    cases v with
    | number x =>
      rw [jsonWithin_number] at h
      exact .inl ⟨0, _, .here, number_eq_error h⟩
    | list id items | tuple id items =>
      cases h
      exact .inr ⟨rfl, _, .here, .inl rfl⟩
    | map id entries =>
      cases h
      exact .inr ⟨rfl, _, .here, .inr rfl⟩
    | _ => cases h
  | succ depth ih =>
    -- What is wrong with an item lies one level deeper in the array.
    have ofItems {items : List Value} (elements : v.elements? = some items)
        (failed : items.mapM (jsonWithin depth) = .error cause) :
        (∃ n part, Lies part n v ∧ Flaw part cause) ∨
          cause = .nestedTooDeeply ∧ ∃ part, Lies part (depth + 1) v ∧ part.HasParts := by
      obtain ⟨before, item, after, rfl, -, failed⟩ := Except.mapM_eq_error.mp failed
      have mem : item ∈ before ++ item :: after := by simp
      rcases ih failed with ⟨n, part, lies, flaw⟩ | ⟨deep, part, lies, parts⟩
      · exact .inl ⟨n + 1, part, .item elements mem lies, flaw⟩
      · exact .inr ⟨deep, part, .item elements mem lies, parts⟩
    cases v with
    | number x =>
      rw [jsonWithin_number] at h
      exact .inl ⟨0, _, .here, number_eq_error h⟩
    | list id items | tuple id items =>
      rcases Except.bind_eq_error.mp h with failed | ⟨_, _, impossible⟩
      · exact ofItems rfl failed
      · cases impossible
    | map id entries =>
      rcases Except.bind_eq_error.mp h with failed | ⟨_, _, impossible⟩
      · obtain ⟨before, ⟨k, w⟩, after, rfl, -, failed⟩ := Except.mapM_eq_error.mp failed
        have mem : (k, w) ∈ before ++ (k, w) :: after := by simp
        -- The key is written before the value is.
        rcases Except.bind_eq_error.mp failed with failed | ⟨_, _, failed⟩
        · exact .inl ⟨0, _, .here, .key mem (key_eq_error.mp failed)⟩
        · rcases Except.bind_eq_error.mp failed with failed | ⟨_, _, impossible⟩
          · rcases ih failed with ⟨n, part, lies, flaw⟩ | ⟨deep, part, lies, parts⟩
            · exact .inl ⟨n + 1, part, .entry mem lies, flaw⟩
            · exact .inr ⟨deep, part, .entry mem lies, parts⟩
          · cases impossible
      · cases impossible
    | _ => cases h

/-- The items of an array that has a document have documents one level less deep. -/
theorem jsonWithin_item {item : Value} {items : List Value} (elements : v.elements? = some items)
    (mem : item ∈ items) (h : jsonWithin depth v = .ok s) :
    ∃ depth' s', depth = depth' + 1 ∧ jsonWithin depth' item = .ok s' := by
  cases depth with
  | zero => cases v <;> cases elements <;> cases h
  | succ depth =>
    cases v with
    | list | tuple =>
      cases elements
      obtain ⟨texts, each, -⟩ := Except.bind_eq_ok.mp h
      obtain ⟨s', written⟩ := Except.exists_of_mapM each item mem
      exact ⟨depth, s', rfl, written⟩
    | _ => cases elements

/-- So have the values of the entries of a mapping, and its keys are those of a document. -/
theorem jsonWithin_entry {id : Identity} {entries : List (Value × Value)} {k w : Value}
    (mem : (k, w) ∈ entries) (h : jsonWithin depth (.map id entries) = .ok s) :
    ∃ depth' s' name, depth = depth' + 1 ∧ key k = .ok name ∧ jsonWithin depth' w = .ok s' := by
  cases depth with
  | zero => cases h
  | succ depth =>
    obtain ⟨texts, each, -⟩ := Except.bind_eq_ok.mp h
    obtain ⟨text, written⟩ := Except.exists_of_mapM each (k, w) mem
    obtain ⟨name, key, rest⟩ := Except.bind_eq_ok.mp written
    obtain ⟨s', value, -⟩ := Except.bind_eq_ok.mp rest
    exact ⟨depth, s', name, rfl, key, value⟩

/-- A value that has a document has nothing within it that no document has. -/
theorem not_flaw_of_jsonWithin (h : jsonWithin depth v = .ok s) (lies : Lies part n v) :
    (∀ cause, ¬ Flaw part cause) ∧ (n = depth → ¬ part.HasParts) := by
  induction lies generalizing depth s with
  -- A flaw refuses the document where it lies, and the levels around it pass the refusal on.
  | here =>
    constructor
    · rintro cause (long | ⟨mem, flaw⟩)
      · rw [jsonWithin_number] at h
        exact nomatch (whole_eq_error.mpr ⟨long, rfl⟩).symm.trans h
      · obtain ⟨_, _, name, -, key, -⟩ := jsonWithin_entry mem h
        exact nomatch (key_eq_error.mpr flaw).symm.trans key
    · rintro rfl (array | mapping)
      · cases part <;> cases array <;> cases h
      · cases part <;> cases mapping
        cases h
  | item elements mem _ ih =>
    obtain ⟨depth, s', rfl, written⟩ := jsonWithin_item elements mem h
    obtain ⟨noFlaw, notDeep⟩ := ih written
    exact ⟨noFlaw, fun same => notDeep (Nat.succ.inj same)⟩
  | entry mem _ ih =>
    obtain ⟨depth, s', -, rfl, -, written⟩ := jsonWithin_entry mem h
    obtain ⟨noFlaw, notDeep⟩ := ih written
    exact ⟨noFlaw, fun same => notDeep (Nat.succ.inj same)⟩

/-! ## §4 The characters of documents -/

theorem allPlain_repr (n : Int) : AllPlain n.repr.toList :=
  fun c mem => (isNumeric_repr n c mem).plainChar

theorem allPlain_whole {n : Int} (h : whole n = .ok s) : AllPlain s.toList := by
  rw [whole_eq_ok h]
  exact allPlain_repr n

theorem allPlain_number {x : Number} (h : number x = .ok s) : AllPlain s.toList := by
  cases x with
  | int n => exact allPlain_whole h
  | double x =>
    cases h
    exact fun c mem => (isNumeric_json x c mem).plainChar
  | decimal d =>
    cases h
    exact allPlain_quote _

theorem allPlain_truth (b : Bool) : AllPlain (if b then "true" else "false").toList := by
  cases b <;> decide

/-- The document of a value without parts is plain: what is no number or word is quoted. -/
theorem allPlain_leaf (leaf : ¬ v.HasParts) (h : jsonWithin depth v = .ok s) :
    AllPlain s.toList := by
  cases v with
  | undefined | string | foreign =>
    rw [jsonWithin] at h
    cases h
    exact allPlain_quote _
  | null =>
    rw [jsonWithin] at h
    cases h
    decide
  | bool b =>
    rw [jsonWithin] at h
    cases h
    exact allPlain_truth b
  | number x =>
    rw [jsonWithin_number] at h
    exact allPlain_number h
  | list | tuple => exact absurd (.inl rfl) leaf
  | map => exact absurd (.inr rfl) leaf

/-- A document is plain, and so are the brackets, commas and quoted keys around its parts. -/
theorem allPlain_jsonWithin (h : jsonWithin depth v = .ok s) : AllPlain s.toList := by
  induction depth generalizing v s with
  | zero =>
    -- At the last level only values without parts have documents.
    refine allPlain_leaf ?_ h
    exact (not_flaw_of_jsonWithin h .here).2 rfl
  | succ depth ih =>
    cases v with
    | list id items | tuple id items =>
      obtain ⟨texts, each, written⟩ := Except.bind_eq_ok.mp h
      cases written
      refine (AllPlain.append (by decide) (allPlain_intercalate (by decide) ?_)).append
        (by decide)
      intro text mem
      obtain ⟨item, -, written⟩ := Except.of_mem_mapM each text mem
      exact ih written
    | map id entries =>
      obtain ⟨texts, each, written⟩ := Except.bind_eq_ok.mp h
      cases written
      refine (AllPlain.append (by decide) (allPlain_intercalate (by decide) ?_)).append
        (by decide)
      intro text mem
      obtain ⟨⟨k, w⟩, -, written⟩ := Except.of_mem_mapM each text mem
      obtain ⟨name, -, rest⟩ := Except.bind_eq_ok.mp written
      obtain ⟨value, inner, rest⟩ := Except.bind_eq_ok.mp rest
      cases rest
      exact ((allPlain_quote name).append (by decide)).append (ih inner)
    | _ => exact allPlain_leaf (by simp [HasParts, isArray, elements?, entries?]) h

end Display

/-! ## §5 Shown values -/

namespace Value

variable {v : Value} {cause : DisplayError} {s : String}

/-- What is wrong with a value that cannot be shown. -/
inductive Unshowable (v : Value) : DisplayError → Prop where
  | number {x : Number} {cause : CoercionError} :
      v = .number x → x.Unwritable cause → Unshowable v (.coercion cause)
  | endless : v.isEndless [] = true → Unshowable v .endless
  | flaw {n : Nat} {part : Value} {cause : DisplayError} :
      v.kind = .object → Lies part n v → Flaw part cause → Unshowable v cause
  | deep {part : Value} :
      Lies part Display.depth v → part.HasParts → Unshowable v .nestedTooDeeply

/-- A value is shown as a document if it is an object or a string. -/
theorem display_document (h : v.kind = .object ∨ v.kind = .string) :
    v.display = if v.isEndless [] then .error .endless else Display.jsonWithin Display.depth v := by
  cases v with
  | string | list | tuple | map | foreign => rfl
  | _ => simp [kind] at h

theorem display_text (h : ¬(v.kind = .object ∨ v.kind = .string)) :
    v.display = match v.text with
      | .ok s => .ok s
      | .error cause => .error (.coercion cause) := by
  cases v with
  | undefined | null | bool | number => rfl
  | _ => simp [kind] at h

theorem display_number (x : Number) :
    (Value.number x).display = match x.text with
      | .ok s => .ok s
      | .error cause => .error (.coercion cause) := by
  rw [display_text (by simp [kind]), text, textWithin]

/-- A value that is not shown has something wrong with it. -/
theorem display_eq_error (h : v.display = .error cause) : v.Unshowable cause := by
  by_cases document : v.kind = .object ∨ v.kind = .string
  · rw [display_document document] at h
    split at h
    · rename_i endless
      cases h
      exact .endless endless
    · rcases Display.jsonWithin_eq_error h with ⟨n, part, lies, flaw⟩ | ⟨rfl, part, lies, parts⟩
      · refine .flaw (document.resolve_right fun isString => ?_) lies flaw
        -- Nothing lies within a string, and no string is a flaw.
        cases v <;> cases isString
        cases lies with
        | here => cases flaw
        | item elements => cases elements
      · exact .deep lies parts
  · cases v with
    | number x =>
      rw [display_number] at h
      split at h
      · cases h
      · rename_i refusal failed
        cases h
        exact .number rfl (Number.text_eq_error.mp failed)
    | undefined | null | bool =>
      rw [display_text document] at h
      cases h
    | _ => exact absurd (by simp [kind]) document

theorem HasParts.kind {v : Value} (h : v.HasParts) : v.kind = .object := by
  rcases h with array | mapping
  · cases v <;> first | rfl | cases array
  · cases v <;> first | rfl | cases mapping

/-- What has parts lies within something that has parts. -/
theorem Lies.hasParts {part : Value} {n : Nat} (lies : Lies part n v) (parts : part.HasParts) :
    v.HasParts := by
  cases lies with
  | here => exact parts
  | item elements => exact .inl (by rw [isArray, elements]; rfl)
  | entry => exact .inr rfl

/-- A value with something wrong with it is not shown. -/
theorem not_displayed (h : v.Unshowable cause) : ∃ cause', v.display = .error cause' := by
  -- Objects are shown as documents and as nothing else.
  have asDocument (isObject : v.kind = .object)
      (refused : ∀ s, Display.jsonWithin Display.depth v ≠ .ok s) :
      ∃ cause', v.display = .error cause' := by
    rw [display_document (.inl isObject)]
    split
    · exact ⟨_, rfl⟩
    · cases written : Display.jsonWithin Display.depth v with
      | error cause' => exact ⟨cause', rfl⟩
      | ok s => exact absurd written (refused s)
  cases h with
  | number same refused =>
    subst same
    rw [display_number, Number.text_eq_error.mpr refused]
    exact ⟨_, rfl⟩
  | endless endless =>
    have isObject : v.kind = .object := by
      cases v <;> first | rfl | cases endless
    exact ⟨.endless, by rw [display_document (.inl isObject), if_pos endless]⟩
  | flaw isObject lies flaw =>
    exact asDocument isObject fun s written =>
      (Display.not_flaw_of_jsonWithin written lies).1 _ flaw
  | deep lies parts =>
    exact asDocument (lies.hasParts parts).kind fun s written =>
      (Display.not_flaw_of_jsonWithin written lies).2 rfl parts

/-- What is shown is one line of printable characters. -/
theorem allPlain_display (h : v.display = .ok s) : AllPlain s.toList := by
  by_cases document : v.kind = .object ∨ v.kind = .string
  · rw [display_document document] at h
    split at h
    · cases h
    · exact Display.allPlain_jsonWithin h
  · -- What is shown without a document is a word or a number.
    cases v with
    | undefined | null =>
      rw [display_text document] at h
      cases h
      decide
    | bool b =>
      rw [display_text document] at h
      cases h
      exact Display.allPlain_truth b
    | number x =>
      rw [display_number] at h
      split at h
      · rename_i written
        cases h
        exact fun c mem => (Number.isNumeric_text written c mem).plainChar
      · cases h
    | _ => exact absurd (by simp [kind]) document

end Value

end Visibility
