import Visibility.Proofs.Conversion

/-!
# Hazards

A value is a hazard if converting or comparing it may be refused: a number that cannot be written or
compared, or a string that is too large a radix numeral.  An array is no hazard, but its text is made
of the texts of its elements, so a hazard within it counts as well.

Whatever a conversion or comparison of values refuses goes back to a hazard within one of its
operands, unless arrays are nested too deeply to be written.

* `textWithin_eq_error`, `holdsHazard_of_tooLarge` — texts that are refused, or refused as numbers
* `strictEquals_eq_error`, `looseEquals_eq_error`, `relate_eq_error`, `isTruthy_eq_error` — the
  comparisons
-/

namespace Visibility

/-! ## §1 Too large numerals -/

namespace Text

variable {p : Char → Bool} {c : Char} {cs : List Char}

theorem mem_of_mem_trim (mem : c ∈ trim p cs) : c ∈ cs := by
  unfold trim at mem
  have inner := (List.dropWhile_sublist p).mem (List.mem_reverse.mp mem)
  exact (List.dropWhile_sublist p).mem (List.mem_reverse.mp inner)

theorem mem_dropWhile (mem : c ∈ cs) (kept : p c = false) : c ∈ cs.dropWhile p := by
  rw [← List.takeWhile_append_dropWhile (p := p) (l := cs), List.mem_append] at mem
  rcases mem with dropped | mem
  · have all : (cs.takeWhile p).all p = true := List.all_takeWhile
    have := List.all_eq_true.mp all c dropped
    rw [kept] at this
    cases this
  · exact mem

/-- Only the characters to be trimmed are lost. -/
theorem mem_trim (mem : c ∈ cs) (kept : p c = false) : c ∈ trim p cs := by
  unfold trim
  rw [List.mem_reverse]
  refine mem_dropWhile ?_ kept
  rw [List.mem_reverse]
  exact mem_dropWhile mem kept

end Text

namespace Numeral

variable {s : String}

theorem TooLarge.radixLetter (large : TooLarge s) : ∃ c ∈ s.toList, ¬NoRadix c := by
  obtain ⟨n, radix, _⟩ := large
  obtain ⟨letter, digits, base, isBaseDigit, same, known, _⟩ := radixNumeral?_eq_some radix
  have mem : letter ∈ Text.trimSpaces s.toList := by
    rw [same]
    simp
  refine ⟨letter, Text.mem_of_mem_trim mem, fun plain => ?_⟩
  rw [NoRadix, known] at plain
  cases plain

/-- A comma is no digit of any base. -/
theorem comma_of_radix? {letter : Char} {base : Nat} {isBaseDigit : Char → Bool}
    (known : radix? letter = some (base, isBaseDigit)) : isBaseDigit ',' = false := by
  unfold radix? at known
  split at known <;> cases known <;> decide

/-- A text with a comma is no radix numeral. -/
theorem radixNumeral?_of_comma {cs : List Char} (mem : ',' ∈ cs) : radixNumeral? cs = none := by
  by_contra some
  obtain ⟨n, radix⟩ := Option.ne_none_iff_exists'.mp some
  obtain ⟨letter, digits, base, isBaseDigit, rfl, known, all⟩ := radixNumeral?_eq_some radix
  simp only [List.mem_cons] at mem
  rcases mem with zero | rfl | digit
  · exact absurd zero (by decide)
  · cases known
  · have := List.all_eq_true.mp all ',' digit
    rw [comma_of_radix? known] at this
    cases this

/-- The texts of several things, joined by commas, are no numeral. -/
theorem TooLarge.no_comma (large : TooLarge s) : ',' ∉ s.toList := by
  intro mem
  obtain ⟨n, radix, _⟩ := large
  have trimmed : ',' ∈ Text.trimSpaces s.toList := Text.mem_trim mem (by decide)
  rw [radixNumeral?_of_comma trimmed] at radix
  cases radix

theorem not_tooLarge_of_noRadix (plain : ∀ c ∈ s.toList, NoRadix c) : ¬TooLarge s := by
  intro large
  obtain ⟨c, mem, letter⟩ := large.radixLetter
  exact letter (plain c mem)

/-- A joined text is too large a numeral only if it is the text of a single thing. -/
theorem eq_singleton_of_tooLarge {texts : List String}
    (large : TooLarge (String.intercalate "," texts)) : texts = [String.intercalate "," texts] := by
  rcases texts with _ | ⟨t, _ | ⟨u, texts⟩⟩
  · exact absurd large (not_tooLarge_of_noRadix (by simp))
  · rw [String.intercalate_singleton]
  · refine absurd ?_ large.no_comma
    rw [String.intercalate_cons_cons]
    simp

end Numeral

namespace Value

/-! ## §2 Hazards -/

/-- The value `w` is `v` or an element of an array within `v`. -/
inductive Within (w : Value) : Value → Prop where
  | self : Within w w
  | element {v item : Value} {items : List Value} :
      v.elements? = some items → item ∈ items → Within w item → Within w v

/-- A value that some conversion or comparison refuses, and how that fails. -/
inductive Hazard : Value → CoercionError → Prop where
  | number {x : Number} {cause : CoercionError} :
      x.Unwritable cause → Hazard (.number x) cause
  | string {s : String} : Numeral.TooLarge s → Hazard (.string s) .integerTooLarge

/-- There is a hazard within the value. -/
def HoldsHazard (v : Value) (cause : CoercionError) : Prop :=
  ∃ w, Within w v ∧ Hazard w cause

variable {v a b : Value} {cause : CoercionError}

theorem Hazard.holds (h : Hazard v cause) : v.HoldsHazard cause :=
  ⟨v, .self, h⟩

theorem HoldsHazard.of_element {item : Value} {items : List Value} (h : item.HoldsHazard cause)
    (elements : v.elements? = some items) (mem : item ∈ items) : v.HoldsHazard cause := by
  obtain ⟨w, within, hazard⟩ := h
  exact ⟨w, .element elements mem within, hazard⟩

/-- A number that cannot be compared is a hazard. -/
theorem hazard_of_isSignaling {x : Number} (signaling : x.exact.isSignaling = true) :
    Hazard (.number x) .signalingNaN := by
  cases x with
  | int n => cases signaling
  | double x => cases x <;> cases signaling
  | decimal d =>
    cases d with
    | finite value => cases signaling
    | infinite negative => cases signaling
    | nan negative refused payload =>
      obtain rfl : refused = true := signaling
      exact .number .signaling

/-- A hazard fails in one of the three ways in which numbers are refused. -/
theorem Hazard.cause_cases (h : Hazard v cause) :
    cause = .integerTooLarge ∨ cause = .decimalTooLarge ∨ cause = .signalingNaN := by
  cases h with
  | number refused => cases refused <;> simp
  | string large => exact .inl rfl

/-! ## §3 Texts -/

/-- A text that is refused goes back to a hazard within the value. -/
theorem textWithin_eq_error {depth : Nat} (h : v.textWithin depth = .error cause) :
    cause = .nestedTooDeeply ∨ v.HoldsHazard cause := by
  induction depth generalizing v with
  | zero =>
    cases v with
    | number x => exact .inr (Hazard.number (Number.text_eq_error.mp h)).holds
    | list id items | tuple id items =>
      cases h
      exact .inl rfl
    | _ => cases h
  | succ depth ih =>
    -- The first element that is refused has the hazard within it.
    have refused {items : List Value}
        (failed : (items.mapM fun item =>
          if item.isAbsent then .ok "" else item.textWithin depth) = .error cause) :
        ∃ item ∈ items, cause = .nestedTooDeeply ∨ item.HoldsHazard cause := by
      obtain ⟨before, item, after, rfl, _, failed⟩ := Except.mapM_eq_error.mp failed
      refine ⟨item, by simp, ?_⟩
      split at failed
      · cases failed
      · exact ih failed
    cases v with
    | number x => exact .inr (Hazard.number (Number.text_eq_error.mp h)).holds
    | list id items | tuple id items =>
      rw [textWithin, Except.bind_eq_error] at h
      rcases h with failed | ⟨_, _, impossible⟩
      · obtain ⟨item, mem, deep | hazard⟩ := refused failed
        · exact .inl deep
        · exact .inr (hazard.of_element rfl mem)
      · cases impossible
    | _ => cases h

/-- Only a single element has a single text. -/
theorem eq_singleton_of_mapM {f : Value → Except CoercionError String} {items : List Value}
    {t : String} (h : items.mapM f = .ok [t]) : ∃ item, items = [item] ∧ f item = .ok t := by
  rcases items with _ | ⟨item, _ | ⟨other, items⟩⟩
  · cases h
  · simp only [List.mapM_cons, List.mapM_nil, Except.bind_eq_ok] at h
    obtain ⟨u, read, _, last, same⟩ := h
    cases last
    cases same
    exact ⟨item, rfl, read⟩
  · simp only [List.mapM_cons, Except.bind_eq_ok] at h
    obtain ⟨_, _, _, ⟨_, _, _, _, rest⟩, same⟩ := h
    cases rest
    cases same

/-- The text of a value that is neither a string nor an array is not too large a numeral. -/
theorem not_tooLarge_text {depth : Nat} {s : String} (h : v.textWithin depth = .ok s)
    (noString : v.kind ≠ .string) (noArray : v.elements? = none) : ¬Numeral.TooLarge s := by
  cases v with
  | string t => exact absurd rfl noString
  | list id items | tuple id items => cases noArray
  -- A number is not written with a radix, and the other texts are fixed words.
  | number x =>
    have written : x.text = .ok s := by cases depth <;> exact h
    exact Numeral.not_tooLarge_of_noRadix (Number.noRadix_text written)
  | map id entries | foreign id thing =>
    obtain rfl : objectText = s := by cases depth <;> exact Except.ok.inj h
    rintro ⟨n, radix, _⟩
    have none : Numeral.radixNumeral? (Text.trimSpaces objectText.toList) = none := by decide
    rw [none] at radix
    cases radix
  | undefined =>
    obtain rfl : "undefined" = s := by cases depth <;> exact Except.ok.inj h
    exact Numeral.not_tooLarge_of_noRadix (by simp [NoRadix, Numeral.radix?])
  | null =>
    obtain rfl : "null" = s := by cases depth <;> exact Except.ok.inj h
    exact Numeral.not_tooLarge_of_noRadix (by simp [NoRadix, Numeral.radix?])
  | bool b =>
    obtain rfl : (if b then "true" else "false") = s := by cases depth <;> exact Except.ok.inj h
    exact Numeral.not_tooLarge_of_noRadix (by cases b <;> simp [NoRadix, Numeral.radix?])

/-- A text that is too large a numeral is that of a string within the value. -/
theorem holdsHazard_of_tooLarge {depth : Nat} {s : String} (h : v.textWithin depth = .ok s)
    (large : Numeral.TooLarge s) : v.HoldsHazard .integerTooLarge := by
  induction depth generalizing v s with
  | zero =>
    cases v with
    | string t =>
      obtain rfl : t = s := Except.ok.inj h
      exact (Hazard.string large).holds
    | list id items | tuple id items => cases h
    | _ => exact absurd large (not_tooLarge_text h nofun rfl)
  | succ depth ih =>
    -- The text of an array is that of its one element.
    have single {items : List Value}
        (joined : (do
          let texts ← items.mapM fun item =>
            if item.isAbsent then .ok "" else item.textWithin depth
          return String.intercalate "," texts) = (.ok s : Except CoercionError String)) :
        ∃ item ∈ items, item.HoldsHazard .integerTooLarge := by
      obtain ⟨texts, all, same⟩ := Except.bind_eq_ok.mp joined
      obtain rfl : String.intercalate "," texts = s := Except.ok.inj same
      rw [Numeral.eq_singleton_of_tooLarge large] at all
      obtain ⟨item, rfl, read⟩ := eq_singleton_of_mapM all
      refine ⟨item, List.mem_singleton_self _, ?_⟩
      split at read
      · have empty := Except.ok.inj read
        rw [← empty] at large
        exact absurd large (Numeral.not_tooLarge_of_noRadix (by simp))
      · exact ih read large
    cases v with
    | string t =>
      obtain rfl : t = s := Except.ok.inj h
      exact (Hazard.string large).holds
    | list id items | tuple id items =>
      obtain ⟨item, mem, hazard⟩ := single h
      exact hazard.of_element rfl mem
    | _ => exact absurd large (not_tooLarge_text h nofun rfl)

/-! ## §4 Conversions -/

theorem toPrimitive_eq_error (h : v.toPrimitive = .error cause) :
    cause = .nestedTooDeeply ∨ v.HoldsHazard cause := by
  unfold toPrimitive at h
  split at h
  · exact textWithin_eq_error (Except.map_eq_error.mp h)
  · cases h

/-- Making a value primitive brings no hazard in. -/
theorem HoldsHazard.of_toPrimitive {w : Value} (h : v.toPrimitive = .ok w)
    (hazard : w.HoldsHazard cause) : v.HoldsHazard cause := by
  unfold toPrimitive at h
  split at h
  · obtain ⟨s, text, rfl⟩ := Except.map_eq_ok.mp h
    obtain ⟨leaf, within, hazard⟩ := hazard
    cases within with
    | self =>
      cases hazard with
      | string large => exact holdsHazard_of_tooLarge text large
    | element elements _ _ => cases elements
  · cases h
    exact hazard

theorem toNumber_eq_error (h : v.toNumber = .error cause) :
    cause = .nestedTooDeeply ∨ v.HoldsHazard cause := by
  have object (converted : (do
      return Number.double (← Numeral.stringValue (← v.text))) = .error cause) :
      cause = .nestedTooDeeply ∨ v.HoldsHazard cause := by
    rcases Except.bind_eq_error.mp converted with failed | ⟨s, text, failed⟩
    · exact textWithin_eq_error failed
    · rcases Except.bind_eq_error.mp failed with failed | ⟨_, _, impossible⟩
      · obtain ⟨large, rfl⟩ := Numeral.stringValue_eq_error.mp failed
        exact .inr (holdsHazard_of_tooLarge text large)
      · cases impossible
  cases v with
  | string s =>
    obtain ⟨large, rfl⟩ := Numeral.stringValue_eq_error.mp (Except.map_eq_error.mp h)
    exact .inr (Hazard.string large).holds
  | list id items | tuple id items | map id entries | foreign id thing => exact object h
  | _ => cases h

/-- No double is a hazard, and neither are the numbers of the truth values. -/
theorem not_holdsHazard_number {x : Number} (quiet : ∀ cause, ¬x.Unwritable cause) :
    ¬(number x).HoldsHazard cause := by
  rintro ⟨leaf, within, hazard⟩
  cases within with
  | self =>
    cases hazard with
    | number refused => exact quiet _ refused
  | element elements _ _ => cases elements

theorem not_unwritable_small {n : Int} (small : n.natAbs ≤ 1) (cause : CoercionError) :
    ¬(Number.int n).Unwritable cause := by
  intro refused
  cases refused with
  | int large =>
    have start : 1 < Double.overflowStart := by decide +kernel
    exact absurd (Nat.le_trans large small) (Nat.not_le.mpr start)

/-- The number of a value brings no hazard in. -/
theorem HoldsHazard.of_toNumber {x : Number} (h : v.toNumber = .ok x)
    (hazard : (number x).HoldsHazard cause) : v.HoldsHazard cause := by
  -- What is read from a text is a double, in which there is no hazard.
  have double (d : Double) : ¬(number (.double d)).HoldsHazard cause :=
    not_holdsHazard_number fun _ refused => nomatch refused
  have object (converted : (do
      return Number.double (← Numeral.stringValue (← v.text))) =
        (.ok x : Except CoercionError Number)) : v.HoldsHazard cause := by
    obtain ⟨_, _, rest⟩ := Except.bind_eq_ok.mp converted
    obtain ⟨d, _, same⟩ := Except.bind_eq_ok.mp rest
    cases same
    exact absurd hazard (double d)
  cases v with
  | number y =>
    cases h
    exact hazard
  | undefined =>
    cases h
    exact absurd hazard (double _)
  | null =>
    cases h
    exact absurd hazard (not_holdsHazard_number (not_unwritable_small (by decide)))
  | bool b =>
    cases h
    exact absurd hazard (not_holdsHazard_number (not_unwritable_small (by cases b <;> decide)))
  | string s =>
    obtain ⟨d, _, rfl⟩ := Except.map_eq_ok.mp h
    exact absurd hazard (double d)
  | list id items | tuple id items | map id entries | foreign id thing => exact object h

/-! ## §5 Comparisons -/

/-- A comparison of numbers that is refused has a hazard on one of its sides. -/
theorem holdsHazard_of_order? {x y : Number} (h : x.order? y = .error cause) :
    (number x).HoldsHazard cause ∨ (number y).HoldsHazard cause := by
  obtain ⟨left | right, rfl⟩ := Number.order?_eq_error.mp h
  · exact .inl (hazard_of_isSignaling left).holds
  · exact .inr (hazard_of_isSignaling right).holds

theorem holdsHazard_of_equals {x y : Number} (h : x.equals y = .error cause) :
    (number x).HoldsHazard cause ∨ (number y).HoldsHazard cause :=
  holdsHazard_of_order? (Except.map_eq_error.mp h)

theorem isTruthy_eq_error :
    v.isTruthy = .error cause ↔
      ∃ x : Number, v = .number x ∧ x.exact.isSignaling = true ∧ cause = .signalingNaN := by
  cases v with
  | number x => simp [isTruthy, Number.isTruthy_eq_error]
  | _ => simp [isTruthy]

theorem strictEquals_eq_error (h : a.strictEquals b = .error cause) :
    a.HoldsHazard cause ∨ b.HoldsHazard cause := by
  unfold strictEquals at h
  split at h
  · cases h
  · cases h
  · cases h
  · exact holdsHazard_of_equals h
  · cases h
  · cases h

/-- One step of a loose comparison is refused only for a hazard of its operands. -/
theorem looseStep_eq_error (h : a.looseStep b = .error cause) :
    cause = .nestedTooDeeply ∨ a.HoldsHazard cause ∨ b.HoldsHazard cause := by
  unfold looseStep at h
  split at h
  · rcases Except.bind_eq_error.mp h with refused | ⟨_, _, impossible⟩
    · exact .inr (strictEquals_eq_error refused)
    · cases impossible
  · split at h
    · cases h
    · split at h
      · rename_i x s _ _
        rcases Except.bind_eq_error.mp h with refused | ⟨y, read, compared⟩
        · exact (toNumber_eq_error refused).imp_right .inr
        · rcases Except.bind_eq_error.mp compared with refused | ⟨_, _, impossible⟩
          · exact .inr ((holdsHazard_of_equals refused).imp_right (.of_toNumber read))
          · cases impossible
      · rename_i s y _ _
        rcases Except.bind_eq_error.mp h with refused | ⟨x, read, compared⟩
        · exact (toNumber_eq_error refused).imp_right .inl
        · rcases Except.bind_eq_error.mp compared with refused | ⟨_, _, impossible⟩
          · exact .inr ((holdsHazard_of_equals refused).imp_left (.of_toNumber read))
          · cases impossible
      · cases h
      · cases h
      · -- What is left are the conversions of objects.
        split at h
        · rcases Except.bind_eq_error.mp h with refused | ⟨_, _, impossible⟩
          · exact (toPrimitive_eq_error refused).imp_right .inl
          · cases impossible
        · split at h
          · rcases Except.bind_eq_error.mp h with refused | ⟨_, _, impossible⟩
            · exact (toPrimitive_eq_error refused).imp_right .inr
            · cases impossible
          · cases h

/-- One step of a loose comparison brings no hazard in. -/
theorem looseStep_eq_convert {a' b' : Value} (h : a.looseStep b = .ok (.convert a' b')) :
    (a'.HoldsHazard cause → a.HoldsHazard cause) ∧ (b'.HoldsHazard cause → b.HoldsHazard cause) := by
  unfold looseStep at h
  split at h
  · obtain ⟨_, _, same⟩ := Except.bind_eq_ok.mp h
    cases same
  · split at h
    · cases h
    · -- Only the last cases convert: a boolean to its number, or an object to its text.
      split at h
      · obtain ⟨_, _, compared⟩ := Except.bind_eq_ok.mp h
        obtain ⟨_, _, same⟩ := Except.bind_eq_ok.mp compared
        cases same
      · obtain ⟨_, _, compared⟩ := Except.bind_eq_ok.mp h
        obtain ⟨_, _, same⟩ := Except.bind_eq_ok.mp compared
        cases same
      · obtain ⟨x, read, same⟩ := Except.bind_eq_ok.mp h
        cases same
        exact ⟨.of_toNumber read, id⟩
      · obtain ⟨y, read, same⟩ := Except.bind_eq_ok.mp h
        cases same
        exact ⟨id, .of_toNumber read⟩
      · split at h
        · obtain ⟨w, converted, same⟩ := Except.bind_eq_ok.mp h
          cases same
          exact ⟨.of_toPrimitive converted, id⟩
        · split at h
          · obtain ⟨w, converted, same⟩ := Except.bind_eq_ok.mp h
            cases same
            exact ⟨id, .of_toPrimitive converted⟩
          · cases h

theorem looseEqualsWithin_eq_error {steps : Nat} (h : looseEqualsWithin steps a b = .error cause) :
    cause = .nestedTooDeeply ∨ a.HoldsHazard cause ∨ b.HoldsHazard cause := by
  induction steps generalizing a b with
  | zero => cases h
  | succ steps ih =>
    rw [looseEqualsWithin] at h
    rcases Except.bind_eq_error.mp h with refused | ⟨step, stepped, rest⟩
    · exact looseStep_eq_error refused
    · cases step with
      | answer equal => cases rest
      | unrelated => cases rest
      | convert a' b' =>
        have ⟨left, right⟩ : (a'.HoldsHazard cause → a.HoldsHazard cause) ∧
            (b'.HoldsHazard cause → b.HoldsHazard cause) := looseStep_eq_convert stepped
        exact (ih rest).imp_right (Or.imp left right)

theorem looseEquals_eq_error (h : a.looseEquals b = .error cause) :
    cause = .nestedTooDeeply ∨ a.HoldsHazard cause ∨ b.HoldsHazard cause :=
  looseEqualsWithin_eq_error h

/-- A relation that answers for every order is refused only for a hazard of its operands. -/
theorem relate_eq_error {operator : Operator}
    (answers : ∀ order, operator.holds? order ≠ .error cause)
    (h : a.relate operator b = .error cause) :
    cause = .nestedTooDeeply ∨ a.HoldsHazard cause ∨ b.HoldsHazard cause := by
  unfold relate at h
  rcases Except.bind_eq_error.mp h with refused | ⟨a', left, h⟩
  · exact (toPrimitive_eq_error refused).imp_right .inl
  rcases Except.bind_eq_error.mp h with refused | ⟨b', right, h⟩
  · exact (toPrimitive_eq_error refused).imp_right .inr
  split at h
  · exact absurd h (answers _)
  · -- A hazard of a converted operand was one of the operand.
    have fromLeft : a'.HoldsHazard cause → a.HoldsHazard cause := .of_toPrimitive left
    have fromRight : b'.HoldsHazard cause → b.HoldsHazard cause := .of_toPrimitive right
    rcases Except.bind_eq_error.mp h with refused | ⟨x, readLeft, h⟩
    · exact (toNumber_eq_error refused).imp_right fun hazard => .inl (fromLeft hazard)
    rcases Except.bind_eq_error.mp h with refused | ⟨y, readRight, h⟩
    · exact (toNumber_eq_error refused).imp_right fun hazard => .inr (fromRight hazard)
    rcases Except.bind_eq_error.mp h with refused | ⟨_, _, h⟩
    · obtain ⟨signaling, rfl⟩ := Number.isNaN_eq_error.mp refused
      exact .inr (.inl (fromLeft (.of_toNumber readLeft (hazard_of_isSignaling signaling).holds)))
    split at h
    · cases h
    · rcases Except.bind_eq_error.mp h with refused | ⟨order?, _, h⟩
      · exact .inr ((holdsHazard_of_order? refused).imp
          (fun hazard => fromLeft (.of_toNumber readLeft hazard))
          (fun hazard => fromRight (.of_toNumber readRight hazard)))
      · split at h
        · cases h
        · exact absurd h (answers _)

end Value

end Visibility
