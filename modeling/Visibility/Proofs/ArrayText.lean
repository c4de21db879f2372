import Visibility.Proofs.Comparison
import Visibility.Proofs.Hazard

/-!
# The texts of arrays

The text of an array is made of the texts of its elements, which may be arrays themselves, and null is
written in one way within an array and in another way outside.  All this comes to one flat rule: the
text is that of the leaves, joined by commas.

* `leaves`, `leafText` — the leaves of nested arrays, and what each of them is written as
* `byElements` — induction on the arrays within each other
* `join_flatten` — joining texts that are joined themselves
* `itemText_eq_join` — the flat rule, for every depth that covers the arrays
* `Splices` — putting the elements of an inner array in its place
* `Numeral.stringValue_of_comma` — a text with a comma is no numeral
* `text_joins_leaves` — the flat rule with what follows from it
-/

namespace Visibility

/-! ## §1 Leaves -/

namespace Value

mutual

/-- The leaves of a value from left to right: what is no array, at any depth, and empty arrays. -/
def leaves : Value → List Value
  | .list id items => if items.isEmpty then [.list id items] else leavesOf items
  | .tuple id items => if items.isEmpty then [.tuple id items] else leavesOf items
  | v => [v]

/-- The leaves of several values, one after the other. -/
def leavesOf : List Value → List Value
  | [] => []
  | v :: vs => v.leaves ++ leavesOf vs

end

/-- What a leaf is written as within an array. -/
def leafText : Value → Except CoercionError String
  | .undefined | .null => .ok ""
  -- An array that is a leaf has no elements.
  | .list .. | .tuple .. => .ok ""
  | .map .. | .foreign .. => .ok objectText
  | v => v.text

mutual

/-- How many arrays stand within each other. -/
def nesting : Value → Nat
  | .list _ items | .tuple _ items => nestingOf items + 1
  | _ => 0

/-- The same for the most deeply nested of several values. -/
def nestingOf : List Value → Nat
  | [] => 0
  | v :: vs => max v.nesting (nestingOf vs)

end

/-- Induction on the arrays within each other. -/
@[elab_as_elim]
theorem byElements {motive : Value → Prop}
    (leaf : ∀ v, v.elements? = none → motive v)
    (array : ∀ v items, v.elements? = some items → (∀ item ∈ items, motive item) → motive v)
    (v : Value) : motive v :=
  -- The recursion ends because an item is smaller than the array that it is an item of.
  match v with
  | .list _ items | .tuple _ items => array _ items rfl fun item _ => byElements leaf array item
  | .undefined | .null | .bool _ | .number _ | .string _ | .map .. | .foreign .. => leaf _ rfl

variable {v w item : Value} {items : List Value} {depth : Nat}

theorem leavesOf_eq_flatMap (items : List Value) : leavesOf items = items.flatMap leaves := by
  induction items with
  | nil => rfl
  | cons v vs ih => rw [leavesOf, ih, List.flatMap_cons]

theorem leaves_of_no_elements (h : v.elements? = none) : v.leaves = [v] := by
  cases v <;> first | rfl | cases h

theorem leaves_of_empty (h : v.elements? = some []) : v.leaves = [v] := by
  cases v <;> cases h <;> rfl

theorem leaves_of_elements (h : v.elements? = some items) (nonempty : items ≠ []) :
    v.leaves = items.flatMap leaves := by
  have notEmpty : items.isEmpty = false := by simpa using nonempty
  rw [← leavesOf_eq_flatMap]
  cases v with
  | list id items' | tuple id items' =>
    cases h
    simp only [leaves, notEmpty, Bool.false_eq_true, if_false]
  | _ => cases h

theorem leaves_ne_nil (v : Value) : v.leaves ≠ [] := by
  induction v using byElements with
  | leaf v noArray =>
    rw [leaves_of_no_elements noArray]
    exact List.cons_ne_nil _ _
  | array v items elements ih =>
    cases items with
    | nil =>
      rw [leaves_of_empty elements]
      exact List.cons_ne_nil _ _
    | cons item items =>
      rw [leaves_of_elements elements (List.cons_ne_nil _ _), List.flatMap_cons]
      exact List.append_ne_nil_of_left_ne_nil (ih item (List.mem_cons_self ..)) _

theorem nestingOf_le_iff : nestingOf items ≤ depth ↔ ∀ item ∈ items, item.nesting ≤ depth := by
  induction items with
  | nil => simp [nestingOf]
  | cons v vs ih => rw [nestingOf, Nat.max_le, ih, List.forall_mem_cons]

theorem nesting_of_elements (h : v.elements? = some items) : v.nesting = nestingOf items + 1 := by
  cases v <;> cases h <;> rfl

theorem nesting_lt_of_mem (h : v.elements? = some items) (mem : item ∈ items) :
    item.nesting < v.nesting := by
  rw [nesting_of_elements h]
  exact Nat.lt_succ_of_le (nestingOf_le_iff.mp (Nat.le_refl _) item mem)

/-! ## §2 Joined texts -/

/-- The texts of a list, joined by commas. -/
def join (texts : List String) : String := String.intercalate "," texts

theorem join_append {ts us : List String} (left : ts ≠ []) (right : us ≠ []) :
    join (ts ++ us) = join [join ts, join us] := by
  unfold join
  rw [String.intercalate_append_of_ne_nil left right, String.intercalate_cons_cons,
    String.intercalate_singleton]

theorem join_cons {t : String} {us : List String} (nonempty : us ≠ []) :
    join (t :: us) = join [t, join us] :=
  join_append (List.cons_ne_nil t []) nonempty

/-- Lists of texts that are joined one by one and then with each other are joined as one list. -/
theorem join_flatten {tss : List (List String)} (nonempty : ∀ ts ∈ tss, ts ≠ []) :
    join (tss.map join) = join tss.flatten := by
  -- No comma follows the last list, so the induction looks one list ahead.
  induction tss with
  | nil => rfl
  | cons ts tss ih =>
    have ⟨first, others⟩ := List.forall_mem_cons.mp nonempty
    cases tss with
    | nil => simp [join]
    | cons us tss =>
      have rest : (us :: tss).flatten ≠ [] := by
        rw [List.flatten_cons]
        exact List.append_ne_nil_of_left_ne_nil (others us (List.mem_cons_self ..)) _
      calc join ((ts :: us :: tss).map join)
          = join [join ts, join ((us :: tss).map join)] := join_cons (List.cons_ne_nil _ _)
        _ = join [join ts, join (us :: tss).flatten] := by rw [ih others]
        _ = join (ts :: us :: tss).flatten := (join_append first rest).symm

/-- Several texts are joined by at least one comma. -/
theorem comma_mem_join {texts : List String} (several : 2 ≤ texts.length) :
    ',' ∈ (join texts).toList := by
  rcases texts with _ | ⟨t, _ | ⟨u, texts⟩⟩
  · cases several
  · exact absurd several (by simp)
  · simp [join]

/-! ## §3 The flat rule -/

/-- What an element is written as within an array. -/
def itemText (depth : Nat) (item : Value) : Except CoercionError String :=
  if item.isAbsent then .ok "" else item.textWithin depth

theorem textWithin_of_elements (h : v.elements? = some items) :
    v.textWithin (depth + 1) = (items.mapM (itemText depth)).map join := by
  have joined : (do
      let texts ← items.mapM fun item => if item.isAbsent then .ok "" else textWithin depth item
      return String.intercalate "," texts) = (items.mapM (itemText depth)).map join := by
    show (items.mapM (itemText depth) >>= _) = _
    cases items.mapM (itemText depth) <;> rfl
  cases v with
  | list id items' | tuple id items' =>
    cases h
    exact joined
  | _ => cases h

theorem itemText_of_no_elements (h : v.elements? = none) : itemText depth v = v.leafText := by
  cases v with
  | list id items | tuple id items => cases h
  | _ => cases depth <;> rfl

theorem leafText_of_elements (h : v.elements? = some items) : v.leafText = .ok "" := by
  cases v <;> cases h <;> rfl

theorem itemText_of_elements (h : v.elements? = some items) :
    itemText depth v = v.textWithin depth := by
  cases v <;> cases h <;> rfl

/-- If each element is written as its leaves are, all of them are written as the lists of texts of
their leaves, each list joined. -/
theorem mapM_itemText (each : ∀ item ∈ items,
    itemText depth item = (item.leaves.mapM leafText).map join) :
    items.mapM (itemText depth) =
      (items.mapM fun item => (leaves item).mapM leafText).map (List.map join) := by
  induction items with
  | nil => rfl
  | cons item items ih =>
    have ⟨first, others⟩ := List.forall_mem_cons.mp each
    rw [List.mapM_cons, List.mapM_cons, first, ih others]
    -- On both sides the first item that fails decides.
    cases item.leaves.mapM leafText with
    | error cause => rfl
    | ok ts =>
      show (Except.map _ (items.mapM fun item : Value => item.leaves.mapM leafText) >>= _) = _
      cases items.mapM fun item : Value => item.leaves.mapM leafText <;> rfl

/-- Within an array, an element is written as its leaves are, joined by commas. -/
theorem itemText_eq_join (v : Value) (covers : v.nesting ≤ depth) :
    itemText depth v = (v.leaves.mapM leafText).map join := by
  induction v using byElements generalizing depth with
  | leaf v noArray =>
    rw [itemText_of_no_elements noArray, leaves_of_no_elements noArray, List.mapM_cons,
      List.mapM_nil]
    cases v.leafText <;> simp [join, bind, Except.bind, Except.map, pure, Except.pure]
  | array v items elements ih =>
    rw [nesting_of_elements elements] at covers
    -- This array takes one level of the depth, and what is left covers its items.
    obtain ⟨depth, rfl⟩ : ∃ d, depth = d + 1 := ⟨depth - 1, by omega⟩
    rw [itemText_of_elements elements, textWithin_of_elements elements]
    by_cases empty : items = []
    · -- An empty array is a leaf itself, and nothing is written for it.
      subst empty
      rw [leaves_of_empty elements, List.mapM_cons, leafText_of_elements elements]
      rfl
    · have each : ∀ item ∈ items, itemText depth item = (item.leaves.mapM leafText).map join :=
        fun item mem => ih item mem (nestingOf_le_iff.mp (Nat.le_of_succ_le_succ covers) item mem)
      rw [leaves_of_elements elements empty, Except.mapM_flatMap, mapM_itemText each]
      cases texts : items.mapM fun item => item.leaves.mapM leafText with
      | error cause => rfl
      | ok tss =>
        -- Every element has a leaf, so no list of texts is empty.
        have nonempty : ∀ ts ∈ tss, ts ≠ [] := by
          intro ts mem
          obtain ⟨item, _, written⟩ := Except.of_mem_mapM texts ts mem
          apply List.ne_nil_of_length_pos
          rw [Except.length_of_mapM written]
          exact List.length_pos_iff.mpr item.leaves_ne_nil
        exact congrArg Except.ok (join_flatten nonempty)

/-! ## §4 Splicing -/

/-- Somewhere within the first array, an inner array that is not empty was replaced by its elements;
the second array is the result. -/
inductive Splices : Value → Value → Prop where
  | here {v inner w : Value} {before items after : List Value} :
      v.elements? = some (before ++ inner :: after) → inner.elements? = some items → items ≠ [] →
      w.elements? = some (before ++ items ++ after) → Splices v w
  | inside {v u u' w : Value} {before after : List Value} :
      v.elements? = some (before ++ u :: after) → Splices u u' →
      w.elements? = some (before ++ u' :: after) → Splices v w

theorem Splices.isArray (h : Splices v w) : w.isArray = true := by
  unfold Value.isArray
  cases h with
  | here _ _ _ elements | inside _ _ elements => rw [elements]; rfl

/-- Splicing does not change the leaves. -/
theorem Splices.leaves (h : Splices v w) : w.leaves = v.leaves := by
  induction h with
  | @here v inner w before items after elements inside nonempty spliced =>
    have some : before ++ items ++ after ≠ [] := by simp [nonempty]
    rw [leaves_of_elements elements (by simp), leaves_of_elements spliced some]
    simp only [List.flatMap_append, List.flatMap_cons, leaves_of_elements inside nonempty,
      List.append_assoc]
  | inside elements _ spliced ih =>
    rw [leaves_of_elements elements (by simp), leaves_of_elements spliced (by simp)]
    simp only [List.flatMap_append, List.flatMap_cons, ih]

/-- Splicing does not nest arrays any deeper. -/
theorem Splices.nesting_le (h : Splices v w) : w.nesting ≤ v.nesting := by
  induction h with
  | @here v inner w before items after elements inside nonempty spliced =>
    rw [nesting_of_elements spliced, nesting_of_elements elements]
    apply Nat.succ_le_succ
    have all := nestingOf_le_iff.mp (Nat.le_refl (nestingOf (before ++ inner :: after)))
    rw [List.forall_mem_append, List.forall_mem_cons] at all
    obtain ⟨ofBefore, ofInner, ofAfter⟩ := all
    apply nestingOf_le_iff.mpr
    rw [List.forall_mem_append, List.forall_mem_append]
    refine ⟨⟨ofBefore, fun item mem => ?_⟩, ofAfter⟩
    -- The items of the inner array come up by one level.
    exact Nat.le_trans (Nat.le_of_lt (nesting_lt_of_mem inside mem)) ofInner
  | @inside v u u' w before after elements _ spliced ih =>
    rw [nesting_of_elements spliced, nesting_of_elements elements]
    apply Nat.succ_le_succ
    have all := nestingOf_le_iff.mp (Nat.le_refl (nestingOf (before ++ u :: after)))
    rw [List.forall_mem_append, List.forall_mem_cons] at all
    obtain ⟨ofBefore, ofInner, ofAfter⟩ := all
    apply nestingOf_le_iff.mpr
    rw [List.forall_mem_append, List.forall_mem_cons]
    exact ⟨ofBefore, Nat.le_trans ih ofInner, ofAfter⟩

end Value

/-! ## §5 Texts with a comma -/

namespace Numeral

variable {cs : List Char}

theorem comma_mem_sign (mem : ',' ∈ cs) : ',' ∈ (sign cs).2 := by
  unfold sign
  split
  · simpa using mem
  · simpa using mem
  · exact mem

theorem comma_mem_fraction (mem : ',' ∈ cs) : ',' ∈ (fraction cs).2 := by
  unfold fraction
  split
  · rename_i digits
    exact Text.mem_dropWhile (by simpa using mem) (by decide)
  · exact mem

theorem exponent?_of_comma (mem : ',' ∈ cs) : exponent? cs = none := by
  cases cs with
  | nil => cases mem
  | cons e digits =>
    refine if_neg ?_
    rintro ⟨letter, -, all⟩
    -- The comma is not the letter, so it would have to be a digit.
    have later : ',' ∈ digits := by
      rcases List.mem_cons.mp mem with rfl | later
      · exact absurd letter (by decide)
      · exact later
    exact absurd (List.all_eq_true.mp all ',' (comma_mem_sign later)) (by decide)

theorem decimal?_of_comma (mem : ',' ∈ cs) : decimal? cs = none := by
  have rest : ',' ∈ (fraction ((sign cs).2.dropWhile isDigit)).2 :=
    comma_mem_fraction (Text.mem_dropWhile (comma_mem_sign mem) (by decide))
  unfold decimal?
  simp only [exponent?_of_comma rest, Option.map_none, ite_self]

/-- A text with a comma has no numeric reading. -/
theorem stringValue_of_comma {s : String} (mem : ',' ∈ s.toList) : stringValue s = .ok .nan := by
  have trimmed : ',' ∈ Text.trimSpaces s.toList := Text.mem_trim mem (by decide)
  unfold stringValue trimmedValue
  generalize Text.trimSpaces s.toList = cs at trimmed
  have notWord (word : List Char) (noComma : ',' ∉ word) : cs ≠ word := by
    rintro rfl
    exact noComma trimmed
  have notEmpty := notWord [] (by decide)
  have notInfinity := notWord "Infinity".toList (by decide)
  have notSigned := notWord "+Infinity".toList (by decide)
  have notNegative := notWord "-Infinity".toList (by decide)
  simp only [notEmpty, notInfinity, notSigned, notNegative, or_self, if_false,
    radixNumeral?_of_comma trimmed, decimal?_of_comma trimmed, Option.elim_none]

end Numeral

/-! ## §6 The texts of arrays -/

namespace Value

variable {v w : Value}

theorem text_eq_join (array : v.isArray = true) (shallow : v.nesting ≤ textDepth) :
    v.text = (v.leaves.mapM leafText).map join := by
  obtain ⟨items, elements⟩ := Option.isSome_iff_exists.mp array
  rw [← itemText_eq_join v shallow, itemText_of_elements elements]
  rfl

theorem kind_of_isArray (array : v.isArray = true) : v.kind = .object := by
  cases v <;> first | rfl | cases array

/-- If every leaf can be written, there is a text for each of them. -/
theorem exists_leafTexts (written : ∀ leaf ∈ v.leaves, ∃ t, leaf.leafText = .ok t) :
    ∃ texts, v.leaves.mapM leafText = .ok texts := by
  cases converted : v.leaves.mapM leafText with
  | ok texts => exact ⟨texts, rfl⟩
  | error cause =>
    obtain ⟨before, leaf, after, same, -, failed⟩ := Except.mapM_eq_error.mp converted
    obtain ⟨t, text⟩ := written leaf (by simp [same])
    cases failed.symm.trans text

/-- **The text of an array is the join of its leaves.**  The leaves are written one after the other and
joined by commas; if some of them cannot be written, the first of these says why the array cannot.
So an inner array that is not empty may as well be spliced into the one around it, and an array with
several leaves has no numeric reading. -/
theorem text_joins_leaves (array : v.isArray = true) (shallow : v.nesting ≤ textDepth) :
    v.text = (v.leaves.mapM leafText).map (String.intercalate ",") ∧
    (∀ cause, v.text = .error cause ↔ ∃ before leaf after, v.leaves = before ++ leaf :: after ∧
      (∀ l ∈ before, ∃ t, l.leafText = .ok t) ∧ leaf.leafText = .error cause) ∧
    (∀ w, Splices v w → w.text = v.text) ∧
    (2 ≤ v.leaves.length → (∀ leaf ∈ v.leaves, ∃ t, leaf.leafText = .ok t) →
      v.toNumber = .ok (.double .nan)) := by
  have joined : v.text = (v.leaves.mapM leafText).map join := text_eq_join array shallow
  refine ⟨joined, fun cause => ?_, fun w splices => ?_, fun several written => ?_⟩
  · rw [joined, Except.map_eq_error]
    exact Except.mapM_eq_error
  · have shallower : w.nesting ≤ textDepth := Nat.le_trans splices.nesting_le shallow
    rw [text_eq_join splices.isArray shallower, splices.leaves, joined]
  · obtain ⟨texts, converted⟩ := exists_leafTexts written
    -- Two texts or more are joined by a comma, which no numeral has.
    have comma : ',' ∈ (join texts).toList := by
      apply comma_mem_join
      rw [Except.length_of_mapM converted]
      exact several
    rw [toNumber_object (kind_of_isArray array), joined, converted]
    show (Numeral.stringValue (join texts)).map Number.double = _
    rw [Numeral.stringValue_of_comma comma]
    rfl

/-- Within a list, null and an empty tuple leave a blank behind, and splicing the inner list changes
nothing. -/
theorem text_joins_leaves_blank :
    let inner := Value.list (.given 1) [.null, .tuple (.given 2) [], .string "x"]
    let v := Value.list (.given 0) [.bool true, inner]
    v.isArray = true ∧ v.nesting ≤ textDepth ∧ v.text = .ok "true,,,x" ∧
      v.toNumber = .ok (.double .nan) ∧
      (Value.list (.given 3) [.bool true, .null, .tuple (.given 2) [], .string "x"]).text =
        v.text := by
  intro inner v
  have shallow : v.nesting ≤ textDepth := by simp [v, inner, nesting, nestingOf, textDepth]
  obtain ⟨joined, -, spliced, noNumber⟩ := text_joins_leaves (v := v) rfl shallow
  have leaves : v.leaves = [.bool true, .null, .tuple (.given 2) [], .string "x"] := rfl
  have texts : v.leaves.mapM leafText = .ok ["true", "", "", "x"] := by
    rw [leaves]
    rfl
  have written : ∀ leaf ∈ v.leaves, ∃ t, leaf.leafText = .ok t := Except.exists_of_mapM texts
  refine ⟨rfl, shallow, ?_, noNumber (by rw [leaves]; decide) written, spliced _ ?_⟩
  · rw [joined, texts]
    rfl
  · exact @Splices.here v inner _ [.bool true] _ [] rfl rfl (List.cons_ne_nil _ _) rfl

end Value

end Visibility
