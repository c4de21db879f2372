import Mathlib.Data.List.Permutation
import Visibility.Proofs.Display
import Visibility.Proofs.Hazard.Evaluation
import Visibility.Proofs.NonInterference
import Visibility.Proofs.RoundTrip

/-!
# Evaluations without hazards

Some failures belong to trees that no text is compiled to, and a compiled condition never ends in
one of them.  What else it may be refused for is a hazard, and a context and literals without any
give none away: reading leads to their parts only, and the lists that are built are as long as the
text has room for.  Joining the texts of harmless items gives no too large numeral either.

* `Derives.part` — every part of a tree is the tree of some of the tokens
* `length_le_of_compile` — no array has more elements than the text has characters
* `Value.Harmless` — values that no hazard lies within, and no array whose length is one
* `closed_harmless` — an expression with harmless literals stays within them
* `evaluate_confined` — the failures that are left
-/

namespace Visibility

open Grammar

/-! ## §1 Parts of a tree and their tokens -/

namespace Grammar

/-- A list takes a token for each of its items at least. -/
theorem Derives.length_le {es : List Expr} {ts : List Token} (h : Derives (.list es) ts) :
    es.length ≤ ts.length := by
  generalize same : Phrase.list es = phrase at h
  induction h generalizing es with
  | none =>
    cases same
    exact Nat.le_refl _
  | last first =>
    cases same
    obtain ⟨t, us, rfl, -⟩ := first.head
    simp
  | more _ _ _ _ ih =>
    cases same
    -- The comma alone makes up for the first item.
    have others := ih rfl
    simp only [List.length_cons, List.length_append] at others ⊢
    omega
  | _ => cases same

/-- Each item of a list is the tree of some of its tokens. -/
theorem Derives.item {es : List Expr} {ts : List Token} {e : Expr} (h : Derives (.list es) ts)
    (mem : e ∈ es) : ∃ us, Derives (.expr .disjunction e) us ∧ us.Sublist ts := by
  generalize same : Phrase.list es = phrase at h
  induction h generalizing es with
  | none =>
    cases same
    cases mem
  | last first =>
    cases same
    obtain rfl := List.mem_singleton.mp mem
    exact ⟨_, first, .refl _⟩
  | more first _ _ _ ih =>
    cases same
    rcases List.mem_cons.mp mem with rfl | mem
    · exact ⟨_, first, List.sublist_append_left ..⟩
    · obtain ⟨us, derived, sub⟩ := ih mem rfl
      exact ⟨us, derived, (sub.cons _).trans (List.sublist_append_right ..)⟩
  | _ => cases same

/-- So is each of the parts right below a node. -/
theorem Derives.child {level : Level} {e child : Expr} {ts : List Token}
    (h : Derives (.expr level e) ts) (mem : child ∈ e.children) :
    ∃ tighter us, Derives (.expr tighter child) us ∧ us.Sublist ts := by
  generalize same : Phrase.expr level e = phrase at h
  -- Passing to a tighter level changes neither the tree nor the tokens.
  induction h generalizing level e with
  | conjunction _ ih | comparison _ ih | negation _ ih | postfixed _ ih | primary _ ih =>
    cases same
    exact ih mem rfl
  | or left _ right | and left _ right | compare _ left _ right =>
    cases same
    simp only [Expr.children, List.mem_cons, List.not_mem_nil, or_false] at mem
    rcases mem with rfl | rfl
    · exact ⟨_, _, left, List.sublist_append_left ..⟩
    · exact ⟨_, _, right, (List.sublist_cons_self ..).trans (List.sublist_append_right ..)⟩
  | not _ operand =>
    cases same
    obtain rfl := List.mem_singleton.mp mem
    exact ⟨_, _, operand, List.sublist_cons_self ..⟩
  | member object _ _ =>
    cases same
    obtain rfl := List.mem_singleton.mp mem
    exact ⟨_, _, object, List.sublist_append_left ..⟩
  | @call _ _ ts us dot name opening closing object _ _ _ arguments _ =>
    cases same
    rcases List.mem_cons.mp mem with rfl | mem
    · exact ⟨_, _, object, List.sublist_append_left ..⟩
    · obtain ⟨vs, derived, sub⟩ := arguments.item mem
      have inCall : vs.Sublist (dot :: name :: opening :: (us ++ [closing])) :=
        (((sub.trans (List.sublist_append_left ..)).cons _).cons _).cons _
      exact ⟨_, vs, derived, inCall.trans (List.sublist_append_right ..)⟩
  | literal | name =>
    cases same
    cases mem
  | array _ elements _ =>
    cases same
    obtain ⟨us, derived, sub⟩ := elements.item mem
    exact ⟨_, us, derived, (sub.trans (List.sublist_append_left ..)).cons _⟩
  | group _ inner _ =>
    cases same
    obtain rfl := List.mem_singleton.mp mem
    exact ⟨_, _, inner, (List.sublist_append_left ..).cons _⟩
  | none | last | more => cases same

/-- And so is every part of a tree. -/
theorem Derives.part {level : Level} {root part : Expr} {ts : List Token}
    (h : Derives (.expr level root) ts) (isPart : Expr.Part root part) :
    ∃ tighter us, Derives (.expr tighter part) us ∧ us.Sublist ts := by
  -- The tokens of parts within each other are sublists of one another.
  induction isPart with
  | root => exact ⟨level, ts, h, .refl _⟩
  | child _ mem ih =>
    obtain ⟨_, us, derived, sub⟩ := ih
    obtain ⟨tighter, vs, below, subsub⟩ := derived.child mem
    exact ⟨tighter, vs, below, subsub.trans sub⟩

/-- The elements of an array stand between its brackets. -/
theorem Derives.elements {level : Level} {elements : List Expr} {ts : List Token}
    (h : Derives (.expr level (.array elements)) ts) :
    ∃ us, Derives (.list elements) us ∧ us.Sublist ts := by
  generalize same : Phrase.expr level (.array elements) = phrase at h
  induction h generalizing level with
  | conjunction _ ih | comparison _ ih | negation _ ih | postfixed _ ih | primary _ ih =>
    cases same
    exact ih rfl
  | array _ elements _ =>
    cases same
    exact ⟨_, elements, (List.sublist_append_left ..).cons _⟩
  | _ => cases same

end Grammar

/-- An array of a compiled condition has no more elements than the text has characters. -/
theorem length_le_of_compile {source : String} {c : Condition} {elements : List Expr}
    (compiled : Condition.compile source = .ok c) (part : Expr.Part c.expr (.array elements)) :
    elements.length ≤ source.length := by
  obtain ⟨-, ts, cut, derived⟩ := derives_of_compile compiled
  obtain ⟨_, us, array, sub⟩ := derived.part part
  obtain ⟨vs, list, subsub⟩ := array.elements
  calc elements.length
      ≤ vs.length := list.length_le
    _ ≤ us.length := subsub.length_le
    _ ≤ ts.length := sub.length_le
    _ ≤ source.toList.length := cut.length_le
    _ = source.length := String.length_toList

/-! ## §2 Harmless values -/

namespace Value

/-- The value is no hazard, and neither is its length, which can be read from an array.  A length
that is a hazard would be that of an array beyond any memory. -/
structure Tame (v : Value) : Prop where
  no_hazard {cause : CoercionError} : ¬Hazard v cause
  length_lt {items : List Value} : v.elements? = some items → items.length < Double.overflowStart

/-- Everything that lies within the value is tame. -/
def Harmless (v : Value) : Prop :=
  ∀ n w, Lies w n v → w.Tame

variable {v : Value} {cause : CoercionError}

theorem harmless_of_no_parts (noElements : v.elements? = none) (noEntries : v.entries? = none)
    (safe : ∀ cause, ¬Hazard v cause) : v.Harmless := by
  have own : v.Tame := ⟨safe _, fun elements => nomatch noElements.symm.trans elements⟩
  exact fun n w => Lies.of_no_parts noElements noEntries own

theorem harmless_number {x : Number} (written : ∀ cause, ¬x.Unwritable cause) :
    (number x).Harmless := by
  refine harmless_of_no_parts rfl rfl fun cause hazard => ?_
  cases hazard with
  | number refused => exact written _ refused

theorem harmless_int {n : Nat} (small : n < Double.overflowStart) : (int n).Harmless := by
  refine harmless_number fun cause refused => ?_
  cases refused with
  | int large => exact absurd small (Nat.not_lt.mpr large)

theorem harmless_string {s : String} (small : ¬Numeral.TooLarge s) : (string s).Harmless := by
  refine harmless_of_no_parts rfl rfl fun cause hazard => ?_
  cases hazard with
  | string large => exact small large

/-- A list of harmless items is harmless unless it is too long. -/
theorem harmless_list {id : Identity} {items : List Value}
    (count : items.length < Double.overflowStart) (all : ∀ item ∈ items, item.Harmless) :
    (list id items).Harmless := by
  refine fun n w => Lies.of_list ⟨nofun, fun elements => ?_⟩ all
  cases elements
  exact count

theorem harmless_map {id : Identity} {entries : List (Value × Value)}
    (all : ∀ key v, (key, v) ∈ entries → v.Harmless) : (map id entries).Harmless := by
  exact fun n w => Lies.of_map ⟨nofun, nofun⟩ all

theorem Harmless.entry {id : Identity} {entries : List (Value × Value)} {key : String}
    (h : (map id entries).Harmless) (found : find? key entries = some v) : v.Harmless := by
  obtain ⟨k, mem⟩ := mem_of_find? found
  exact fun n w lies => h _ _ (.entry mem lies)

/-- The elements of an array lie within it. -/
theorem Within.lies {w : Value} (h : Within w v) : ∃ n, Lies w n v := by
  induction h with
  | self => exact ⟨0, .here⟩
  | element elements mem _ ih =>
    obtain ⟨n, lies⟩ := ih
    exact ⟨n + 1, .item elements mem lies⟩

/-- A harmless value is refused by no conversion. -/
theorem Harmless.not_holdsHazard (h : v.Harmless) : ¬v.HoldsHazard cause := by
  rintro ⟨w, within, hazard⟩
  obtain ⟨n, lies⟩ := within.lies
  exact (h n w lies).no_hazard hazard

end Value

/-! ## §3 Expressions stay within the harmless values -/

namespace Expr

/-- No string among the literals of the expression is too large a numeral. -/
def HasHarmlessLiterals (root : Expr) : Prop :=
  ∀ s, Part root (.literal (.string s)) → ¬Numeral.TooLarge s

/-- The literals of the language are strings, doubles, truth values and null. -/
theorem harmless_literal {root : Expr} {v : Value} (language : InLanguage root)
    (literals : root.HasHarmlessLiterals) (part : Part root (.literal v)) : v.Harmless := by
  cases part.inLanguage language with
  | literal value =>
    cases value with
    | string => exact Value.harmless_string (literals _ part)
    | number => exact Value.harmless_number fun _ refused => nomatch refused
    | true | false | null => exact Value.harmless_of_no_parts rfl rfl (fun _ => nofun)

/-- Reading from harmless values gives harmless values, and so does building lists that are not too
long. -/
theorem closed_harmless {root : Expr} {value : Value} (language : InLanguage root)
    (literals : root.HasHarmlessLiterals) (harmless : value.Harmless)
    (short : ∀ elements, Part root (.array elements) → elements.length < Double.overflowStart) :
    Closed root (.holding value) Value.Harmless where
  literal := harmless_literal language literals
  bool b := Value.harmless_of_no_parts rfl rfl fun _ => nofun
  undefined := Value.harmless_of_no_parts rfl rfl fun _ => nofun
  name {key v} part found := by
    cases value with
    | map id entries => exact harmless.entry (Except.ok.inj found)
    | _ => cases found
  property mapping _ found := mapping.entry found
  length array elements := Value.harmless_int ((array _ _ .here).length_lt elements)
  built {n elements items} part count all := by
    -- Every element gives one item, so the bound on the text bounds the list as well.
    have fits : items.length < Double.overflowStart := by
      rw [count]
      exact short elements part
    exact Value.harmless_list fits all

end Expr

/-! ## §4 Failures -/

/-- The failures of trees that no text is compiled to: an operator in a place where it has no
meaning, or a node of no kind. -/
inductive Failure.IsUnknown : Failure → Prop where
  | operator (text : String) : IsUnknown (.malformed (.unknownOperator text))
  | unaryOperator (text : String) : IsUnknown (.malformed (.unknownUnaryOperator text))
  | node (name : String) : IsUnknown (.malformed (.unknownNode name))
  | relation (text : String) : IsUnknown (.coercion (.notRelational text))

namespace Expr

variable {R : Value → Prop} {failure : Failure}

/-- No hazard fails like an unknown operator. -/
theorem ExplainedWithin.not_isUnknown (h : ExplainedWithin R failure) : ¬failure.IsUnknown := by
  cases h with
  | nestedTooDeeply => exact nofun
  | denied cause => exact nofun
  | hazard _ held =>
    obtain ⟨w, -, hazard⟩ := held
    rcases hazard.cause_cases with rfl | rfl | rfl <;> exact nofun

/-- Within harmless values there is nothing to be refused. -/
theorem ExplainedWithin.of_harmless (h : ExplainedWithin Value.Harmless failure) :
    (∃ cause, failure = .denied cause) ∨ failure = .malformed .nestedTooDeeply := by
  cases h with
  | nestedTooDeeply => exact .inr rfl
  | denied cause => exact .inl ⟨cause, rfl⟩
  | hazard harmless held => exact absurd held harmless.not_holdsHazard

/-- An expression of the language has no unknown operators, whatever the context does. -/
theorem evaluate_known {e : Expr} (language : InLanguage e) (context : Context)
    (failed : (e.evaluate context).1 = .error failure) : ¬failure.IsUnknown := by
  have holding (value : Value) (failed : (e.evaluate (.holding value)).1 = .error failure) :
      ¬failure.IsUnknown :=
    have explained : ExplainedWithin (Reachable e (.holding value)) failure :=
      evaluateWithin_explainedWithin language (Reachable.closed e _) _ .root failed
    explained.not_isUnknown
  cases context with
  | holding value => exact holding value failed
  | unreadable =>
    rcases evaluate_unreadable e with none | unread
    · -- Without lookups the run is the one in the empty context.
      have same : e.evaluate .empty = e.evaluate .unreadable := evaluate_of_no_lookups none
      rw [← same] at failed
      exact holding _ failed
    · rw [unread] at failed
      cases failed
      exact nofun

end Expr

/-- **Without hazards a condition has a value, is denied something, or is nested too deeply.**  No
compiled condition fails for an operator or a node that is unknown, in whatever context.  And if
no value in the context is a hazard, and no string among the literals is too large a numeral, it
fails for security or for nesting only; keys of mappings do not matter.  The bound on the text is
the one on lengths in `Value.Tame`: no memory holds so many characters. -/
theorem evaluate_confined {source : String} {c : Condition}
    (compiled : Condition.compile source = .ok c) :
    (∀ context failure, (c.evaluate context).1 = .error failure → ¬failure.IsUnknown) ∧
    ∀ value : Value, value.Harmless → c.expr.HasHarmlessLiterals →
      source.length < Double.overflowStart →
      (∃ v, (c.evaluate (.holding value)).1 = .ok v) ∨
        (∃ cause, (c.evaluate (.holding value)).1 = .error (.denied cause)) ∨
        (c.evaluate (.holding value)).1 = .error (.malformed .nestedTooDeeply) := by
  have language := Expr.inLanguage_of_compile compiled
  refine ⟨fun context failure => Expr.evaluate_known language context, ?_⟩
  intro value harmless literals fits
  -- All values of the evaluation are harmless, so there is no reason to refuse a conversion.
  have short (elements : List Expr) (part : Expr.Part c.expr (.array elements)) :
      elements.length < Double.overflowStart :=
    Nat.lt_of_le_of_lt (length_le_of_compile compiled part) fits
  have closed := Expr.closed_harmless language literals harmless short
  cases ended : (c.evaluate (.holding value)).1 with
  | ok v => exact .inl ⟨v, rfl⟩
  | error failure =>
    have explained : Expr.ExplainedWithin Value.Harmless failure :=
      Expr.evaluateWithin_explainedWithin language closed _ .root ended
    rcases explained.of_harmless with ⟨cause, rfl⟩ | rfl
    · exact .inr (.inl ⟨cause, rfl⟩)
    · exact .inr (.inr rfl)

/-- The only literal of `[x] == ''` is the empty string. -/
theorem Condition.hasHarmlessLiterals_writing : writing.expr.HasHarmlessLiterals := by
  intro s part
  have parts (e : Expr) (part : Expr.Part writing.expr e) :
      e ∈ [writing.expr, .array [.name "x"], .literal (.string ""), .name "x"] := by
    induction part with
    | root => simp
    | child _ mem ih =>
      simp only [writing, List.mem_cons, List.not_mem_nil, or_false] at ih ⊢
      rcases ih with rfl | rfl | rfl | rfl <;>
        simp only [Expr.children, List.mem_cons, List.not_mem_nil, or_false] at mem <;> tauto
  have empty : s = "" := by simpa [writing] using parts _ part
  rw [empty]
  exact Numeral.not_tooLarge_of_noRadix (by simp)

/-- A radix numeral may be written and joined with others if it is small. -/
theorem evaluate_confined_numerals :
    let numerals := Value.list (.given 1) [.string "0xff", .int 255]
    let value := Value.map (.given 0) [(.string "x", numerals)]
    let result := (Condition.writing.evaluate (.holding value)).1
    Condition.compile "[x] == ''" = .ok Condition.writing ∧ value.Harmless ∧
      Condition.writing.expr.HasHarmlessLiterals ∧
      ((∃ v, result = .ok v) ∨ (∃ cause, result = .error (.denied cause)) ∨
        result = .error (.malformed .nestedTooDeeply)) := by
  intro numerals value result
  have small : ¬Numeral.TooLarge "0xff" := by
    rintro ⟨n, radix, large⟩
    have read : Numeral.radixNumeral? (Text.trimSpaces "0xff".toList) = some 255 := by decide
    obtain rfl : 255 = n := Option.some.inj (read.symm.trans radix)
    exact absurd large (by decide +kernel)
  have listed : numerals.Harmless := by
    refine Value.harmless_list (by decide +kernel) ?_
    simp only [List.forall_mem_cons, List.not_mem_nil, false_implies, implies_true, and_true]
    exact ⟨Value.harmless_string small, Value.harmless_int (by decide +kernel)⟩
  have harmless : value.Harmless := by
    refine Value.harmless_map fun key v mem => ?_
    obtain ⟨-, rfl⟩ := Prod.mk.inj (List.mem_singleton.mp mem)
    exact listed
  have literals := Condition.hasHarmlessLiterals_writing
  exact ⟨Condition.compile_writing, harmless, literals,
    (evaluate_confined Condition.compile_writing).2 value harmless literals (by decide +kernel)⟩

end Visibility
