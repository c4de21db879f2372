import Visibility.Proofs.KeyPath
import Visibility.Proofs.RoundTrip

/-!
# Dotted names

A name with property names behind it, with dots between them, is an expression, and its value is
what the names lead to as keys.

* `Expr.dotted` — the tree of such a text
* `compile_dotted` — the text is compiled to it, however many names there are
* `Expr.evaluate_dotted`, `Expr.evaluate_dotted_deep` — it evaluates to what the path of keys leads
  to in the context, unless it has too many names
-/

namespace Visibility

open Visibility.Grammar

/-- The tree of a name with property names behind it. -/
def Expr.dotted (first : String) (others : List String) : Expr :=
  others.foldl .member (.name first)

theorem Expr.dotted_concat (first : String) (others : List String) (last : String) :
    dotted first (others ++ [last]) = .member (dotted first others) last := by
  rw [dotted, List.foldl_append]
  rfl

/-! ## §1 The text and its words -/

section Words

variable {first : String} {others : List String}

/-- The names, each behind a dot. -/
def dottedChars (names : List String) : List Char :=
  names.flatMap fun name => '.' :: name.toList

/-- The tokens of the names, each behind that of a dot. -/
def dottedTokens (names : List String) : List Token :=
  names.flatMap fun name => [⟨.dot, "."⟩, ⟨.identifier, name⟩]

theorem toList_intercalate_dot (first : String) (others : List String) :
    (String.intercalate "." (first :: others)).toList = first.toList ++ dottedChars others := by
  induction others generalizing first with
  | nil =>
    rw [String.toList_intercalate]
    simp [dottedChars]
  | cons name others ih =>
    rw [String.intercalate_cons_cons, String.toList_append, String.toList_append, ih]
    simp [dottedChars]

/-- A name is the first word of a text if no character of a name follows it. -/
theorem firstWord_name (name : IsName first) {rest : List Char}
    (ends : ∀ c ∈ rest.head?, isNamePart c = false) :
    FirstWord ⟨.identifier, first⟩ (first.toList ++ rest) rest := by
  obtain ⟨c, cs, eq, start, inside⟩ := name.letters
  have noMore : rest.takeWhile isNamePart = [] ∧ rest.dropWhile isNamePart = rest := by
    cases rest with
    | nil => exact ⟨rfl, rfl⟩
    | cons d rest =>
      have other := ends d rfl
      simp [other]
  -- A run of characters of names is a longest word, and this one ends where the name does.
  have longest : IsLongest (c :: cs) rest := by
    have run := isLongest_run (p := isNamePart) (cs ++ rest)
      fun kind ds word => (word.of_isNameStart start).2
    rwa [List.takeWhile_append_of_pos inside, List.dropWhile_append_of_pos inside, noMore.1,
      noMore.2, List.append_nil] at run
  have word : FirstWord _ (c :: cs ++ rest) rest :=
    .lexeme (eq ▸ isName_iff.mp name) longest
  rwa [← eq, String.ofList_toList] at word

theorem firstWord_dot (rest : List Char) : FirstWord ⟨.dot, "."⟩ ('.' :: rest) rest := by
  have found : fixedToken? (['.'] ++ rest) = some (['.'], .dot) := rfl
  exact .lexeme (isLexeme_of_mem_fixedTokens (List.mem_of_find?_eq_some found))
    (isLongest_fixed found)

theorem dottedChars_head (names : List String) :
    ∀ c ∈ (dottedChars names).head?, isNamePart c = false := by
  cases names with
  | nil => nofun
  | cons name names =>
    rintro c ⟨⟩
    decide

theorem segments_dotted (names : ∀ name ∈ others, IsName name) :
    Segments (dottedTokens others) (dottedChars others) [] := by
  have noBlank : ∀ c ∈ ([] : List Char), Text.isBlank c = true := List.forall_mem_nil _
  induction others with
  | nil => exact .blanks noBlank
  | cons name others ih =>
    rw [List.forall_mem_cons] at names
    have word := firstWord_name names.1 (dottedChars_head others)
    have cut : Segments _ ([] ++ '.' :: ([] ++ (name.toList ++ dottedChars others))) [] :=
      .word noBlank (firstWord_dot _) (.word noBlank word (ih names.2))
    exact cut

/-- A dotted name is cut at its dots. -/
theorem tokenize_dotted (names : ∀ name ∈ first :: others, IsName name) :
    tokenize (String.intercalate "." (first :: others)) =
      .ok (⟨.identifier, first⟩ :: dottedTokens others ++ [.eof]) := by
  rw [List.forall_mem_cons] at names
  refine tokenize_of_segmentation (.closed ?_)
  rw [toList_intercalate_dot]
  have cut : Segments _ ([] ++ (first.toList ++ dottedChars others)) [] :=
    .word (List.forall_mem_nil _) (firstWord_name names.1 (dottedChars_head others))
      (segments_dotted names.2)
  exact cut

end Words

/-! ## §2 The tree -/

section Tree

variable {first : String} {others : List String}

/-- What holds of a name and is handed on to a member holds of a dotted name.  The names are taken
from the end, where the tree has its root. -/
theorem Layered.dotted (names : ∀ name ∈ first :: others, IsName name) :
    Layered .postfixed (.dotted first others) := by
  induction others using List.reverseRecOn with
  | nil => exact .primary (.name (names first (by simp)))
  | append_singleton others last ih =>
    rw [Expr.dotted_concat]
    exact .member (ih fun name mem => names name (by simp at mem ⊢; tauto)) (names last (by simp))

theorem spells_dotted (first : String) (others : List String) :
    Spells (.dotted first others) (⟨.identifier, first⟩ :: dottedTokens others) := by
  induction others using List.reverseRecOn with
  | nil => rfl
  | append_singleton others last ih =>
    rw [Expr.dotted_concat]
    exact ⟨_, ih, by simp [dottedTokens]⟩

theorem openedCalls_dotted (first : String) (others : List String) :
    openedCalls (.dotted first others) = 0 := by
  induction others using List.reverseRecOn with
  | nil => rfl
  | append_singleton others last ih =>
    rw [Expr.dotted_concat]
    exact ih

/-- A dotted name is compiled, however many names it has. -/
theorem compile_dotted (names : ∀ name ∈ first :: others, IsName name) :
    Condition.compile (String.intercalate "." (first :: others)) =
      .ok ⟨String.intercalate "." (first :: others), .dotted first others⟩ := by
  have layered : Layered .disjunction (.dotted first others) :=
    .conjunction (.comparison (.negation (.postfixed (Layered.dotted names))))
  -- Only calls are nested for the parser, and a dotted name has none.
  exact compile_of_flat (tokenize_dotted names) layered (spells_dotted first others)
    (openedCalls_dotted first others)

end Tree

/-! ## §3 The value -/

namespace Expr

open Step

variable {first : String} {others : List String} {context v : Value}

/-- The value of a dotted name is what its names lead to, if they are no more than the nodes that
may be evaluated within each other. -/
theorem evaluateWithin_dotted (leads : context.along? (first :: others) = some v) {depth : Nat}
    (enough : others.length < depth) (t : Trace) :
    ∃ t', Returns (evaluateWithin (.holding context) depth (dotted first others)) t v t' := by
  induction others using List.reverseRecOn generalizing depth v with
  | nil =>
    obtain ⟨depth, rfl⟩ := Nat.exists_eq_add_of_lt enough
    obtain ⟨id, entries, u, rfl, found, rest⟩ := Value.along?_cons_eq_some leads
    cases rest
    refine ⟨_, returns_lookUp.mpr ⟨?_, rfl⟩⟩
    rw [Context.find?, found]
  | append_singleton others last ih =>
    -- The last name is the root of the tree: it reads from what the names before it lead to.
    rw [← List.cons_append] at leads
    obtain ⟨m, toMap, rest⟩ := Value.along?_append_eq_some leads
    obtain ⟨id, entries, u, rfl, found, rest⟩ := Value.along?_cons_eq_some rest
    cases rest
    obtain ⟨depth, rfl⟩ := Nat.exists_eq_add_of_lt enough
    have below : others.length < others.length + 1 + depth := by omega
    obtain ⟨t', read⟩ := ih toMap below
    rw [dotted_concat, List.length_append, List.length_singleton, evaluateWithin_member]
    refine ⟨t', returns_bind.mpr ⟨_, t', read, ?_⟩⟩
    simp [Evaluation.readProperty, Value.kind, Value.property?, found]

/-- A dotted name of more names than that fails, whatever the context is. -/
theorem evaluateWithin_dotted_deep {context : Context} {depth : Nat}
    (deep : depth ≤ others.length) (t : Trace) :
    Fails (evaluateWithin context depth (dotted first others)) t (.malformed .nestedTooDeeply) := by
  induction depth generalizing others with
  | zero => exact fails_fail.mpr rfl
  | succ depth ih =>
    rcases List.eq_nil_or_concat others with rfl | ⟨before, last, rfl⟩
    · exact absurd deep (Nat.not_succ_le_zero depth)
    · rw [List.concat_eq_append, List.length_append, List.length_singleton] at deep
      rw [List.concat_eq_append, dotted_concat, evaluateWithin_member]
      -- The object of the last name is evaluated first, and fails one level below.
      exact fails_bind.mpr (.inl (ih (Nat.le_of_succ_le_succ deep)))

theorem evaluate_dotted (leads : context.along? (first :: others) = some v)
    (enough : others.length < evaluationDepth) :
    ((dotted first others).evaluate (.holding context)).1 = .ok v := by
  obtain ⟨t', returned⟩ := evaluateWithin_dotted leads enough .empty
  exact congrArg Prod.fst returned

theorem evaluate_dotted_deep {context : Context} (deep : evaluationDepth ≤ others.length) :
    ((dotted first others).evaluate context).1 = .error (.malformed .nestedTooDeeply) :=
  evaluateWithin_dotted_deep deep .empty

end Expr

end Visibility
