import Visibility.Condition
import Visibility.Proofs.Segmentation
import Visibility.Proofs.Spelling

/-!
# From trees to texts and back

The text of a tree has the tokens of the tree with one space between two of them.  A string is
written between quotes of either kind, with a backslash before every backslash and every quote of
that kind, and every other token as it is.

* `IsText` — how the tokens of a tree are written
* `IsSpelling` — the texts of a tree: the quotes and the lexemes of numbers are free
* `nesting` — the calls within each other that reading a tree takes

Main statements: `segmentation_of_isText` (written words are cut as they were written),
`compile_of_tokens` (a tree is compiled from its tokens, unless it is nested too deeply) and
`compile_spelling` (compiling and spelling are inverse to each other).
-/

namespace Visibility

open Visibility.Grammar

/-! ## §1 Texts of trees -/

/-- The content of a string as it is written between quotes. -/
def escape (quote : Char) (content : List Char) : List Char :=
  content.flatMap fun c => if c = quote ∨ c = '\\' then ['\\', c] else [c]

/-- How a token is written. -/
inductive IsWritten : Token → List Char → Prop where
  | string {quote : Char} (content : String) : isQuote quote = true →
      IsWritten ⟨.string, content⟩ (quote :: (escape quote content.toList ++ [quote]))
  | plain {t : Token} : t.kind ≠ .string → IsWritten t t.text.toList

/-- The text consists of the tokens with one space between two of them. -/
def IsText (ts : List Token) (text : List Char) : Prop :=
  ∃ words, List.Forall₂ IsWritten ts words ∧ text = List.intercalate [' '] words

/-- The text is a spelling of the tree. -/
def IsSpelling (e : Expr) (text : String) : Prop :=
  ∃ ts, Spells e ts ∧ IsText ts text.toList

/-! ## §2 Written words are cut as they were written -/

/-- Between its quotes a string is written by its escaped content. -/
theorem quotedBody_escape (quote : Char) (content : List Char) :
    QuotedBody quote (escape quote content) content := by
  induction content with
  | nil => exact .nil
  | cons c cs ih =>
    rw [escape, List.flatMap_cons]
    split
    · exact .escaped ih
    · rename_i plain
      rw [not_or] at plain
      exact .plain plain.1 plain.2 ih

/-- A word is the longest if the text after it starts with a blank, because no word has one. -/
theorem isLongest_of_blank {lexeme text : List Char}
    (blank : ∀ c ∈ text.head?, Text.isBlank c = true) : IsLongest lexeme text :=
  fun _ _ word start => (word.prefix_of_blank blank start).length_le

/-- A written word is the first of a text if what follows it starts with a blank. -/
theorem firstWord_of_isWritten {t : Token} {written text : List Char} (word : IsWord t)
    (write : IsWritten t written) (blank : ∀ c ∈ text.head?, Text.isBlank c = true) :
    FirstWord t (written ++ text) text := by
  cases write with
  | string content quote =>
    have literal : IsString _ content.toList := .closed quote (quotedBody_escape _ _)
    have first : FirstWord _ _ text := .string literal
    rwa [String.ofList_toList] at first
  | plain notString =>
    have lexeme := word.resolve_left notString
    have first : FirstWord _ _ text := .lexeme lexeme (isLongest_of_blank blank)
    rwa [String.ofList_toList] at first

/-- The words, each behind a space. -/
def spaced (words : List (List Char)) : List Char :=
  words.flatMap fun word => ' ' :: word

theorem intercalate_space (word : List Char) (words : List (List Char)) :
    List.intercalate [' '] (word :: words) = word ++ spaced words := by
  induction words generalizing word with
  | nil => simp [spaced]
  | cons next words ih =>
    rw [List.intercalate_cons_cons, ih]
    simp [spaced]

theorem spaced_head (words : List (List Char)) :
    ∀ c ∈ (spaced words).head?, Text.isBlank c = true := by
  cases words with
  | nil => nofun
  | cons word words =>
    intro c mem
    cases mem
    rfl

theorem segments_of_spaced {ts : List Token} {words : List (List Char)}
    (write : List.Forall₂ IsWritten ts words) (word : ∀ t ∈ ts, IsWord t) :
    Segments ts (spaced words) [] := by
  have space : ∀ c ∈ [' '], Text.isBlank c = true := List.forall_mem_singleton.mpr rfl
  induction write with
  | nil => exact .blanks (List.forall_mem_nil _)
  | @cons t written ts words first _ ih =>
    rw [List.forall_mem_cons] at word
    have start := firstWord_of_isWritten word.1 first (spaced_head words)
    have cut : Segments (t :: ts) ([' '] ++ (written ++ spaced words)) [] :=
      .word space start (ih word.2)
    exact cut

/-- A text of words is cut into them. -/
theorem segmentation_of_isText {ts : List Token} {text : List Char} (write : IsText ts text)
    (word : ∀ t ∈ ts, IsWord t) : Segmentation ts text := by
  obtain ⟨words, written, rfl⟩ := write
  cases written with
  | nil => exact .closed (.blanks (List.forall_mem_nil _))
  | @cons t first ts words write others =>
    rw [List.forall_mem_cons] at word
    rw [intercalate_space]
    have start := firstWord_of_isWritten word.1 write (spaced_head words)
    have cut : Segments (t :: ts) ([] ++ (first ++ spaced words)) [] :=
      .word (List.forall_mem_nil _) start (segments_of_spaced others word.2)
    exact .closed cut

/-- The words of a segmentation are words that a text can have. -/
theorem Segments.isWord {ts : List Token} {cs rest : List Char} (cut : Segments ts cs rest) :
    ∀ t ∈ ts, IsWord t := by
  induction cut with
  | blanks _ => exact List.forall_mem_nil _
  | word _ first _ ih =>
    refine List.forall_mem_cons.mpr ⟨?_, ih⟩
    cases first with
    | lexeme word _ => exact .inr (by rwa [String.toList_ofList])
    | string _ => exact .inl rfl

theorem Segmentation.isWord {ts : List Token} {cs : List Char} (cut : Segmentation ts cs) :
    ∀ t ∈ ts, IsWord t := by
  cases cut with
  | closed cut => exact cut.isWord
  | unclosed cut _ =>
    exact List.forall_mem_append.mpr ⟨cut.isWord, List.forall_mem_singleton.mpr (.inl rfl)⟩

/-- The words of a text are all that stands before the end. -/
theorem beforeEnd_of_isWord {ts : List Token} (word : ∀ t ∈ ts, IsWord t) :
    beforeEnd (ts ++ [.eof]) = ts :=
  beforeEnd_append (fun t mem => (word t mem).ne_eof) rfl

/-- The token as it is written with strings between quotes of this kind. -/
def Token.write (quote : Char) (t : Token) : List Char :=
  if t.kind = .string then quote :: (escape quote t.text.toList ++ [quote]) else t.text.toList

theorem isWritten_write {quote : Char} (isQuote : isQuote quote = true) (t : Token) :
    IsWritten t (t.write quote) := by
  unfold Token.write
  split
  · rename_i string
    obtain ⟨kind, content⟩ := t
    cases string
    exact .string content isQuote
  · rename_i notString
    exact .plain notString

theorem areWritten_write {quote : Char} (isQuote : isQuote quote = true) (ts : List Token) :
    List.Forall₂ IsWritten ts (ts.map (Token.write quote)) :=
  List.forall₂_map_right_iff.mpr (List.forall₂_same.mpr fun t _ => isWritten_write isQuote t)

/-- Tokens have a text, in which all strings may stand between quotes of one kind. -/
theorem exists_isText (ts : List Token) : ∃ text, IsText ts text :=
  ⟨_, _, areWritten_write (rfl : isQuote '"' = true) ts, rfl⟩

/-! ## §3 Trees are compiled from their tokens -/

/-- The calls within each other that reading a tree takes. -/
def nesting (e : Expr) : Nat :=
  6 + openedCalls e

theorem ofTokens_of_isExpression {ts : List Token} {e : Expr} (h : IsExpression (beforeEnd ts) e) :
    Expr.ofTokens ts =
      if nesting e ≤ Expr.callDepth then .ok e else .error .nestedTooDeeply := by
  split
  · rename_i enough
    exact ofTokens_eq_ok.mpr ⟨_, (parse_takesCalls h).1 enough⟩
  · rename_i short
    exact ofTokens_eq_error.mpr ((parse_takesCalls h).2 (Nat.not_le.mp short))

/-- A text is compiled to the tree that its tokens spell, unless that is nested too deeply. -/
theorem compile_of_tokens {source : String} {ts : List Token} {e : Expr}
    (read : tokenize source = .ok (ts ++ [.eof])) (layered : Layered .disjunction e)
    (spelled : Spells e ts) :
    Condition.compile source =
      if nesting e ≤ Expr.callDepth then .ok ⟨source, e⟩ else .error .nestedTooDeeply := by
  have derived : IsExpression (beforeEnd (ts ++ [.eof])) e := by
    rw [beforeEnd_of_isWord (layered.isWord ts spelled)]
    exact layered.derives ts spelled
  have parsed := ofTokens_of_isExpression derived
  simp only [Condition.compile, read]
  by_cases enough : nesting e ≤ Expr.callDepth
  · rw [if_pos enough] at parsed
    simp only [parsed, if_pos enough]
  · rw [if_neg enough] at parsed
    simp only [parsed, if_neg enough]

/-- A tree that opens no calls within each other is not nested too deeply. -/
theorem compile_of_flat {source : String} {ts : List Token} {e : Expr}
    (read : tokenize source = .ok (ts ++ [.eof])) (layered : Layered .disjunction e)
    (spelled : Spells e ts) (flat : openedCalls e = 0) :
    Condition.compile source = .ok ⟨source, e⟩ := by
  rw [compile_of_tokens read layered spelled, nesting, flat]
  rfl

theorem tokenize_of_isSpelling {e : Expr} {text : String} (layered : Layered .disjunction e)
    (spelling : IsSpelling e text) :
    ∃ ts, Spells e ts ∧ tokenize text = .ok (ts ++ [.eof]) := by
  obtain ⟨ts, spelled, write⟩ := spelling
  have cut := segmentation_of_isText write (layered.isWord ts spelled)
  exact ⟨ts, spelled, tokenize_of_segmentation cut⟩

/-- The tree of a text that is compiled is the one that its words derive. -/
theorem derives_of_compile {source : String} {c : Condition}
    (compiled : Condition.compile source = .ok c) :
    c.source = source ∧ ∃ ts, Segmentation ts source.toList ∧ IsExpression ts c.expr := by
  unfold Condition.compile at compiled
  split at compiled
  · cases compiled
  · rename_i us read
    split at compiled
    · cases compiled
    · rename_i e parsed
      cases compiled
      obtain ⟨ts, rfl, cut⟩ := tokenize_eq_ok.mp read
      obtain ⟨rest, done⟩ := ofTokens_eq_ok.mp parsed
      have derived := parse_sound done
      rw [beforeEnd_of_isWord cut.isWord] at derived
      exact ⟨rfl, ts, cut, derived⟩

/-- The tokens of a text that is compiled spell its tree. -/
theorem spells_of_compile {source : String} {c : Condition}
    (compiled : Condition.compile source = .ok c) :
    c.source = source ∧ Layered .disjunction c.expr ∧
      ∃ ts, tokenize source = .ok (ts ++ [.eof]) ∧ Spells c.expr ts := by
  obtain ⟨same, ts, cut, derived⟩ := derives_of_compile compiled
  obtain ⟨layered, spelled⟩ := derived.spelled cut.isWord
  exact ⟨same, layered, ts, tokenize_of_segmentation cut, spelled⟩

/-- **Compiling and spelling are inverse to each other.**  Every tree of the loosest level has
spellings, and each of them is compiled to it, unless the tree is nested too deeply, which is then
the error.  The tree of every text that is compiled is such a tree, and the tokens of its spellings
are those of the text, but for the lexemes of numbers. -/
theorem compile_spelling :
    (∀ e, Layered .disjunction e → (∃ text, IsSpelling e text) ∧
      ∀ text, IsSpelling e text → Condition.compile text =
        if nesting e ≤ Expr.callDepth then .ok ⟨text, e⟩ else .error .nestedTooDeeply) ∧
    ∀ source c, Condition.compile source = .ok c →
      c.source = source ∧ Layered .disjunction c.expr ∧ nesting c.expr ≤ Expr.callDepth ∧
      (∃ text, IsSpelling c.expr text ∧ tokenize text = tokenize source) ∧
      ∀ text, IsSpelling c.expr text → ∃ ts us, tokenize source = .ok (ts ++ [.eof]) ∧
        tokenize text = .ok (us ++ [.eof]) ∧ List.Forall₂ SameUpToNumeral ts us := by
  refine ⟨fun e layered => ⟨?_, fun text spelling => ?_⟩, fun source c compiled => ?_⟩
  · obtain ⟨ts, spelled⟩ := layered.exists_spells
    obtain ⟨text, write⟩ := exists_isText ts
    exact ⟨String.ofList text, ts, spelled, by rwa [String.toList_ofList]⟩
  · obtain ⟨ts, spelled, read⟩ := tokenize_of_isSpelling layered spelling
    exact compile_of_tokens read layered spelled
  · obtain ⟨same, layered, ts, read, spelled⟩ := spells_of_compile compiled
    refine ⟨same, layered, ?_, ?_, fun text spelling => ?_⟩
    · -- The tree has a spelling with the tokens of the text, and this would be refused if the tree
      -- was too deep.
      by_contra deep
      have refused := compile_of_tokens read layered spelled
      rw [if_neg deep] at refused
      exact nomatch compiled.symm.trans refused
    · obtain ⟨text, write⟩ := exists_isText ts
      rw [← String.toList_ofList (l := text)] at write
      have cut := segmentation_of_isText write (layered.isWord ts spelled)
      exact ⟨String.ofList text, ⟨ts, spelled, write⟩, (tokenize_of_segmentation cut).trans read.symm⟩
    · obtain ⟨us, spelled', read'⟩ := tokenize_of_isSpelling layered spelling
      exact ⟨ts, us, read, read', layered.sameUpToNumerals ts us spelled spelled'⟩

theorem compile_spelling_negated_call :
    let e := Expr.binary .or
      (.unary .not (.call (.name "a") "includes" [.literal (.string "it's"), .group (.name "b")]))
      (.binary .looseEqual (.literal (.double (Numeral.lexemeValue "1.5"))) (.name "truth"))
    let text := "! a . includes ( 'it\\'s' , ( b ) ) || 1.50 == truth"
    Layered .disjunction e ∧ IsSpelling e text ∧ Condition.compile text = .ok ⟨text, e⟩ := by
  intro e text
  have named : ∀ s ∈ ["a", "includes", "b", "truth"], IsName s := by
    simp only [List.mem_cons, List.not_mem_nil, or_false]
    rintro s (rfl | rfl | rfl | rfl)
    · exact ⟨⟨'a', [], rfl, rfl, List.all_eq_true.mp rfl⟩, by decide⟩
    · exact ⟨⟨'i', "ncludes".toList, rfl, rfl, List.all_eq_true.mp rfl⟩, by decide⟩
    · exact ⟨⟨'b', [], rfl, rfl, List.all_eq_true.mp rfl⟩, by decide⟩
    · exact ⟨⟨'t', "ruth".toList, rfl, rfl, List.all_eq_true.mp rfl⟩, by decide⟩
  have written : WritesLiteral ⟨.number, "1.50"⟩ (.double (Numeral.lexemeValue "1.5")) := by
    have same : Numeral.lexemeValue "1.5" = Numeral.lexemeValue "1.50" := by decide +kernel
    rw [same]
    exact .number (.number rfl (List.all_eq_true.mp rfl))
  -- Every part stands on the tightest level that its grammar rule gives it.
  have layered : Layered .disjunction e := by
    have b : Layered .disjunction (.name "b") := .conjunction (.comparison (.negation
      (.postfixed (.primary (.name (named "b" (by simp)))))))
    have arguments : ∀ x ∈ [Expr.literal (.string "it's"), .group (.name "b")],
        Layered .disjunction x := by
      simp only [List.forall_mem_cons, List.not_mem_nil, false_imp_iff, implies_true, and_true]
      exact ⟨.conjunction (.comparison (.negation (.postfixed (.primary (.literal (.string _)))))),
        .conjunction (.comparison (.negation (.postfixed (.primary (.group b)))))⟩
    have call := Layered.call (.primary (.name (named "a" (by simp)))) (named "includes" (by simp))
      arguments
    have number : Layered .postfixed _ := .primary (.literal written)
    have truth : Layered .postfixed _ := .primary (.name (named "truth" (by simp)))
    have equal : Layered .comparison (.binary .looseEqual _ _) :=
      .compare (by decide) (.negation (.postfixed number)) (.postfixed truth)
    exact .or (.conjunction (.comparison (.negation (.not (.postfixed call))))) (.comparison equal)
  have spelling : IsSpelling e text := by
    have call : Spells (.call (.name "a") "includes" [.literal (.string "it's"), .group (.name "b")])
        _ := ⟨_, _, rfl, ⟨_, _, ⟨_, .string _, rfl⟩, ⟨_, rfl, rfl⟩, rfl⟩, rfl⟩
    have spelled : Spells e _ := ⟨_, _, ⟨_, call, rfl⟩, ⟨_, _, ⟨_, written, rfl⟩, rfl, rfl⟩, rfl⟩
    exact ⟨_, spelled, _, areWritten_write (rfl : isQuote '\'' = true) _, by decide⟩
  exact ⟨layered, spelling, (compile_spelling.1 e layered).2 text spelling⟩

end Visibility
