import Mathlib.Algebra.Ring.Parity
import Mathlib.Data.List.TakeWhile
import Visibility.Proofs.Concatenation

/-!
# Strings that the text ends in

A string that is never closed is read like the same string with a closing quote.  A backslash in
front of that quote would make it content, unless the backslash is content itself.  Backslashes pair
up from the first one of a run, whatever stands before the run, so the length of the last run tells.

* `QuotedBody.even_backslashes` — where all of a string is content, every backslash has its pair
* `FirstWord.before_quote`, `Segments.before_quote` — the words before a string do not depend on
  what is in it
* `segments_closed` — the words of a text whose string is closed at its end
* `tokenize_closed` — closing the string changes no token
-/

namespace Visibility

/-! ## §1 Backslashes at the end -/

/-- How many backslashes a text ends in. -/
def finalBackslashes (cs : List Char) : Nat :=
  (cs.reverse.takeWhile (· == '\\')).length

/-- The last backslash of the text has none to pair with. -/
def EndsUnpaired (cs : List Char) : Prop :=
  Odd (finalBackslashes cs)

section Backslashes

variable {quote c : Char} {front cs written content : List Char}

/-- Only a text of nothing but backslashes goes on with those in front of it. -/
theorem finalBackslashes_append (front cs : List Char) :
    finalBackslashes (front ++ cs) =
      if cs.all (· == '\\') then finalBackslashes front + cs.length else finalBackslashes cs := by
  have all : ((cs.reverse.takeWhile (· == '\\')).length = cs.reverse.length) ↔
      cs.all (· == '\\') = true := by
    rw [(List.takeWhile_prefix _).sublist.length_eq, List.takeWhile_eq_self_iff]
    simp
  simp only [finalBackslashes, List.reverse_append, List.takeWhile_append, all]
  split
  · rw [List.length_append, List.length_reverse, Nat.add_comm]
  · rfl

theorem finalBackslashes_of_all (all : cs.all (· == '\\') = true) :
    finalBackslashes cs = cs.length := by
  have own := finalBackslashes_append [] cs
  rw [List.nil_append, if_pos all] at own
  rw [own]
  exact Nat.zero_add _

theorem finalBackslashes_concat (cs : List Char) :
    finalBackslashes (cs ++ ['\\']) = finalBackslashes cs + 1 := by
  rw [finalBackslashes_append, if_pos (by simp)]
  rfl

/-- No run of backslashes reaches across another character. -/
theorem finalBackslashes_behind (other : c ≠ '\\') (front cs : List Char) :
    finalBackslashes (front ++ c :: cs) = finalBackslashes cs := by
  have none : finalBackslashes (front ++ [c]) = 0 := by
    simp [finalBackslashes, other]
  rw [List.append_cons, finalBackslashes_append, none]
  split
  · rename_i all
    rw [finalBackslashes_of_all all, Nat.zero_add]
  · rfl

/-- An escape in front has two backslashes or none for the run. -/
theorem even_finalBackslashes_escape (c : Char) (even : Even (finalBackslashes cs)) :
    Even (finalBackslashes ('\\' :: c :: cs)) := by
  have pair : Even (finalBackslashes ['\\', c]) := by
    by_cases same : c = '\\'
    · subst same
      decide
    · simp [finalBackslashes, same]
  have whole := finalBackslashes_append ['\\', c] cs
  rw [List.cons_append, List.cons_append, List.nil_append] at whole
  rw [whole]
  split
  · rename_i all
    rw [finalBackslashes_of_all all] at even
    exact pair.add even
  · exact even

/-- Where all of a string is content, every backslash has its pair. -/
theorem QuotedBody.even_backslashes (body : QuotedBody quote written content) :
    Even (finalBackslashes written) := by
  induction body with
  | nil => exact Even.zero
  | plain _ noEscape _ ih => rwa [← List.nil_append (_ :: _), finalBackslashes_behind noEscape]
  | escaped _ ih => exact even_finalBackslashes_escape _ ih

theorem QuotedBody.not_endsUnpaired (body : QuotedBody quote written content)
    (opens : isQuote quote = true) (front : List Char) :
    ¬EndsUnpaired (front ++ quote :: written) := by
  rw [EndsUnpaired, finalBackslashes_behind (isQuote_ne_backslash opens), Nat.not_odd_iff_even]
  exact body.even_backslashes

theorem QuotedBody.endsUnpaired (body : QuotedBody quote written content)
    (opens : isQuote quote = true) (front : List Char) :
    EndsUnpaired (front ++ quote :: (written ++ ['\\'])) := by
  rw [EndsUnpaired, finalBackslashes_behind (isQuote_ne_backslash opens), finalBackslashes_concat]
  exact body.even_backslashes.add_one

end Backslashes

/-! ## §2 What stands before a string -/

section BeforeQuote

variable {quote : Char} {lexeme cs front written : List Char}

/-- How far a word can reach does not depend on what is in the string behind it. -/
theorem IsLongest.before_quote (opens : isQuote quote = true)
    (longest : IsLongest lexeme (front ++ quote :: written)) (other : List Char) :
    IsLongest lexeme (front ++ quote :: other) := by
  intro kind longer word start
  rw [← List.append_assoc] at start
  have inFront : longer <+: lexeme ++ front := word.prefix_of_quote opens start
  refine longest kind longer word (inFront.trans ?_)
  rw [← List.append_assoc]
  exact List.prefix_append ..

theorem FirstWord.before_quote {t : Token} (opens : isQuote quote = true)
    (first : FirstWord t cs (front ++ quote :: written)) :
    ∃ word, cs = word ++ (front ++ quote :: written) ∧
      ∀ other, FirstWord t (word ++ (front ++ quote :: other)) (front ++ quote :: other) := by
  cases first with
  | lexeme word longest =>
    exact ⟨_, rfl, fun other => .lexeme word (longest.before_quote opens other)⟩
  | string word => exact ⟨_, rfl, fun _ => .string word⟩

/-- The words before a string stay cut off, whatever is in the string. -/
theorem Segments.before_quote {ts : List Token} (opens : isQuote quote = true)
    (cut : Segments ts cs (quote :: written)) :
    ∃ front, cs = front ++ quote :: written ∧
      ∀ other, Segments ts (front ++ quote :: other) (quote :: other) := by
  generalize rest : quote :: written = text at cut
  induction cut with
  | @blanks blanks _ space =>
    subst rest
    exact ⟨blanks, rfl, fun other => .blanks space⟩
  | @word blanks _ _ _ _ _ space first _ ih =>
    obtain ⟨front, rfl, others⟩ := ih rest
    subst rest
    obtain ⟨word, rfl, stays⟩ := first.before_quote opens
    refine ⟨blanks ++ word ++ front, by simp, fun other => ?_⟩
    rw [List.append_assoc, List.append_assoc]
    exact .word space (stays other) (others other)

end BeforeQuote

/-! ## §3 Closing a string -/

/-- The text ends within a string that the quote opened. -/
def EndsInStringOf (quote : Char) (cs : List Char) : Prop :=
  ∃ ts written content,
    Segments ts cs (quote :: written) ∧ IsUnclosedString (quote :: written) content

theorem endsInString_iff {cs : List Char} :
    EndsInString cs ↔ ∃ quote, EndsInStringOf quote cs := by
  constructor
  · rintro ⟨ts, literal, content, cut, word⟩
    obtain ⟨quote, written, rfl, -⟩ := word.head
    exact ⟨quote, ts, written, content, cut, word⟩
  · rintro ⟨quote, ts, written, content, cut, word⟩
    exact ⟨ts, _, content, cut, word⟩

/-- Words that are cut off behind other words are cut off with them. -/
theorem Segments.append {ts us : List Token} {cs text rest : List Char} (cut : Segments ts cs text)
    (others : Segments us text rest) : Segments (ts ++ us) cs rest := by
  induction cut with
  | @blanks blanks _ space =>
    cases others with
    | @blanks more rest space' =>
      rw [← List.append_assoc]
      exact .blanks (List.forall_mem_append.mpr ⟨space, space'⟩)
    | word space' first others =>
      rw [← List.append_assoc]
      exact .word (List.forall_mem_append.mpr ⟨space, space'⟩) first others
  | word space first _ ih => exact .word space first (ih others)

/-- If what is written is all content, a quote behind it closes the string. -/
theorem segments_closed {ts : List Token} {quote : Char} {front written content : List Char}
    (opens : isQuote quote = true) (body : QuotedBody quote written content)
    (before : ∀ other, Segments ts (front ++ quote :: other) (quote :: other)) :
    Segments (ts ++ [⟨.string, String.ofList content⟩]) (front ++ quote :: (written ++ [quote]))
      [] := by
  let literal := quote :: (written ++ [quote])
  have first : FirstWord ⟨.string, String.ofList content⟩ (literal ++ []) [] :=
    .string (.closed opens body)
  rw [List.append_nil] at first
  have noBlanks : ∀ c ∈ ([] : List Char), Text.isBlank c = true := List.forall_mem_nil _
  have last : Segments [⟨.string, String.ofList content⟩] ([] ++ literal) [] :=
    .word noBlanks first (.blanks noBlanks)
  exact (before _).append last

/-- **Leaving a string open is closing it at the end.**  A text that ends within a string has
tokens, and they are the words of the same text with the string closed: with the quote behind it, or
with the quote in place of its last character, if this is a backslash that none before it is paired
with. -/
theorem tokenize_closed {source : String} {quote : Char}
    (ends : EndsInStringOf quote source.toList) :
    ∃ ts, tokenize source = .ok (ts ++ [.eof]) ∧
      (¬EndsUnpaired source.toList →
        Segments ts (source.push quote).toList [] ∧
          tokenize (source.push quote) = tokenize source) ∧
      (EndsUnpaired source.toList → ∃ front : String, source = front.push '\\' ∧
        Segments ts (front.push quote).toList [] ∧
          tokenize (front.push quote) = tokenize source) := by
  obtain ⟨ts, written, content, cut, word⟩ := ends
  let words := ts ++ [⟨.string, String.ofList content⟩]
  have read : tokenize source = .ok (words ++ [.eof]) :=
    tokenize_of_segmentation (.unclosed cut word)
  have same_tokens {text : String} (closed : Segments words text.toList []) :
      tokenize text = tokenize source :=
    (tokenize_of_segmentation (.closed closed)).trans read.symm
  refine ⟨words, read, ?_⟩
  cases word with
  | ended opens body =>
    obtain ⟨front, same, before⟩ := cut.before_quote opens
    have paired : ¬EndsUnpaired source.toList := by
      rw [same]
      exact body.not_endsUnpaired opens front
    have closed : Segments words (source.push quote).toList [] := by
      rw [String.toList_push, same, List.append_assoc]
      exact segments_closed opens body before
    exact ⟨fun _ => ⟨closed, same_tokens closed⟩, fun unpaired => absurd unpaired paired⟩
  | @backslash _ written _ opens body =>
    obtain ⟨before, same, others⟩ := cut.before_quote opens
    have unpaired : EndsUnpaired source.toList := by
      rw [same]
      exact body.endsUnpaired opens before
    let front := String.ofList (before ++ quote :: written)
    have last : source = front.push '\\' := by
      rw [← String.toList_inj, String.toList_push, same]
      simp [front]
    have closed : Segments words (front.push quote).toList [] := by
      rw [String.toList_push, String.toList_ofList, List.append_assoc]
      exact segments_closed opens body others
    exact ⟨fun paired => absurd unpaired paired, fun _ => ⟨front, last, closed, same_tokens closed⟩⟩

/-- In `!'it\'s \\\` the quote inside is content and two of the last three backslashes are a pair,
so it is the third one whose place the closing quote takes. -/
theorem tokenize_closed_backslashes :
    let source := "!'it\\'s \\\\\\"
    let closed := "!'it\\'s \\\\'"
    EndsInStringOf '\'' source.toList ∧ EndsUnpaired source.toList ∧
      tokenize source = .ok [⟨.operator, "!"⟩, ⟨.string, "it's \\"⟩, .eof] ∧
      tokenize closed = tokenize source := by
  intro source closed
  let written := ['i', 't', '\\', '\'', 's', ' ', '\\', '\\']
  let literal := '\'' :: (written ++ ['\\'])
  have body : QuotedBody '\'' written ['i', 't', '\'', 's', ' ', '\\'] :=
    .plain (by decide) (by decide) <| .plain (by decide) (by decide) <| .escaped <|
      .plain (by decide) (by decide) <| .plain (by decide) (by decide) <| .escaped .nil
  have fixed : fixedToken? (['!'] ++ literal) = some (['!'], .operator) := by decide
  have negation : FirstWord ⟨.operator, "!"⟩ (['!'] ++ literal) literal :=
    .lexeme (isLexeme_of_mem_fixedTokens (List.mem_of_find?_eq_some fixed)) (isLongest_fixed fixed)
  have noBlanks : ∀ c ∈ ([] : List Char), Text.isBlank c = true := List.forall_mem_nil _
  have chars : source.toList = [] ++ (['!'] ++ literal) := by decide
  have cut : Segments [⟨.operator, "!"⟩] source.toList literal := by
    rw [chars]
    exact .word noBlanks negation (.blanks noBlanks)
  have ends : EndsInStringOf '\'' source.toList := ⟨_, _, _, cut, .backslash rfl body⟩
  have unpaired : EndsUnpaired source.toList := by
    unfold EndsUnpaired
    decide
  obtain ⟨ts, -, -, replaced⟩ := tokenize_closed ends
  obtain ⟨front, same, -, closes⟩ := replaced unpaired
  have whole : front.push '\'' = closed := by
    have last : ("!'it\\'s \\\\".push '\\').toList = (front.push '\\').toList :=
      congrArg String.toList same
    rw [String.toList_push, String.toList_push] at last
    have := String.toList_inj.mp (List.append_cancel_right last)
    rw [← this]
    rfl
  have words : tokenize source = .ok [⟨.operator, "!"⟩, ⟨.string, "it's \\"⟩, .eof] := by
    dsimp only [source]
    cbv
  exact ⟨ends, unpaired, words, whole ▸ closes⟩

end Visibility
