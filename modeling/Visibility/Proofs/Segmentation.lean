import Visibility.Proofs.Lexeme
import Mathlib.Logic.Basic

/-!
# Texts as sequences of words

Which words a text consists of, stated without a lexer.  Strings are quoted literals, and blanks may
stand before and after every word.  A text is cut from the left, and every cut that begins no string
takes the longest word there.

* `Segments` cuts words off the front of a text, and every string of them is closed.
* `Segmentation` cuts all of it, and a string that the text ends in may lack its closing quote.
* `Stuck` is where no blank, no string and no word begins.

Main statements: `segmented_or_stuck` (every text is one of the two), `Lexer.tokens_of_segments`
(the lexer follows the cuts) and `tokenize_segmentation` (which of the two a text is, the lexer
says, with the words or with the place).
-/

namespace Visibility

/-! ## §1 String literals -/

/-- How the content of a string is written between quotes of this kind. -/
inductive QuotedBody (quote : Char) : List Char → List Char → Prop where
  | nil : QuotedBody quote [] []
  | plain {c : Char} {written content : List Char} :
      c ≠ quote → c ≠ '\\' → QuotedBody quote written content →
      QuotedBody quote (c :: written) (c :: content)
  /-- Behind a backslash every character stands for itself. -/
  | escaped {c : Char} {written content : List Char} :
      QuotedBody quote written content → QuotedBody quote ('\\' :: c :: written) (c :: content)

/-- A literal, and the content of the string. -/
inductive IsString : List Char → List Char → Prop where
  | closed {quote : Char} {written content : List Char} :
      isQuote quote = true → QuotedBody quote written content →
      IsString (quote :: (written ++ [quote])) content

/-- A literal that the text ends in before it is closed, and the content of the string. -/
inductive IsUnclosedString : List Char → List Char → Prop where
  | ended {quote : Char} {written content : List Char} :
      isQuote quote = true → QuotedBody quote written content →
      IsUnclosedString (quote :: written) content
  /-- A backslash with nothing behind it stands for nothing. -/
  | backslash {quote : Char} {written content : List Char} :
      isQuote quote = true → QuotedBody quote written content →
      IsUnclosedString (quote :: (written ++ ['\\'])) content

/-! ## §2 Segmentations -/

/-- The text starts with the word that the token stands for, and goes on with the rest. -/
inductive FirstWord : Token → List Char → List Char → Prop where
  | lexeme {kind : TokenKind} {lexeme rest : List Char} :
      IsLexeme kind lexeme → IsLongest lexeme rest →
      FirstWord ⟨kind, String.ofList lexeme⟩ (lexeme ++ rest) rest
  | string {literal content rest : List Char} :
      IsString literal content →
      FirstWord ⟨.string, String.ofList content⟩ (literal ++ rest) rest

/-- The text consists of the words, each behind a run of blanks, a last run of blanks and the
rest. -/
inductive Segments : List Token → List Char → List Char → Prop where
  | blanks {blanks rest : List Char} :
      (∀ c ∈ blanks, Text.isBlank c = true) → Segments [] (blanks ++ rest) rest
  | word {blanks cs text rest : List Char} {t : Token} {ts : List Token} :
      (∀ c ∈ blanks, Text.isBlank c = true) → FirstWord t cs text → Segments ts text rest →
      Segments (t :: ts) (blanks ++ cs) rest

/-- The text consists of the words and of blanks around them.  Only a last word may be a string that
is not closed, and nothing follows it. -/
inductive Segmentation : List Token → List Char → Prop where
  | closed {ts : List Token} {cs : List Char} : Segments ts cs [] → Segmentation ts cs
  | unclosed {ts : List Token} {cs literal content : List Char} :
      Segments ts cs literal → IsUnclosedString literal content →
      Segmentation (ts ++ [⟨.string, String.ofList content⟩]) cs

/-- The character is no blank, and no string and no word begins at it, although one might with
other characters behind it, as a single `=` shows. -/
structure Stuck (c : Char) (after : List Char) : Prop where
  no_blank : Text.isBlank c = false
  no_quote : isQuote c = false
  no_lexeme : ∀ kind lexeme, IsLexeme kind lexeme → ¬lexeme <+: c :: after

/-- One more word in front. -/
theorem Segmentation.word {blanks cs text : List Char} {t : Token} {ts : List Token}
    (space : ∀ c ∈ blanks, Text.isBlank c = true) (first : FirstWord t cs text)
    (others : Segmentation ts text) : Segmentation (t :: ts) (blanks ++ cs) := by
  cases others with
  | closed others => exact .closed (.word space first others)
  | unclosed others last => exact .unclosed (.word space first others) last

/-! ## §3 Reading strings -/

theorem isQuote_ne_backslash {c : Char} (quote : isQuote c = true) : c ≠ '\\' := by
  rintro rfl
  cases quote

/-- Behind the written content of a string, reading goes on as before. -/
theorem readQuoted_append {quote : Char} {written content : List Char}
    (body : QuotedBody quote written content) (noBackslash : quote ≠ '\\') (cs : List Char) :
    readQuoted quote (written ++ cs) = ⟨content ++ (readQuoted quote cs).content,
      (readQuoted quote cs).width + written.length, (readQuoted quote cs).rest⟩ := by
  induction body with
  | nil => rfl
  | plain noQuote noEscape _ ih =>
    rw [List.cons_append, readQuoted.eq_def]
    simp only [noQuote, noEscape, if_false, ih, QuotedText.cons, List.length_cons, List.cons_append,
      Nat.add_assoc]
  | escaped _ ih =>
    rw [List.cons_append, List.cons_append, readQuoted.eq_def]
    simp only [noBackslash.symm, if_false, if_true, ih, QuotedText.cons, List.length_cons,
      List.cons_append, Nat.add_assoc]

/-- A text is the content of a string and its closing quote, or it ends before there is one. -/
theorem quotedBody_cases (quote : Char) (cs : List Char) :
    (∃ written content rest, QuotedBody quote written content ∧ cs = written ++ quote :: rest) ∨
      (∃ content, QuotedBody quote cs content) ∨
      ∃ written content, QuotedBody quote written content ∧ cs = written ++ ['\\'] := by
  -- the cases of the reader: the end, the quote, a last backslash, an escape, another character
  fun_induction readQuoted quote cs with
  | case1 => exact .inr (.inl ⟨_, .nil⟩)
  | case2 cs => exact .inl ⟨_, _, cs, .nil, rfl⟩
  | case3 => exact .inr (.inr ⟨_, _, .nil, rfl⟩)
  | case4 _ d ds ih =>
    rcases ih with ⟨written, content, rest, body, rfl⟩ | ⟨content, body⟩ |
      ⟨written, content, body, rfl⟩
    · exact .inl ⟨_, _, rest, .escaped body, rfl⟩
    · exact .inr (.inl ⟨_, .escaped body⟩)
    · exact .inr (.inr ⟨_, _, .escaped body, rfl⟩)
  | case5 c cs noQuote noEscape ih =>
    rcases ih with ⟨written, content, rest, body, rfl⟩ | ⟨content, body⟩ |
      ⟨written, content, body, rfl⟩
    · exact .inl ⟨_, _, rest, .plain noQuote noEscape body, rfl⟩
    · exact .inr (.inl ⟨_, .plain noQuote noEscape body⟩)
    · exact .inr (.inr ⟨_, _, .plain noQuote noEscape body, rfl⟩)

/-- A string is read up to its closing quote. -/
theorem scan_string {literal content : List Char} (word : IsString literal content)
    (text : List Char) :
    scan (literal ++ text) = .token ⟨.string, String.ofList content⟩ literal.length text := by
  obtain ⟨quote, body⟩ := word
  rename_i q written
  have last : readQuoted q (q :: text) = ⟨[], 1, text⟩ := by
    rw [readQuoted.eq_def]
    simp
  have read := readQuoted_append body (isQuote_ne_backslash quote) (q :: text)
  rw [last, List.append_nil] at read
  simp only [List.cons_append, List.append_assoc, List.nil_append, scan, quote, if_true, read,
    List.length_cons, List.length_append, List.length_nil]
  congr 1
  omega

/-- A string that the text ends in is read to the end. -/
theorem scan_ended {quote : Char} {written content : List Char} (opens : isQuote quote = true)
    (body : QuotedBody quote written content) :
    scan (quote :: written) =
      .token ⟨.string, String.ofList content⟩ (written.length + 1) [] := by
  have read := readQuoted_append body (isQuote_ne_backslash opens) []
  rw [readQuoted, List.append_nil, List.append_nil, Nat.zero_add] at read
  simp only [scan, opens, if_true, read]

/-- A backslash with nothing behind it counts for two characters. -/
theorem scan_backslash {quote : Char} {written content : List Char} (opens : isQuote quote = true)
    (body : QuotedBody quote written content) :
    scan (quote :: (written ++ ['\\'])) =
      .token ⟨.string, String.ofList content⟩ (written.length + 3) [] := by
  have noBackslash := isQuote_ne_backslash opens
  have last : readQuoted quote ['\\'] = ⟨[], 2, []⟩ := by
    simp [readQuoted, noBackslash.symm]
  have read := readQuoted_append body noBackslash ['\\']
  rw [last, List.append_nil] at read
  simp only [scan, opens, if_true, read]
  congr 1
  omega

/-- A string that is not closed takes all of the text. -/
theorem scan_unclosed {literal content : List Char} (word : IsUnclosedString literal content) :
    ∃ width, scan literal = .token ⟨.string, String.ofList content⟩ width [] := by
  cases word with
  | ended quote body => exact ⟨_, scan_ended quote body⟩
  | backslash quote body => exact ⟨_, scan_backslash quote body⟩

/-- The scanner takes the first word. -/
theorem FirstWord.scan {t : Token} {cs text : List Char} (first : FirstWord t cs text) :
    ∃ word, cs = word ++ text ∧ scan cs = .token t word.length text := by
  cases first with
  | lexeme word longest => exact ⟨_, rfl, scan_append word longest⟩
  | string word => exact ⟨_, rfl, scan_string word _⟩

theorem isBlank_of_isQuote {c : Char} (quote : isQuote c = true) : Text.isBlank c = false := by
  have := toNat_of_isQuote quote
  exact isBlank_eq_false (by omega) (by omega)

theorem FirstWord.head {t : Token} {cs text : List Char} (first : FirstWord t cs text) :
    ∃ c ds, cs = c :: ds ∧ Text.isBlank c = false := by
  cases first with
  | lexeme word _ =>
    obtain ⟨c, ds, rfl, -⟩ := word.head
    exact ⟨c, _, rfl, word.no_blank c List.mem_cons_self⟩
  | string word =>
    obtain ⟨quote, -⟩ := word
    exact ⟨_, _, rfl, isBlank_of_isQuote quote⟩

/-- A word takes at least one character. -/
theorem FirstWord.length_lt {t : Token} {cs text : List Char} (first : FirstWord t cs text) :
    text.length < cs.length := by
  obtain ⟨word, -, read⟩ := first.scan
  exact scan_rest_length read

/-- No word is an end token. -/
theorem FirstWord.ne_eof {t : Token} {cs text : List Char} (first : FirstWord t cs text) :
    t.kind ≠ .eof := by
  cases first with
  | lexeme word _ => exact word.ne_eof
  | string _ => exact nofun

theorem IsUnclosedString.head {literal content : List Char}
    (word : IsUnclosedString literal content) :
    ∃ c ds, literal = c :: ds ∧ Text.isBlank c = false := by
  cases word with
  | ended quote _ | backslash quote _ => exact ⟨_, _, rfl, isBlank_of_isQuote quote⟩

/-- A text that starts with no blank starts with a word, is a string that is not closed, or is stuck
at its first character. -/
theorem firstWord_or_stuck {c : Char} (after : List Char) (noBlank : Text.isBlank c = false) :
    (∃ t text, FirstWord t (c :: after) text) ∨
      (∃ content, IsUnclosedString (c :: after) content) ∨ Stuck c after := by
  by_cases quote : isQuote c = true
  · rcases quotedBody_cases c after with ⟨written, content, text, body, rfl⟩ | ⟨content, body⟩ |
      ⟨written, content, body, rfl⟩
    · have first : FirstWord _ (c :: (written ++ [c]) ++ text) text := .string (.closed quote body)
      rw [List.cons_append, List.append_assoc] at first
      exact .inl ⟨_, text, first⟩
    · exact .inr (.inl ⟨content, .ended quote body⟩)
    · exact .inr (.inl ⟨content, .backslash quote body⟩)
  · -- Without a quote the scanner decides, and what it takes is the longest lexeme.
    have noQuote : isQuote c = false := Bool.eq_false_iff.mpr quote
    cases read : scan (c :: after) with
    | finished => exact absurd read (scan_ne_finished _ _)
    | unexpected d => exact .inr (.inr ⟨noBlank, noQuote, (scan_unexpected read).2.2⟩)
    | token t width text =>
      obtain ⟨lexeme, eq, -, -, word, longest⟩ := scan_longest noQuote read
      have first := FirstWord.lexeme word longest
      rw [← eq] at first
      exact .inl ⟨_, text, first⟩

/-- The scanner finds nothing where the text is stuck. -/
theorem Stuck.scan {c : Char} {after : List Char} (stuck : Stuck c after) :
    scan (c :: after) = .unexpected c := by
  cases read : Visibility.scan (c :: after) with
  | finished => exact absurd read (scan_ne_finished _ _)
  | unexpected d => rw [(scan_unexpected read).1]
  | token t width rest =>
    obtain ⟨lexeme, eq, -, -, word, -⟩ := scan_longest stuck.no_quote read
    exact absurd ⟨rest, eq.symm⟩ (stuck.no_lexeme _ _ word)

/-! ## §4 The lexer follows the cuts -/

namespace Lexer

theorem skipBlanks_append {blanks cs : List Char} (position : Nat)
    (space : ∀ c ∈ blanks, Text.isBlank c = true) :
    skipBlanks ⟨blanks ++ cs, position⟩ = skipBlanks ⟨cs, position + blanks.length⟩ := by
  simp only [skipBlanks, List.dropWhile_append_of_pos space, List.takeWhile_append_of_pos space,
    List.length_append, Nat.add_assoc]

theorem skipBlanks_of_no_blank {c : Char} {cs : List Char} (position : Nat)
    (noBlank : Text.isBlank c = false) :
    skipBlanks ⟨c :: cs, position⟩ = ⟨c :: cs, position⟩ := by
  simp [skipBlanks, noBlank]

/-- Blanks in front only move the position. -/
theorem tokens_append {blanks cs : List Char} (position : Nat)
    (space : ∀ c ∈ blanks, Text.isBlank c = true) :
    tokens ⟨blanks ++ cs, position⟩ = tokens ⟨cs, position + blanks.length⟩ := by
  rw [tokens.eq_def, tokens.eq_def ⟨cs, _⟩, skipBlanks_append position space]

theorem tokens_of_finished {l : Lexer} (read : scan l.skipBlanks.rest = .finished) :
    l.tokens = .ok [.eof] := by
  rw [tokens.eq_def]
  split <;> simp_all

theorem tokens_of_unexpected {l : Lexer} {c : Char}
    (read : scan l.skipBlanks.rest = .unexpected c) :
    l.tokens = .error (.unexpectedCharacter c l.skipBlanks.position) := by
  rw [tokens.eq_def]
  split <;> simp_all

theorem tokens_of_token {l : Lexer} {t : Token} {width : Nat} {rest : List Char}
    (read : scan l.skipBlanks.rest = .token t width rest) :
    l.tokens = (tokens ⟨rest, l.skipBlanks.position + width⟩).map (t :: ·) := by
  rw [tokens.eq_def]
  split
  · simp_all
  · rename_i read'
    obtain ⟨rfl, rfl, rfl⟩ := Scan.token.inj (read.symm.trans read')
    cases tokens ⟨rest, l.skipBlanks.position + width⟩ <;> rfl
  · simp_all

/-- A word behind blanks is the first token, and the position moves behind it. -/
theorem tokens_of_scan {blanks cs text : List Char} {t : Token} {width : Nat}
    (space : ∀ c ∈ blanks, Text.isBlank c = true)
    (start : ∃ c ds, cs = c :: ds ∧ Text.isBlank c = false)
    (read : scan cs = .token t width text) (position : Nat) :
    tokens ⟨blanks ++ cs, position⟩ =
      (tokens ⟨text, position + blanks.length + width⟩).map (t :: ·) := by
  obtain ⟨c, ds, rfl, noBlank⟩ := start
  have stays : skipBlanks ⟨c :: ds, position + blanks.length⟩ = ⟨c :: ds, position + blanks.length⟩ :=
    skipBlanks_of_no_blank _ noBlank
  have read' : scan (skipBlanks ⟨c :: ds, position + blanks.length⟩).rest = .token t width text := by
    rw [stays, read]
  rw [tokens_append position space, tokens_of_token read', stays]

/-- The lexer gives the words that are cut off, and goes on behind them. -/
theorem tokens_of_segments {ts : List Token} {cs rest : List Char} (cut : Segments ts cs rest) :
    ∃ front, cs = front ++ rest ∧ ∀ position,
      tokens ⟨cs, position⟩ = (tokens ⟨rest, position + front.length⟩).map (ts ++ ·) := by
  induction cut with
  | @blanks blanks rest space =>
    refine ⟨blanks, rfl, fun position => ?_⟩
    rw [tokens_append position space]
    cases tokens ⟨rest, position + blanks.length⟩ <;> rfl
  | @word blanks cs text rest t ts space first _ ih =>
    obtain ⟨front, rfl, after⟩ := ih
    obtain ⟨word, rfl, read⟩ := first.scan
    refine ⟨blanks ++ (word ++ front), by simp, fun position => ?_⟩
    rw [tokens_of_scan space first.head read, after]
    simp only [List.length_append, Nat.add_assoc]
    cases tokens ⟨rest, position + (blanks.length + (word.length + front.length))⟩ <;> rfl

/-- A segmented text has the words as its tokens, with an end token behind them. -/
theorem tokens_of_segmentation {ts : List Token} {cs : List Char} (cut : Segmentation ts cs)
    (position : Nat) : tokens ⟨cs, position⟩ = .ok (ts ++ [.eof]) := by
  cases cut with
  | closed cut =>
    obtain ⟨front, -, after⟩ := tokens_of_segments cut
    rw [after, tokens_of_finished (by rfl)]
    rfl
  | @unclosed ts _ literal content cut last =>
    obtain ⟨front, -, after⟩ := tokens_of_segments cut
    obtain ⟨width, read⟩ := scan_unclosed last
    have string := tokens_of_scan (List.forall_mem_nil _) last.head read (position + front.length)
    rw [List.nil_append] at string
    rw [after, string, tokens_of_finished (by rfl)]
    simp [Except.map]

/-- Where the lexer is stuck, it says the character and its place. -/
theorem tokens_of_stuck {c : Char} {after : List Char} (stuck : Stuck c after) (position : Nat) :
    tokens ⟨c :: after, position⟩ = .error (.unexpectedCharacter c position) := by
  have stays : skipBlanks ⟨c :: after, position⟩ = ⟨c :: after, position⟩ :=
    skipBlanks_of_no_blank _ stuck.no_blank
  have read : scan (skipBlanks ⟨c :: after, position⟩).rest = .unexpected c := by
    rw [stays, stuck.scan]
  rw [tokens_of_unexpected read, stays]

end Lexer

/-! ## §5 Every text is segmented or stuck -/

/-- A text consists of words and blanks, or words and blanks lead to a place where it is stuck. -/
theorem segmented_or_stuck (cs : List Char) :
    (∃ ts, Segmentation ts cs) ∨ ∃ ts c after, Segments ts cs (c :: after) ∧ Stuck c after := by
  -- by the length of the text: a word takes at least one character
  induction h : cs.length using Nat.strongRecOn generalizing cs with
  | ind n ih =>
    subst h
    have space : ∀ c ∈ cs.takeWhile Text.isBlank, Text.isBlank c = true :=
      List.all_eq_true.mp List.all_takeWhile
    have split : cs.takeWhile Text.isBlank ++ cs.dropWhile Text.isBlank = cs :=
      List.takeWhile_append_dropWhile
    rw [← split]
    cases start : cs.dropWhile Text.isBlank with
    | nil => exact .inl ⟨[], .closed (.blanks space)⟩
    | cons c after =>
      have noBlank : Text.isBlank c = false := by
        have := List.head?_dropWhile_not Text.isBlank cs
        rwa [start] at this
      rcases firstWord_or_stuck after noBlank with ⟨t, text, first⟩ | ⟨content, word⟩ | stuck
      · have shorter : text.length < cs.length := by
          have := first.length_lt
          have := (List.dropWhile_sublist (l := cs) Text.isBlank).length_le
          rw [start] at this
          omega
        rcases ih text.length shorter text rfl with ⟨ts, cut⟩ | ⟨ts, d, rest, cut, stuck⟩
        · exact .inl ⟨_, .word space first cut⟩
        · exact .inr ⟨_, d, rest, .word space first cut, stuck⟩
      · exact .inl ⟨_, .unclosed (.blanks space) word⟩
      · exact .inr ⟨[], c, after, .blanks space, stuck⟩

theorem tokenize_of_segmentation {source : String} {ts : List Token}
    (cut : Segmentation ts source.toList) : tokenize source = .ok (ts ++ [.eof]) :=
  Lexer.tokens_of_segmentation cut 0

theorem tokenize_of_stuck {source : String} {ts : List Token} {c : Char} {after : List Char}
    (cut : Segments ts source.toList (c :: after)) (stuck : Stuck c after) :
    ∃ before, source.toList = before ++ c :: after ∧
      tokenize source = .error (.unexpectedCharacter c before.length) := by
  obtain ⟨before, place, go⟩ := Lexer.tokens_of_segments cut
  have read := go 0
  rw [Lexer.tokens_of_stuck stuck, Nat.zero_add] at read
  exact ⟨before, place, read⟩

/-- The tokens of an expression are the words of a segmentation. -/
theorem tokenize_eq_ok {source : String} {us : List Token} :
    tokenize source = .ok us ↔ ∃ ts, us = ts ++ [.eof] ∧ Segmentation ts source.toList := by
  constructor
  · intro read
    rcases segmented_or_stuck source.toList with ⟨ts, cut⟩ | ⟨ts, c, after, cut, stuck⟩
    · exact ⟨ts, Except.ok.inj (read.symm.trans (tokenize_of_segmentation cut)), cut⟩
    · obtain ⟨before, -, failed⟩ := tokenize_of_stuck cut stuck
      exact nomatch read.symm.trans failed
  · rintro ⟨ts, rfl, cut⟩
    exact tokenize_of_segmentation cut

/-- A text has at least as many characters as there were words cut off. -/
theorem Segments.length_le {ts : List Token} {cs rest : List Char} (cut : Segments ts cs rest) :
    ts.length + rest.length ≤ cs.length := by
  induction cut with
  | blanks _ => simp
  | word _ first _ ih =>
    have := first.length_lt
    simp only [List.length_cons, List.length_append]
    omega

theorem Segmentation.length_le {ts : List Token} {cs : List Char} (cut : Segmentation ts cs) :
    ts.length ≤ cs.length := by
  cases cut with
  | closed cut => simpa using cut.length_le
  | unclosed cut last =>
    -- The string at the end has its opening quote.
    obtain ⟨c, ds, rfl, -⟩ := last.head
    have := cut.length_le
    simp only [List.length_cons, List.length_append, List.length_nil] at this ⊢
    omega

/-- Cutting an expression into tokens says which of the two its text is.  The tokens are the words
of its only segmentation, and the place of an error is the only one where it is stuck. -/
theorem tokenize_segmentation (source : String) :
    Xor
        (∃ ts, tokenize source = .ok (ts ++ [.eof]) ∧ Segmentation ts source.toList)
        (∃ ts before c after error, tokenize source = .error error ∧
          error.message = "Unexpected character: '" ++ c.toString ++ "' at position " ++
            before.length.repr ∧
          source.toList = before ++ c :: after ∧ Segments ts source.toList (c :: after) ∧
          Stuck c after) ∧
      (∀ ts, Segmentation ts source.toList → tokenize source = .ok (ts ++ [.eof])) ∧
      ∀ ts before c after, source.toList = before ++ c :: after →
        Segments ts source.toList (c :: after) → Stuck c after →
        tokenize source = .error (.unexpectedCharacter c before.length) := by
  refine ⟨?_, fun ts cut => tokenize_of_segmentation cut, ?_⟩
  · -- Every text is segmented or gets stuck, and the lexer answers to each; so the two answers
    -- exclude each other.
    rcases segmented_or_stuck source.toList with ⟨ts, cut⟩ | ⟨ts, c, after, cut, stuck⟩
    · have read := tokenize_of_segmentation cut
      refine .inl ⟨⟨ts, read, cut⟩, ?_⟩
      rintro ⟨_, _, _, _, _, failed, -⟩
      exact nomatch read.symm.trans failed
    · obtain ⟨before, place, failed⟩ := tokenize_of_stuck cut stuck
      refine .inr ⟨⟨ts, before, c, after, _, failed, rfl, place, cut, stuck⟩, ?_⟩
      rintro ⟨_, read, -⟩
      exact nomatch failed.symm.trans read
  · intro ts before c after place cut stuck
    obtain ⟨before', place', failed⟩ := tokenize_of_stuck cut stuck
    obtain rfl : before' = before := List.append_cancel_right (place'.symm.trans place)
    exact failed

/-- Behind a closed string, an equals sign on its own begins nothing. -/
theorem tokenize_segmentation_lone_equals :
    let source := "'it\\'s' = x"
    Segments [⟨.string, "it's"⟩] source.toList ['=', ' ', 'x'] ∧ Stuck '=' [' ', 'x'] ∧
      tokenize source = .error (.unexpectedCharacter '=' 8) := by
  intro source
  have body : QuotedBody '\'' "it\\'s".toList "it's".toList :=
    .plain (by decide) (by decide) (.plain (by decide) (by decide) (.escaped
      (.plain (by decide) (by decide) .nil)))
  have word : FirstWord ⟨.string, "it's"⟩ ("'it\\'s'".toList ++ [' ', '=', ' ', 'x'])
      [' ', '=', ' ', 'x'] := .string (.closed rfl body)
  have space : Segments [] ([' '] ++ ['=', ' ', 'x']) ['=', ' ', 'x'] :=
    .blanks (List.forall_mem_singleton.mpr rfl)
  have split : source.toList = [] ++ ("'it\\'s'".toList ++ [' ', '=', ' ', 'x']) := by decide
  have cut := Segments.word (List.forall_mem_nil _) word space
  rw [← split] at cut
  -- The scanner has no token for the sign, hence no lexeme starts there.
  have unread : scan ['=', ' ', 'x'] = .unexpected '=' := by cbv
  obtain ⟨-, noQuote, noLexeme⟩ := scan_unexpected unread
  have stuck : Stuck '=' [' ', 'x'] := ⟨by decide, noQuote, noLexeme⟩
  have failed := (tokenize_segmentation source).2.2 _ "'it\\'s' ".toList '=' [' ', 'x']
    (by decide) cut stuck
  exact ⟨cut, stuck, failed⟩

end Visibility
