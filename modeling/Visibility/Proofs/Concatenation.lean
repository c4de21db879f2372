import Visibility.Proofs.Segmentation

/-!
# Texts joined by blanks

No word reaches beyond a blank.  So what stands before a blank is cut in the same way whatever
follows, and what stands behind it is cut like a text of its own, only that its places lie further
back.  The one thing that crosses a blank is a string that is still open.

* `Lexer.tokens_anywhere` — where a text starts matters for the place of its error only
* `FirstWord.before_blank`, `Segments.before_blank`, `Stuck.before_blank` — words, cuts and the
  place where the lexer is stuck stay as they are with a blank and more text behind them
* `EndsInString` — the texts that leave a string open
* `tokenize_joined` — the tokens of two texts with blanks between them
-/

namespace Visibility

/-! ## §1 Texts that start further back -/

/-- Wherever a text starts, it has the same tokens, or an error at the same distance. -/
theorem Lexer.tokens_anywhere (cs : List Char) :
    (∃ ts, ∀ position, tokens ⟨cs, position⟩ = .ok ts) ∨
      ∃ c place, ∀ position,
        tokens ⟨cs, position⟩ = .error (.unexpectedCharacter c (position + place)) := by
  rcases segmented_or_stuck cs with ⟨ts, cut⟩ | ⟨ts, c, after, cut, stuck⟩
  · exact .inl ⟨_, tokens_of_segmentation cut⟩
  · obtain ⟨front, -, go⟩ := tokens_of_segments cut
    refine .inr ⟨c, front.length, fun position => ?_⟩
    rw [go, tokens_of_stuck stuck]
    rfl

/-! ## §2 What stands before a blank -/

section BeforeBlank

variable {lexeme cs text after more : List Char}

/-- A word stays the longest if a blank and more text follow what followed it. -/
theorem IsLongest.before_blank (longest : IsLongest lexeme text)
    (blank : ∀ c ∈ more.head?, Text.isBlank c = true) : IsLongest lexeme (text ++ more) := by
  intro kind longer word start
  rw [← List.append_assoc] at start
  exact longest kind longer word (word.prefix_of_blank blank start)

theorem FirstWord.before_blank {t : Token} (first : FirstWord t cs text)
    (blank : ∀ c ∈ more.head?, Text.isBlank c = true) :
    FirstWord t (cs ++ more) (text ++ more) := by
  cases first with
  | lexeme word longest =>
    rw [List.append_assoc]
    exact .lexeme word (longest.before_blank blank)
  | string word =>
    -- A string that is closed ends at its quote, whatever follows.
    rw [List.append_assoc]
    exact .string word

theorem Segments.before_blank {ts : List Token} (cut : Segments ts cs text)
    (blank : ∀ c ∈ more.head?, Text.isBlank c = true) :
    Segments ts (cs ++ more) (text ++ more) := by
  induction cut with
  | blanks space =>
    rw [List.append_assoc]
    exact .blanks space
  | word space first _ ih =>
    rw [List.append_assoc]
    exact .word space (first.before_blank blank) ih

/-- A character that begins nothing still begins nothing. -/
theorem Stuck.before_blank {c : Char} (stuck : Stuck c after)
    (blank : ∀ c ∈ more.head?, Text.isBlank c = true) : Stuck c (after ++ more) where
  no_blank := stuck.no_blank
  no_quote := stuck.no_quote
  no_lexeme kind lexeme word start := by
    rw [← List.cons_append] at start
    exact stuck.no_lexeme kind lexeme word (word.prefix_of_blank blank start)

end BeforeBlank

/-! ## §3 Texts that leave a string open -/

/-- The text ends within a string: the last of its words has an opening quote only. -/
def EndsInString (cs : List Char) : Prop :=
  ∃ ts literal content, Segments ts cs literal ∧ IsUnclosedString literal content

/-- The words that are cut off a text stand at its front. -/
theorem Segments.eq_append {ts : List Token} {cs rest : List Char} (cut : Segments ts cs rest) :
    ∃ front, cs = front ++ rest := by
  obtain ⟨front, same, -⟩ := Lexer.tokens_of_segments cut
  exact ⟨front, same⟩

/-- A text without quotes leaves no string open. -/
theorem not_endsInString_of_no_quote {cs : List Char} (noQuote : ∀ c ∈ cs, isQuote c = false) :
    ¬EndsInString cs := by
  rintro ⟨ts, literal, content, cut, unclosed⟩
  obtain ⟨front, rfl⟩ := cut.eq_append
  cases unclosed with
  | @ended quote _ _ isQuote _ | @backslash quote _ _ isQuote _ =>
    have := noQuote quote (by simp)
    rw [isQuote] at this
    cases this

/-- A text that leaves no string open is cut into its tokens to the end. -/
theorem segments_of_tokenize {source : String} {us : List Token} (read : tokenize source = .ok us)
    (closed : ¬EndsInString source.toList) :
    ∃ ts, us = ts ++ [.eof] ∧ Segments ts source.toList [] := by
  obtain ⟨ts, same, cut⟩ := tokenize_eq_ok.mp read
  cases cut with
  | closed cut => exact ⟨ts, same, cut⟩
  | unclosed cut last => exact absurd ⟨_, _, _, cut, last⟩ closed

/-! ## §4 Two texts with blanks between them -/

section Joined

variable {first blanks : String} {ts : List Token}

theorem toList_joined (first blanks second : String) :
    (first ++ blanks ++ second).toList = first.toList ++ (blanks.toList ++ second.toList) := by
  simp only [String.toList_append, List.append_assoc]

/-- What follows the first text starts with a blank. -/
theorem head_joined (space : ∀ c ∈ blanks.toList, Text.isBlank c = true) (nonempty : blanks ≠ "")
    (second : String) :
    ∀ c ∈ (blanks.toList ++ second.toList).head?, Text.isBlank c = true := by
  obtain ⟨blank, others, same⟩ : ∃ blank others, blanks.toList = blank :: others :=
    List.exists_cons_of_ne_nil (by simpa using nonempty)
  intro c head
  rw [same, List.cons_append, List.head?_cons] at head
  obtain rfl := Option.some.inj head
  exact space blank (by simp [same])

/-- The words of the first text stay cut off. -/
theorem segments_joined {text : List Char} (cut : Segments ts first.toList text)
    (space : ∀ c ∈ blanks.toList, Text.isBlank c = true) (nonempty : blanks ≠ "")
    (second : String) :
    Segments ts (first ++ blanks ++ second).toList (text ++ (blanks.toList ++ second.toList)) := by
  rw [toList_joined]
  exact cut.before_blank (head_joined space nonempty second)

/-- Behind words and blanks the lexer goes on as at the start of a text. -/
theorem tokenize_behind (cut : Segments ts first.toList [])
    (space : ∀ c ∈ blanks.toList, Text.isBlank c = true) (nonempty : blanks ≠ "")
    (second : String) :
    tokenize (first ++ blanks ++ second) =
      (Lexer.tokens ⟨second.toList, first.length + blanks.length⟩).map (ts ++ ·) := by
  obtain ⟨front, place, go⟩ := Lexer.tokens_of_segments (segments_joined cut space nonempty second)
  rw [toList_joined] at place
  obtain rfl : first.toList = front := List.append_cancel_right place
  calc tokenize (first ++ blanks ++ second)
      = (Lexer.tokens ⟨blanks.toList ++ second.toList, 0 + first.toList.length⟩).map (ts ++ ·) :=
        go 0
    _ = (Lexer.tokens ⟨second.toList, first.length + blanks.length⟩).map (ts ++ ·) := by
        rw [Lexer.tokens_append _ space, Nat.zero_add, String.length_toList, String.length_toList]

/-- An error of the first text is one of the whole. -/
theorem tokenize_failed_before {error : SyntaxError} (failed : tokenize first = .error error)
    (space : ∀ c ∈ blanks.toList, Text.isBlank c = true) (nonempty : blanks ≠ "")
    (second : String) : tokenize (first ++ blanks ++ second) = .error error := by
  rcases segmented_or_stuck first.toList with ⟨ts, cut⟩ | ⟨ts, c, after, cut, stuck⟩
  · exact nomatch failed.symm.trans (tokenize_of_segmentation cut)
  · obtain ⟨before, place, failed'⟩ := tokenize_of_stuck cut stuck
    obtain rfl : error = _ := Except.error.inj (failed.symm.trans failed')
    -- The lexer is stuck at the same character, and the same words stand before it.
    have blank := head_joined space nonempty second
    obtain ⟨before', place', joined⟩ := tokenize_of_stuck
      (segments_joined cut space nonempty second) (stuck.before_blank blank)
    rw [toList_joined, place, List.append_assoc] at place'
    obtain rfl : before = before' := List.append_cancel_right place'
    exact joined

/-- **Tokens distribute over blanks.**  If the first text has tokens and leaves no string open, then
with blanks and a second text behind it the tokens are those of both, and there is an error exactly
if the second text has one, at the same character and further back by all that stands before.  An
error of the first text is the error of the whole. -/
theorem tokenize_joined (first blanks second : String)
    (space : ∀ c ∈ blanks.toList, Text.isBlank c = true) (nonempty : blanks ≠ "") :
    (∀ us, tokenize first = .ok us → ¬EndsInString first.toList →
      us = us.dropLast ++ [.eof] ∧
      (∀ vs, tokenize second = .ok vs →
        tokenize (first ++ blanks ++ second) = .ok (us.dropLast ++ vs)) ∧
      ((∃ error, tokenize (first ++ blanks ++ second) = .error error) ↔
        ∃ error, tokenize second = .error error) ∧
      ∀ error, tokenize second = .error error →
        ∃ c place, error = .unexpectedCharacter c place ∧
          tokenize (first ++ blanks ++ second) =
            .error (.unexpectedCharacter c (first.length + blanks.length + place))) ∧
    ∀ error, tokenize first = .error error →
      tokenize (first ++ blanks ++ second) = .error error := by
  refine ⟨fun us read closed => ?_, fun error failed =>
    tokenize_failed_before failed space nonempty second⟩
  obtain ⟨ts, rfl, cut⟩ := segments_of_tokenize read closed
  have behind := tokenize_behind cut space nonempty second
  rw [List.dropLast_concat]
  refine ⟨rfl, ?_⟩
  -- Wherever it starts, a text has the same tokens or the same error, further back.
  rcases Lexer.tokens_anywhere second.toList with ⟨vs, go⟩ | ⟨c, place, go⟩
  · have alone : tokenize second = .ok vs := go 0
    rw [go] at behind
    simp [alone, behind, Except.map]
  · have alone : tokenize second = .error (.unexpectedCharacter c place) := by
      have := go 0
      rwa [Nat.zero_add] at this
    rw [go] at behind
    simp [alone, behind, Except.map]

/-- `a ==` and `= b` do not become `a === b`, and the second text is the one with the error. -/
theorem tokenize_joined_operator :
    let first := "a =="
    let second := "= b"
    tokenize first = .ok [⟨.identifier, "a"⟩, ⟨.operator, "=="⟩, .eof] ∧
      ¬EndsInString first.toList ∧ tokenize second = .error (.unexpectedCharacter '=' 0) ∧
      tokenize (first ++ " " ++ second) = .error (.unexpectedCharacter '=' 5) := by
  intro first second
  have read : tokenize first = .ok [⟨.identifier, "a"⟩, ⟨.operator, "=="⟩, .eof] := by
    dsimp only [first]
    cbv
  have failed : tokenize second = .error (.unexpectedCharacter '=' 0) := by
    dsimp only [second]
    cbv
  have closed : ¬EndsInString first.toList := not_endsInString_of_no_quote (by simp [first, isQuote])
  have joined := tokenize_joined first " " second (by simp [Text.isBlank]) (by decide)
  obtain ⟨c, place, same, whole⟩ := (joined.1 _ read closed).2.2.2 _ failed
  cases same
  have sum : first.length + " ".length + 0 = 5 := by decide
  rw [sum] at whole
  exact ⟨read, closed, failed, whole⟩

end Joined

end Visibility
