import Visibility.Proofs.Segmentation

/-!
# The lexer as a machine

A lexer can be asked for tokens any number of times, also behind the end of the text and after an
error.  `Reading` says all that one reading can do: behind blanks it comes to the end, takes a word,
takes a string that the text ends in, or is stuck.  What holds of every run follows from that, by
induction on the number of readings.

* `next_eq_iff` — a reading is what the relation says, and nothing else
* `onText_after` — the position always says what is left of the text
* `position_after_eq_iff` — the position is behind the end of the text only after a string that ends
  in a single backslash
* `after_of_isLast` — at the end and at an error the lexer stays
* `Run.tokens` — the readings up to the first end or error make up the tokens of the text
* `readings_of_source` — all of it, for every text and every number of readings
-/

namespace Visibility

/-! ## §1 One reading -/

/-- Behind blanks the text is a string that is not closed, and its last character is a backslash
with nothing behind it. -/
inductive EndsInBackslash : List Char → List Char → Prop where
  | string {blanks written content : List Char} {quote : Char} :
      (∀ c ∈ blanks, Text.isBlank c = true) → isQuote quote = true →
      QuotedBody quote written content →
      EndsInBackslash (blanks ++ quote :: (written ++ ['\\'])) content

theorem EndsInBackslash.ne_nil {cs content : List Char} (h : EndsInBackslash cs content) :
    cs ≠ [] := by
  cases h
  simp

namespace Lexer

/-- What one reading can do: what it gives and where it leaves the lexer. -/
inductive Reading : Lexer → Except SyntaxError Token → Lexer → Prop where
  | finished {blanks : List Char} {position : Nat} :
      (∀ c ∈ blanks, Text.isBlank c = true) →
      Reading ⟨blanks, position⟩ (.ok .eof) ⟨[], position + blanks.length⟩
  | word {blanks word text : List Char} {t : Token} {position : Nat} :
      (∀ c ∈ blanks, Text.isBlank c = true) → FirstWord t (word ++ text) text →
      Reading ⟨blanks ++ (word ++ text), position⟩ (.ok t)
        ⟨text, position + (blanks.length + word.length)⟩
  | unclosed {blanks written content : List Char} {quote : Char} {position : Nat} :
      (∀ c ∈ blanks, Text.isBlank c = true) → isQuote quote = true →
      QuotedBody quote written content →
      Reading ⟨blanks ++ quote :: written, position⟩ (.ok ⟨.string, String.ofList content⟩)
        ⟨[], position + (blanks.length + (written.length + 1))⟩
  /-- Here the position goes one character too far. -/
  | backslash {cs content : List Char} {position : Nat} :
      EndsInBackslash cs content →
      Reading ⟨cs, position⟩ (.ok ⟨.string, String.ofList content⟩) ⟨[], position + (cs.length + 1)⟩
  | stuck {blanks after : List Char} {c : Char} {position : Nat} :
      (∀ c ∈ blanks, Text.isBlank c = true) → Stuck c after →
      Reading ⟨blanks ++ c :: after, position⟩
        (.error (.unexpectedCharacter c (position + blanks.length)))
        ⟨c :: after, position + blanks.length⟩

variable {l l' : Lexer} {reading : Except SyntaxError Token}

theorem skipBlanks_blanks {blanks cs : List Char} (position : Nat)
    (space : ∀ c ∈ blanks, Text.isBlank c = true)
    (start : ∃ c ds, cs = c :: ds ∧ Text.isBlank c = false) :
    skipBlanks ⟨blanks ++ cs, position⟩ = ⟨cs, position + blanks.length⟩ := by
  obtain ⟨c, ds, rfl, noBlank⟩ := start
  rw [skipBlanks_append position space, skipBlanks_of_no_blank _ noBlank]

theorem next_of_token {blanks cs text : List Char} {t : Token} {width : Nat} (position : Nat)
    (space : ∀ c ∈ blanks, Text.isBlank c = true)
    (start : ∃ c ds, cs = c :: ds ∧ Text.isBlank c = false)
    (read : scan cs = .token t width text) :
    next ⟨blanks ++ cs, position⟩ = (.ok t, ⟨text, position + (blanks.length + width)⟩) := by
  unfold next
  simp only [skipBlanks_blanks position space start, read, Nat.add_assoc]

theorem Reading.next_eq (h : Reading l reading l') : l.next = (reading, l') := by
  cases h with
  | @finished blanks position space =>
    have skipped : skipBlanks ⟨blanks, position⟩ = ⟨[], position + blanks.length⟩ := by
      have skipped : skipBlanks ⟨blanks ++ [], position⟩ = skipBlanks ⟨[], _⟩ :=
        skipBlanks_append position space
      rwa [List.append_nil] at skipped
    unfold next
    simp only [skipped]
    rfl
  | word space first =>
    obtain ⟨word, same, read⟩ := first.scan
    obtain rfl := List.append_cancel_right same
    exact next_of_token _ space first.head read
  | unclosed space opens body =>
    have start := IsUnclosedString.head (.ended opens body)
    exact next_of_token _ space start (scan_ended opens body)
  | @backslash _ _ position ends =>
    obtain ⟨space, opens, body⟩ := ends
    have start := IsUnclosedString.head (.backslash opens body)
    rw [next_of_token position space start (scan_backslash opens body)]
    simp only [List.length_append, List.length_cons, List.length_nil, Nat.add_assoc]
  | @stuck _ after c position space stuck =>
    have start : ∃ d ds, c :: after = d :: ds ∧ Text.isBlank d = false :=
      ⟨c, after, rfl, stuck.no_blank⟩
    unfold next
    simp only [skipBlanks_blanks position space start, stuck.scan]

/-- Whatever is left of a text, there is something that a reading does. -/
theorem exists_reading (l : Lexer) : ∃ reading l', Reading l reading l' := by
  obtain ⟨cs, position⟩ := l
  have space : ∀ c ∈ cs.takeWhile Text.isBlank, Text.isBlank c = true :=
    List.all_eq_true.mp List.all_takeWhile
  have split : cs.takeWhile Text.isBlank ++ cs.dropWhile Text.isBlank = cs :=
    List.takeWhile_append_dropWhile
  rw [← split]
  cases start : cs.dropWhile Text.isBlank with
  | nil =>
    rw [List.append_nil]
    exact ⟨_, _, .finished space⟩
  | cons c after =>
    have noBlank : Text.isBlank c = false := by
      have := List.head?_dropWhile_not Text.isBlank cs
      rwa [start] at this
    -- Behind the blanks there is a word, an open string, or a character where nothing begins.
    rcases firstWord_or_stuck after noBlank with ⟨t, text, first⟩ | ⟨content, unclosed⟩ | stuck
    · obtain ⟨word, same, -⟩ := first.scan
      rw [same] at first ⊢
      exact ⟨_, _, .word space first⟩
    · cases unclosed with
      | ended opens body => exact ⟨_, _, .unclosed space opens body⟩
      | backslash opens body => exact ⟨_, _, .backslash (.string space opens body)⟩
    · exact ⟨_, _, .stuck space stuck⟩

/-- A reading is what the relation says, and nothing else. -/
theorem next_eq_iff : l.next = (reading, l') ↔ Reading l reading l' := by
  refine ⟨fun same => ?_, Reading.next_eq⟩
  obtain ⟨reading', after, h⟩ := exists_reading l
  obtain ⟨rfl, rfl⟩ := Prod.mk.inj (h.next_eq.symm.trans same)
  exact h

/-- The next reading. -/
theorem reading_next (l : Lexer) : Reading l l.next.1 l.next.2 :=
  next_eq_iff.mp rfl

/-! ## §2 What a reading does to the position -/

theorem Reading.position_le (h : Reading l reading l') : l.position ≤ l'.position := by
  cases h <;> exact Nat.le_add_right _ _

/-- A token other than the end token takes at least one character. -/
theorem Reading.position_lt {t : Token} (h : Reading l (.ok t) l') (notEnd : t.kind ≠ .eof) :
    l.position < l'.position := by
  cases h with
  | finished _ => exact absurd rfl notEnd
  | word _ first =>
    have := first.length_lt
    simp only [List.length_append] at this ⊢
    omega
  | unclosed _ _ _ => exact Nat.lt_add_of_pos_right (by omega)
  | backslash _ => exact Nat.lt_add_of_pos_right (Nat.succ_pos _)

/-- The end token is read exactly if there are only blanks left. -/
theorem Reading.eof_iff (h : Reading l reading l') :
    reading = .ok .eof ↔ ∀ c ∈ l.rest, Text.isBlank c = true := by
  -- All other readings begin at a character that is no blank.
  have other {blanks after : List Char} {c : Char} (noBlank : Text.isBlank c = false) :
      ¬∀ d ∈ blanks ++ c :: after, Text.isBlank d = true := fun space => by
    have blank := space c (List.mem_append_right _ List.mem_cons_self)
    rw [noBlank] at blank
    cases blank
  cases h with
  | finished space => exact iff_of_true rfl space
  | word _ first =>
    obtain ⟨c, after, same, noBlank⟩ := first.head
    rw [same]
    refine iff_of_false (fun isEnd => first.ne_eof ?_) (other noBlank)
    rw [Except.ok.inj isEnd]
    rfl
  | unclosed _ opens _ => exact iff_of_false nofun (other (isBlank_of_isQuote opens))
  | backslash ends =>
    obtain ⟨_, opens, _⟩ := ends
    exact iff_of_false nofun (other (isBlank_of_isQuote opens))
  | stuck _ stuck => exact iff_of_false nofun (other stuck.no_blank)

/-- The lexer is on a text: what it has left is the text from its position on. -/
structure OnText (cs : List Char) (l : Lexer) : Prop where
  rest : l.rest = cs.drop l.position
  bound : l.position ≤ cs.length + 1

variable {cs : List Char}

theorem OnText.start : OnText cs ⟨cs, 0⟩ :=
  ⟨rfl, Nat.zero_le _⟩

/-- Where the text goes on, the position is not behind it. -/
theorem OnText.length_add (h : OnText cs l) (more : l.rest ≠ []) :
    l.position + l.rest.length = cs.length := by
  have positive := List.length_pos_iff.mpr more
  rw [h.rest, List.length_drop] at positive ⊢
  omega

/-- Characters that are taken move the position by their number, and not behind the text. -/
theorem OnText.behind {front text : List Char} {position : Nat}
    (h : OnText cs ⟨front ++ text, position⟩) :
    OnText cs ⟨text, position + front.length⟩ ∧
      (position ≤ cs.length → position + front.length ≤ cs.length) := by
  obtain ⟨rest, bound⟩ := h
  dsimp only at rest bound
  have dropped : text = cs.drop (position + front.length) := by
    have := congrArg (List.drop front.length) rest
    rwa [List.drop_left, List.drop_drop] at this
  have length := congrArg List.length rest
  rw [List.length_append, List.length_drop] at length
  exact ⟨⟨dropped, by dsimp only; omega⟩, by omega⟩

/-- A reading stays on the text.  Behind its end it gets by a backslash at the end only. -/
theorem Reading.onText (h : Reading l reading l') (on : OnText cs l) :
    OnText cs l' ∧ (l.position ≤ cs.length → l'.position ≤ cs.length ∨
      ∃ content, EndsInBackslash l.rest content) := by
  cases h with
  | @finished blanks position _ =>
    rw [← List.append_nil blanks] at on
    exact on.behind.imp_right fun within le => .inl (within le)
  | word _ _ =>
    rw [← List.append_assoc] at on
    have behind := on.behind
    rw [List.length_append] at behind
    exact behind.imp_right fun within le => .inl (within le)
  | @unclosed blanks written _ quote _ _ _ _ =>
    rw [← List.append_nil (blanks ++ quote :: written)] at on
    have behind := on.behind
    rw [List.length_append] at behind
    exact behind.imp_right fun within le => .inl (within le)
  -- The last backslash counts for two characters.
  | @backslash _ content position ends =>
    have length := on.length_add ends.ne_nil
    dsimp only at length
    refine ⟨⟨?_, by dsimp only; omega⟩, fun _ => .inr ⟨content, ends⟩⟩
    exact (List.drop_eq_nil_of_le (by dsimp only; omega)).symm
  | stuck _ _ => exact on.behind.imp_right fun within le => .inl (within le)

theorem Reading.position_of_backslash {content : List Char} (h : Reading l reading l')
    (on : OnText cs l) (ends : EndsInBackslash l.rest content) :
    reading = .ok ⟨.string, String.ofList content⟩ ∧ l'.position = cs.length + 1 := by
  have other : Reading l _ _ := .backslash ends
  obtain ⟨rfl, rfl⟩ := Prod.mk.inj (h.next_eq.symm.trans other.next_eq)
  have length := on.length_add ends.ne_nil
  exact ⟨rfl, by dsimp only; omega⟩

/-! ## §3 The end and errors -/

/-- The readings after which the lexer stays: the end token and every error. -/
def IsLast (reading : Except SyntaxError Token) : Prop :=
  reading = .ok .eof ∨ ∃ error, reading = .error error

theorem not_isLast {t : Token} (notEnd : t.kind ≠ .eof) : ¬IsLast (.ok t) := by
  rintro (same | ⟨error, same⟩)
  · cases same
    exact notEnd rfl
  · cases same

theorem Reading.last_or_token (h : Reading l reading l') :
    IsLast reading ∨ ∃ t, reading = .ok t ∧ t.kind ≠ .eof := by
  cases h with
  | finished _ => exact .inl (.inl rfl)
  | word _ first => exact .inr ⟨_, rfl, first.ne_eof⟩
  | unclosed _ _ _ | backslash _ => exact .inr ⟨_, rfl, nofun⟩
  | stuck _ _ => exact .inl (.inr ⟨_, rfl⟩)

/-- From the end and from an error on, every reading is the same. -/
theorem Reading.stays (h : Reading l reading l') (last : IsLast reading) :
    Reading l' reading l' := by
  cases h with
  | finished _ => exact .finished (List.forall_mem_nil _)
  | word _ first => exact absurd last (not_isLast first.ne_eof)
  | unclosed _ _ _ | backslash _ => exact absurd last (not_isLast nofun)
  | stuck _ stuck => exact .stuck (List.forall_mem_nil _) stuck

/-- An error names the character in front of which the lexer stays, and the place of it. -/
theorem Reading.error_eq {error : SyntaxError} (h : Reading l (.error error) l') :
    ∃ c after, l'.rest = c :: after ∧ Stuck c after ∧
      error = .unexpectedCharacter c l'.position := by
  cases h with
  | stuck _ stuck => exact ⟨_, _, rfl, stuck, rfl⟩

/-! ## §4 Runs -/

/-- The lexer after a number of readings. -/
def after (l : Lexer) : Nat → Lexer
  | 0 => l
  | n + 1 => (after l n).next.2

theorem after_next (l : Lexer) (n : Nat) : l.next.2.after n = l.after (n + 1) := by
  induction n with
  | zero => rfl
  | succ n ih =>
    show (l.next.2.after n).next.2 = (l.after (n + 1)).next.2
    rw [ih]

theorem after_add (l : Lexer) (m n : Nat) : (l.after m).after n = l.after (m + n) := by
  induction n with
  | zero => rfl
  | succ n ih =>
    show ((l.after m).after n).next.2 = (l.after (m + n)).next.2
    rw [ih]

/-- The readings of a run, each with the position after it. -/
theorem steps_eq (l : Lexer) (n : Nat) :
    l.steps n = (List.range n).map fun i => ((l.after i).next.1, (l.after (i + 1)).position) := by
  induction n generalizing l with
  | zero => rfl
  | succ n ih =>
    have first : l.steps (n + 1) = (l.next.1, l.next.2.position) :: l.next.2.steps n := rfl
    rw [first, ih, List.range_succ_eq_map, List.map_cons, List.map_map]
    simp only [Function.comp_def, after_next]
    rfl

theorem position_after_le (l : Lexer) {m n : Nat} (le : m ≤ n) :
    (l.after m).position ≤ (l.after n).position := by
  induction le with
  | refl => exact Nat.le_refl _
  | step _ ih => exact Nat.le_trans ih (reading_next _).position_le

/-- Where the lexer stays, it is after any number of readings. -/
theorem after_of_stays (stays : Reading l reading l) (n : Nat) : l.after n = l := by
  induction n with
  | zero => rfl
  | succ n ih =>
    show (l.after n).next.2 = l
    rw [ih, stays.next_eq]

/-- After the end token or an error, all readings give the same and the position is the same. -/
theorem after_of_isLast {m n : Nat} (last : IsLast (l.after n).next.1) (le : n ≤ m) :
    (l.after m).next.1 = (l.after n).next.1 ∧
      (l.after (m + 1)).position = (l.after (n + 1)).position := by
  have stays : Reading (l.after (n + 1)) _ (l.after (n + 1)) := (reading_next _).stays last
  rcases Nat.eq_or_lt_of_le le with rfl | lt
  · exact ⟨rfl, rfl⟩
  · obtain ⟨k, rfl⟩ := Nat.exists_eq_add_of_lt lt
    have stay (k : Nat) : l.after (n + 1 + k) = l.after (n + 1) := by
      rw [← after_add, after_of_stays stays]
    rw [Nat.add_right_comm n k 1, Nat.add_assoc (n + 1) k 1, stay, stay, stays.next_eq]
    exact ⟨rfl, rfl⟩

/-- On a text, the position always says what is left. -/
theorem onText_after (source : String) (n : Nat) :
    OnText source.toList ((ofSource source).after n) := by
  induction n with
  | zero => exact .start
  | succ n ih => exact ((reading_next _).onText ih).1

/-- The position is behind the end exactly after a string with a single backslash at its end. -/
theorem position_after_eq_iff (source : String) (n : Nat) :
    ((ofSource source).after n).position = source.toList.length + 1 ↔
      ∃ m < n, ∃ content, EndsInBackslash ((ofSource source).after m).rest content := by
  constructor
  · intro behind
    induction n with
    | zero => cases behind
    | succ n ih =>
      have on := onText_after source n
      -- The position was behind the end before, or this reading brings it there.
      rcases Nat.lt_or_ge source.toList.length ((ofSource source).after n).position with
        before | within
      · obtain ⟨m, lt, ends⟩ := ih (Nat.le_antisymm on.bound before)
        exact ⟨m, Nat.lt_succ_of_lt lt, ends⟩
      · rcases ((reading_next _).onText on).2 within with le | ends
        · have : source.toList.length + 1 ≤ source.toList.length := behind ▸ le
          omega
        · exact ⟨n, Nat.lt_succ_self n, ends⟩
  · rintro ⟨m, lt, content, ends⟩
    have there := ((reading_next _).position_of_backslash (onText_after source m) ends).2
    have later := position_after_le (ofSource source) lt
    exact Nat.le_antisymm (onText_after source n).bound (there ▸ later)

/-! ## §5 The tokens of a run -/

/-- The tokens before the first end token or error, and this last reading. -/
inductive Run : Lexer → List Token → Except SyntaxError Token → Prop where
  | last {l l' : Lexer} {reading : Except SyntaxError Token} :
      Reading l reading l' → IsLast reading → Run l [] reading
  | token {l l' : Lexer} {t : Token} {ts : List Token} {reading : Except SyntaxError Token} :
      Reading l (.ok t) l' → t.kind ≠ .eof → Run l' ts reading → Run l (t :: ts) reading

/-- A token leaves less of the text. -/
theorem Reading.length_lt {t : Token} (h : Reading l (.ok t) l') (notEnd : t.kind ≠ .eof) :
    l'.rest.length < l.rest.length := by
  cases h with
  | finished _ => exact absurd rfl notEnd
  | word _ first =>
    have := first.length_lt
    simp only [List.length_append] at this ⊢
    omega
  | unclosed _ _ _ => exact List.length_pos_iff.mpr (List.append_ne_nil_of_right_ne_nil _ nofun)
  | backslash ends => exact List.length_pos_iff.mpr ends.ne_nil

/-- Every run comes to an end token or an error. -/
theorem exists_run (l : Lexer) : ∃ ts reading, Run l ts reading := by
  induction size : l.rest.length using Nat.strongRecOn generalizing l with
  | ind n ih =>
    have reads := reading_next l
    rcases reads.last_or_token with last | ⟨t, same, notEnd⟩
    · exact ⟨[], _, .last reads last⟩
    · rw [same] at reads
      obtain ⟨ts, reading, run⟩ := ih _ (size ▸ reads.length_lt notEnd) _ rfl
      exact ⟨t :: ts, reading, .token reads notEnd run⟩

variable {ts : List Token}

theorem Run.isLast (h : Run l ts reading) : IsLast reading := by
  induction h with
  | last _ last => exact last
  | token _ _ _ ih => exact ih

theorem Run.no_end (h : Run l ts reading) : ∀ t ∈ ts, t.kind ≠ .eof := by
  induction h with
  | last _ _ => exact List.forall_mem_nil _
  | token _ notEnd _ ih => exact List.forall_mem_cons.mpr ⟨notEnd, ih⟩

/-- The readings of the run, one after the other. -/
theorem Run.steps (h : Run l ts reading) :
    (l.steps (ts.length + 1)).map (·.1) = ts.map .ok ++ [reading] := by
  induction h with
  | last reads _ =>
    simp only [Lexer.steps, reads.next_eq]
    rfl
  | token reads _ _ ih =>
    rw [List.length_cons, Lexer.steps, List.map_cons, reads.next_eq, ih]
    rfl

theorem Reading.tokens_of_token {t : Token} (h : Reading l (.ok t) l') (notEnd : t.kind ≠ .eof) :
    l.tokens = l'.tokens.map (t :: ·) := by
  have next := h.next_eq
  unfold Lexer.next at next
  dsimp only at next
  split at next
  · cases next
    exact absurd rfl notEnd
  · rename_i read
    cases next
    exact Lexer.tokens_of_token read
  · cases next

theorem Reading.tokens_of_last (h : Reading l reading l') (last : IsLast reading) :
    l.tokens = reading.map fun t => [t] := by
  cases h with
  | @finished blanks position space =>
    rw [← List.append_nil blanks, tokens_append position space, tokens_of_finished rfl]
    rfl
  | word _ first => exact absurd last (not_isLast first.ne_eof)
  | unclosed _ _ _ | backslash _ => exact absurd last (not_isLast nofun)
  | stuck space stuck =>
    rw [tokens_append _ space, tokens_of_stuck stuck]
    rfl

/-- The tokens of a text are those of a run, or its error. -/
theorem Run.tokens (h : Run l ts reading) : l.tokens = reading.map fun t => ts ++ [t] := by
  induction h with
  | last reads last => exact reads.tokens_of_last last
  | @token _ _ t ts reading reads notEnd _ ih =>
    rw [reads.tokens_of_token notEnd, ih]
    cases reading <;> rfl

/-! ## §6 Every run -/

/-- **The lexer as a machine.**  However often a lexer is asked for a token, its position says what
is left of the text, never decreases and is at most one behind the end, where it is exactly after a
string that ends in a single backslash.  Every token but the end token moves it.  The end token
comes exactly if there are only blanks left, an error names the character at the position, and both
come again and again without moving.  The readings up to the first end token are the tokens of the
text, and those up to the first error end in its error; there are no more tokens than characters and
the end. -/
theorem readings_of_source (source : String) :
    let l (n : Nat) : Lexer := (ofSource source).after n
    (∀ n, (ofSource source).steps n =
      (List.range n).map fun i => ((l i).next.1, (l (i + 1)).position)) ∧
    (∀ n, (l n).rest = source.toList.drop (l n).position ∧
      (l n).position ≤ (l (n + 1)).position ∧ (l n).position ≤ source.length + 1) ∧
    (∀ n, (l n).position = source.length + 1 ↔ ∃ m < n, ∃ content,
      EndsInBackslash (source.toList.drop (l m).position) content ∧
        (l m).next.1 = .ok ⟨.string, String.ofList content⟩) ∧
    (∀ n t, (l n).next.1 = .ok t → t.kind ≠ .eof → (l n).position + 1 ≤ (l (n + 1)).position) ∧
    (∀ n, (l n).next.1 = .ok .eof ↔
      ∀ c ∈ source.toList.drop (l n).position, Text.isBlank c = true) ∧
    (∀ n, (l n).next.1 = .ok .eof → ∀ m, n ≤ m →
      (l m).next.1 = .ok .eof ∧ (l (m + 1)).position = (l (n + 1)).position) ∧
    (∀ n error, (l n).next.1 = .error error →
      (∃ c after, source.toList.drop (l (n + 1)).position = c :: after ∧ Stuck c after ∧
        error = .unexpectedCharacter c (l (n + 1)).position) ∧
      ∀ m, n ≤ m →
        (l m).next.1 = .error error ∧ (l (m + 1)).position = (l (n + 1)).position) ∧
    (∃ ts last, (∀ t ∈ ts, t.kind ≠ .eof) ∧ (last = .ok .eof ∨ ∃ error, last = .error error) ∧
      ((ofSource source).steps (ts.length + 1)).map (·.1) = ts.map .ok ++ [last] ∧
      tokenize source = last.map fun t => ts ++ [t]) ∧
    ∀ ts, tokenize source = .ok ts → ts.length ≤ source.length + 1 := by
  intro l
  have on (n : Nat) : OnText source.toList (l n) := onText_after source n
  have reads (n : Nat) : Reading (l n) (l n).next.1 (l (n + 1)) := reading_next (l n)
  have length : source.toList.length = source.length := String.length_toList
  refine ⟨steps_eq _, fun n => ⟨(on n).rest, (reads n).position_le, length ▸ (on n).bound⟩,
    fun n => ?_, fun n t same notEnd => ?_, fun n => ?_, fun n same m le => ?_,
    fun n error same => ⟨?_, fun m le => ?_⟩, ?_, fun ts read => ?_⟩
  · rw [← length, position_after_eq_iff]
    refine exists_congr fun m => and_congr_right fun _ => exists_congr fun content => ?_
    rw [← (on m).rest]
    exact ⟨fun ends => ⟨ends, ((reads m).position_of_backslash (on m) ends).1⟩, And.left⟩
  · have moves := reads n
    rw [same] at moves
    exact moves.position_lt notEnd
  · rw [← (on n).rest]
    exact (reads n).eof_iff
  · have last : IsLast (l n).next.1 := .inl same
    exact same ▸ after_of_isLast last le
  · have moves := reads n
    rw [same] at moves
    rw [← (on (n + 1)).rest]
    exact moves.error_eq
  · have last : IsLast (l n).next.1 := .inr ⟨error, same⟩
    exact same ▸ after_of_isLast last le
  · obtain ⟨ts, last, run⟩ := exists_run (ofSource source)
    exact ⟨ts, last, run.no_end, run.isLast, run.steps, run.tokens⟩
  · obtain ⟨us, rfl, cut⟩ := tokenize_eq_ok.mp read
    rw [List.length_append, ← length]
    exact Nat.succ_le_succ cut.length_le

/-- In `a 'b\` the string takes the backslash for two characters, and so the position gets behind
the end, from which the end token is read again and again. -/
theorem readings_of_source_backslash :
    let source := "a 'b\\"
    let l (n : Nat) : Lexer := (ofSource source).after n
    source.length = 5 ∧ (l 2).position = 6 ∧
      (∃ m < 2, ∃ content, EndsInBackslash (source.toList.drop (l m).position) content ∧
        (l m).next.1 = .ok ⟨.string, String.ofList content⟩) ∧
      ∀ m, 2 ≤ m → (l m).next.1 = .ok .eof ∧ (l (m + 1)).position = 6 := by
  intro source l
  have runs := readings_of_source source
  have state : l 2 = ⟨[], 6⟩ := by
    show (ofSource "a 'b\\").after 2 = ⟨[], 6⟩
    rfl
  have behind : (l 2).position = source.length + 1 := by rw [state]; decide
  have finished : (l 2).next.1 = .ok .eof := by rw [state]; rfl
  have third : (l 3).position = 6 := by
    show (l 2).next.2.position = 6
    rw [state]
    rfl
  refine ⟨by decide, by rw [state], (runs.2.2.1 2).mp behind, fun m le => ?_⟩
  rw [← third]
  exact runs.2.2.2.2.2.1 2 finished m le

end Lexer

end Visibility
