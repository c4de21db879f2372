import Visibility.Token.Lexer
import Visibility.Expr
import Mathlib.Data.List.TakeDrop

/-!
# Words and the longest match

Which texts the words of the language are, strings apart: operators, marks, numbers and names, each
with a pattern that it matches as a whole (`IsLexeme`).  Many words are the start of another, as `!`
is of `!=`, and `IsLongest` says that no pattern matches more of a text than the word in front.

Main statements: `IsLongest.unique` (a text starts with one longest word at most),
`fixedToken?_longest` (in the order of the table the first match is the longest), `scan_longest` and
`scan_append` (the scanner takes a word exactly when it is the longest) and `scan_unexpected` (where
it takes nothing, nothing begins).
-/

namespace Visibility

/-! ## §1 Words that are no strings -/

/-- The text is matched by the pattern of a kind of token. -/
inductive IsLexeme : TokenKind → List Char → Prop where
  | operator (operator : Operator) :
      (∀ text, operator ≠ .other text) → IsLexeme .operator operator.text.toList
  | dot : IsLexeme .dot ['.']
  | lparen : IsLexeme .lparen ['(']
  | rparen : IsLexeme .rparen [')']
  | lbracket : IsLexeme .lbracket ['[']
  | rbracket : IsLexeme .rbracket [']']
  | comma : IsLexeme .comma [',']
  | number {c : Char} {cs : List Char} :
      isDigit c = true → (∀ d ∈ cs, isNumberPart d = true) → IsLexeme .number (c :: cs)
  -- The reserved words look like names, and their kind is that of the value they stand for.
  | word {c : Char} {cs : List Char} :
      isNameStart c = true → (∀ d ∈ cs, isNamePart d = true) →
      IsLexeme (keywordKind (String.ofList (c :: cs))) (c :: cs)

/-- No pattern matches more of the text than the word in front. -/
def IsLongest (lexeme text : List Char) : Prop :=
  ∀ kind longer, IsLexeme kind longer → longer <+: lexeme ++ text →
    longer.length ≤ lexeme.length

/-- The words of the table are matched by their patterns. -/
theorem isLexeme_of_mem_fixedTokens {entry : List Char × TokenKind} (mem : entry ∈ fixedTokens) :
    IsLexeme entry.2 entry.1 := by
  simp only [fixedTokens, List.mem_cons, List.not_mem_nil, or_false] at mem
  rcases mem with rfl | rfl | rfl | rfl | rfl | rfl | rfl | rfl | rfl | rfl | rfl | rfl | rfl | rfl |
    rfl | rfl | rfl
  · exact .operator .strictEqual nofun
  · exact .operator .strictUnequal nofun
  · exact .operator .looseEqual nofun
  · exact .operator .looseUnequal nofun
  · exact .operator .greaterEqual nofun
  · exact .operator .lessEqual nofun
  · exact .operator .and nofun
  · exact .operator .or nofun
  · exact .operator .not nofun
  · exact .operator .greater nofun
  · exact .operator .less nofun
  · exact .dot
  · exact .lparen
  · exact .rparen
  · exact .lbracket
  · exact .rbracket
  · exact .comma

/-- The operators of the language stand in the table. -/
theorem operator_mem_fixedTokens {operator : Operator} (known : ∀ text, operator ≠ .other text) :
    (operator.text.toList, TokenKind.operator) ∈ fixedTokens := by
  cases operator with
  | other text => exact absurd rfl (known text)
  | _ => decide

/-- What is matched by a pattern stands in the table, or is a number or a name. -/
theorem IsLexeme.form {kind : TokenKind} {lexeme : List Char} (word : IsLexeme kind lexeme) :
    (lexeme, kind) ∈ fixedTokens ∨
      (∃ c cs, lexeme = c :: cs ∧ kind = .number ∧ isDigit c = true ∧
        ∀ d ∈ cs, isNumberPart d = true) ∨
      (∃ c cs, lexeme = c :: cs ∧ kind = keywordKind (String.ofList lexeme) ∧
        isNameStart c = true ∧ ∀ d ∈ cs, isNamePart d = true) := by
  cases word with
  | operator operator known => exact .inl (operator_mem_fixedTokens known)
  | dot | lparen | rparen | lbracket | rbracket | comma => exact .inl (by decide)
  | number first others => exact .inr (.inl ⟨_, _, rfl, rfl, first, others⟩)
  | word first others => exact .inr (.inr ⟨_, _, rfl, rfl, first, others⟩)

/-! ## §2 The classes of characters are apart -/

theorem toNat_of_isNameStart {c : Char} (h : isNameStart c = true) :
    (65 ≤ c.toNat ∧ c.toNat ≤ 90) ∨ (97 ≤ c.toNat ∧ c.toNat ≤ 122) ∨ c.toNat = 95 ∨
      c.toNat = 36 := by
  simp only [isNameStart, Bool.or_eq_true, Bool.and_eq_true, decide_eq_true_eq, Char.le_def,
    UInt32.le_iff_toNat_le, beq_iff_eq] at h
  rcases h with ((upper | lower) | rfl) | rfl
  · exact .inl upper
  · exact .inr (.inl lower)
  · exact .inr (.inr (.inl rfl))
  · exact .inr (.inr (.inr rfl))

theorem toNat_of_isQuote {c : Char} (h : isQuote c = true) : c.toNat = 39 ∨ c.toNat = 34 := by
  simp only [isQuote, Bool.or_eq_true, beq_iff_eq] at h
  rcases h with rfl | rfl
  · exact .inl rfl
  · exact .inr rfl

/-- The numbers of the blanks leave out the printable ASCII characters but the space. -/
theorem isBlank_eq_false {c : Char} (low : 33 ≤ c.toNat) (high : c.toNat ≤ 126) :
    Text.isBlank c = false := by
  simp only [Text.isBlank, Bool.or_eq_false_iff, Bool.and_eq_false_iff, decide_eq_false_iff_not,
    beq_eq_false_iff_ne]
  omega

theorem isNameStart_of_isDigit {c : Char} (h : isDigit c = true) : isNameStart c = false := by
  have digit := toNat_of_isDigit h
  by_contra name
  have letter := toNat_of_isNameStart (Bool.of_not_eq_false name)
  omega

/-- The words of the table start like no number, name, string or blank. -/
theorem fixedTokens_head {entry : List Char × TokenKind} (mem : entry ∈ fixedTokens) :
    ∃ c cs, entry.1 = c :: cs ∧ isDigit c = false ∧ isNameStart c = false ∧ isQuote c = false := by
  have table : ∀ entry ∈ fixedTokens, (entry.1.head?.any fun c =>
      !isDigit c && !isNameStart c && !isQuote c) = true := by decide
  obtain ⟨c, head, apart⟩ := (Option.any_eq_true _ _).mp (table entry mem)
  obtain ⟨cs, eq⟩ := List.head?_eq_some_iff.mp head
  simp only [Bool.and_eq_true, Bool.not_eq_true'] at apart
  exact ⟨c, cs, eq, apart.1.1, apart.1.2, apart.2⟩

/-- What holds of the characters of the table, of digits and of letters holds of all characters of
words. -/
theorem IsLexeme.forall_mem {kind : TokenKind} {lexeme : List Char} {p : Char → Prop}
    (word : IsLexeme kind lexeme) (table : ∀ entry ∈ fixedTokens, ∀ c ∈ entry.1, p c)
    (digits : ∀ c, isDigit c = true → p c) (letters : ∀ c, isNameStart c = true → p c) :
    ∀ c ∈ lexeme, p c := by
  rcases word.form with mem | ⟨c, cs, rfl, -, first, others⟩ | ⟨c, cs, rfl, -, first, others⟩
  · exact table _ mem
  · refine List.forall_mem_cons.mpr ⟨digits c first, fun d mem => ?_⟩
    rcases Bool.or_eq_true_iff.mp (others d mem) with digit | dot
    · exact digits d digit
    · rw [beq_iff_eq.mp dot]
      exact table (['.'], .dot) (by decide) '.' (by simp)
  · refine List.forall_mem_cons.mpr ⟨letters c first, fun d mem => ?_⟩
    rcases Bool.or_eq_true_iff.mp (others d mem) with letter | digit
    · exact letters d letter
    · exact digits d digit

/-- The characters of a word are printable characters of ASCII, and no space. -/
theorem IsLexeme.toNat_of_mem {kind : TokenKind} {lexeme : List Char}
    (word : IsLexeme kind lexeme) : ∀ c ∈ lexeme, 33 ≤ c.toNat ∧ c.toNat ≤ 126 := by
  refine word.forall_mem (by simp [fixedTokens]) (fun c digit => ?_) fun c letter => ?_
  · have := toNat_of_isDigit digit
    omega
  · have := toNat_of_isNameStart letter
    omega

theorem IsLexeme.no_blank {kind : TokenKind} {lexeme : List Char} (word : IsLexeme kind lexeme) :
    ∀ c ∈ lexeme, Text.isBlank c = false := by
  intro c mem
  obtain ⟨low, high⟩ := word.toNat_of_mem c mem
  exact isBlank_eq_false low high

theorem IsLexeme.no_quote {kind : TokenKind} {lexeme : List Char} (word : IsLexeme kind lexeme) :
    ∀ c ∈ lexeme, isQuote c = false := by
  refine word.forall_mem (by simp [fixedTokens, isQuote]) (fun c digit => ?_) fun c letter => ?_
  · by_contra quote
    have := toNat_of_isDigit digit
    have := toNat_of_isQuote (Bool.of_not_eq_false quote)
    omega
  · by_contra quote
    have := toNat_of_isNameStart letter
    have := toNat_of_isQuote (Bool.of_not_eq_false quote)
    omega

/-- A word has a first character, and it is no quote. -/
theorem IsLexeme.head {kind : TokenKind} {lexeme : List Char} (word : IsLexeme kind lexeme) :
    ∃ c cs, lexeme = c :: cs ∧ isQuote c = false := by
  have first : ∃ c cs, lexeme = c :: cs := by
    rcases word.form with mem | ⟨c, cs, same, -⟩ | ⟨c, cs, same, -⟩
    · obtain ⟨c, cs, same, -⟩ := fixedTokens_head mem
      exact ⟨c, cs, same⟩
    · exact ⟨c, cs, same⟩
    · exact ⟨c, cs, same⟩
  obtain ⟨c, cs, rfl⟩ := first
  exact ⟨c, cs, rfl, word.no_quote c List.mem_cons_self⟩

theorem IsLexeme.of_isDigit {kind : TokenKind} {c : Char} {cs : List Char}
    (word : IsLexeme kind (c :: cs)) (digit : isDigit c = true) :
    kind = .number ∧ ∀ d ∈ cs, isNumberPart d = true := by
  rcases word.form with mem | ⟨d, ds, eq, rfl, -, others⟩ | ⟨d, ds, eq, -, first, -⟩
  · obtain ⟨d, ds, eq, noDigit, -, -⟩ := fixedTokens_head mem
    cases eq
    exact absurd digit (by simp [noDigit])
  · cases eq
    exact ⟨rfl, others⟩
  · cases eq
    exact absurd first (by simp [isNameStart_of_isDigit digit])

theorem IsLexeme.of_isNameStart {kind : TokenKind} {c : Char} {cs : List Char}
    (word : IsLexeme kind (c :: cs)) (letter : isNameStart c = true) :
    kind = keywordKind (String.ofList (c :: cs)) ∧ ∀ d ∈ cs, isNamePart d = true := by
  rcases word.form with mem | ⟨d, ds, eq, -, first, -⟩ | ⟨d, ds, eq, rfl, -, others⟩
  · obtain ⟨d, ds, eq, -, noName, -⟩ := fixedTokens_head mem
    cases eq
    exact absurd letter (by simp [noName])
  · cases eq
    exact absurd letter (by simp [isNameStart_of_isDigit first])
  · cases eq
    exact ⟨rfl, others⟩

theorem IsLexeme.mem_fixedTokens {kind : TokenKind} {c : Char} {cs : List Char}
    (word : IsLexeme kind (c :: cs)) (noDigit : isDigit c = false)
    (noName : isNameStart c = false) : (c :: cs, kind) ∈ fixedTokens := by
  rcases word.form with mem | ⟨d, ds, eq, -, first, -⟩ | ⟨d, ds, eq, -, first, -⟩
  · exact mem
  · cases eq
    exact absurd first (by simp [noDigit])
  · cases eq
    exact absurd first (by simp [noName])

/-- The text of a word tells its kind. -/
theorem IsLexeme.kind_unique {kind kind' : TokenKind} {lexeme : List Char}
    (word : IsLexeme kind lexeme) (word' : IsLexeme kind' lexeme) : kind = kind' := by
  rcases word.form with mem | ⟨c, cs, rfl, rfl, digit, -⟩ | ⟨c, cs, rfl, rfl, letter, -⟩
  · obtain ⟨c, cs, rfl, noDigit, noName, -⟩ := fixedTokens_head mem
    have table : ∀ entry ∈ fixedTokens, ∀ entry' ∈ fixedTokens,
        entry.1 = entry'.1 → entry.2 = entry'.2 := by decide
    exact table _ mem _ (word'.mem_fixedTokens noDigit noName) rfl
  · exact (word'.of_isDigit digit).1.symm
  · exact (word'.of_isNameStart letter).1.symm

/-- Of the words at the start of a text, only one is the longest. -/
theorem IsLongest.unique {kind kind' : TokenKind} {lexeme lexeme' text text' : List Char}
    (word : IsLexeme kind lexeme) (longest : IsLongest lexeme text)
    (word' : IsLexeme kind' lexeme') (longest' : IsLongest lexeme' text')
    (same : lexeme ++ text = lexeme' ++ text') : kind = kind' ∧ lexeme = lexeme' ∧ text = text' := by
  have longer : lexeme'.length ≤ lexeme.length :=
    longest kind' lexeme' word' (same ▸ List.prefix_append _ _)
  have longer' : lexeme.length ≤ lexeme'.length :=
    longest' kind lexeme word (same ▸ List.prefix_append _ _)
  obtain ⟨rfl, rfl⟩ := List.append_inj same (Nat.le_antisymm longer' longer)
  exact ⟨word.kind_unique word', rfl, rfl⟩

/-- No word reaches beyond a character that is none of its own. -/
theorem IsLexeme.prefix_of_not_mem {kind : TokenKind} {lexeme front text : List Char}
    (word : IsLexeme kind lexeme) (outside : ∀ c ∈ text.head?, c ∉ lexeme)
    (start : lexeme <+: front ++ text) : lexeme <+: front := by
  by_cases fits : lexeme.length ≤ front.length
  · exact List.prefix_of_prefix_length_le start (List.prefix_append ..) fits
  · -- A longer word would have the character among its own.
    obtain ⟨others, rfl⟩ : front <+: lexeme :=
      List.prefix_of_prefix_length_le (List.prefix_append ..) start (by omega)
    rw [List.prefix_append_right_inj] at start
    cases others with
    | nil => simp at fits
    | cons c cs =>
      obtain ⟨rest, rfl⟩ := start
      exact absurd (by simp) (outside c rfl)

/-- No word reaches beyond a blank. -/
theorem IsLexeme.prefix_of_blank {kind : TokenKind} {lexeme front text : List Char}
    (word : IsLexeme kind lexeme) (blank : ∀ c ∈ text.head?, Text.isBlank c = true)
    (start : lexeme <+: front ++ text) : lexeme <+: front := by
  refine word.prefix_of_not_mem (fun c head mem => ?_) start
  have noBlank := word.no_blank c mem
  rw [blank c head] at noBlank
  cases noBlank

/-- No word reaches beyond a quote. -/
theorem IsLexeme.prefix_of_quote {kind : TokenKind} {lexeme front text : List Char} {quote : Char}
    (word : IsLexeme kind lexeme) (opens : isQuote quote = true)
    (start : lexeme <+: front ++ quote :: text) : lexeme <+: front := by
  refine word.prefix_of_not_mem (fun c head mem => ?_) start
  cases head
  rw [word.no_quote _ mem] at opens
  cases opens

/-! ## §3 The texts of a kind -/

/-- The only text of a kind of token. -/
def onlyText? : TokenKind → Option String
  | .null => some "null"
  | .dot => some "."
  | .lparen => some "("
  | .rparen => some ")"
  | .lbracket => some "["
  | .rbracket => some "]"
  | .comma => some ","
  | _ => none

theorem keywordKind_cases (s : String) :
    keywordKind s = .boolean ∧ (s = "true" ∨ s = "false") ∨ keywordKind s = .null ∧ s = "null" ∨
      keywordKind s = .identifier := by
  unfold keywordKind
  split <;> simp

theorem IsLexeme.text_eq {kind : TokenKind} {s : String} {lexeme : List Char}
    (word : IsLexeme kind lexeme) (only : onlyText? kind = some s) : lexeme = s.toList := by
  cases word with
  | operator _ _ | number _ _ => cases only
  | dot | lparen | rparen | lbracket | rbracket | comma =>
    cases only
    decide
  | @word c cs _ _ =>
    rcases keywordKind_cases (String.ofList (c :: cs)) with ⟨kind, -⟩ | ⟨kind, text⟩ | kind
    · rw [kind] at only
      cases only
    · rw [kind] at only
      cases only
      rw [← text, String.toList_ofList]
    · rw [kind] at only
      cases only

theorem IsLexeme.text_of_boolean {lexeme : List Char} (word : IsLexeme .boolean lexeme) :
    lexeme = "true".toList ∨ lexeme = "false".toList := by
  generalize kind : TokenKind.boolean = k at word
  cases word with
  | @word c cs _ _ =>
    rcases keywordKind_cases (String.ofList (c :: cs)) with ⟨-, text⟩ | ⟨kind', -⟩ | kind'
    · rcases text with text | text
      · exact .inl (by rw [← text, String.toList_ofList])
      · exact .inr (by rw [← text, String.toList_ofList])
    · exact nomatch kind.trans kind'
    · exact nomatch kind.trans kind'
  | _ => cases kind

/-- No text is an end token. -/
theorem IsLexeme.ne_eof {kind : TokenKind} {lexeme : List Char} (word : IsLexeme kind lexeme) :
    kind ≠ .eof := by
  cases word with
  | @word c cs _ _ =>
    rcases keywordKind_cases (String.ofList (c :: cs)) with ⟨kind, -⟩ | ⟨kind, -⟩ | kind
    all_goals
      rw [kind]
      exact nofun
  | _ => exact nofun

theorem isLexeme_of_reserved {kind : TokenKind} {s : String}
    (reserved : (kind, s) ∈ [(.boolean, "true"), (.boolean, "false"), (.null, "null")]) :
    IsLexeme kind s.toList := by
  have word : ∀ c cs, isNameStart c = true → cs.all isNamePart = true →
      IsLexeme (keywordKind (String.ofList (c :: cs))) (c :: cs) :=
    fun c cs first others => .word first (List.all_eq_true.mp others)
  simp only [List.mem_cons, List.not_mem_nil, or_false, Prod.mk.injEq] at reserved
  rcases reserved with ⟨rfl, rfl⟩ | ⟨rfl, rfl⟩ | ⟨rfl, rfl⟩
  · exact word 't' ['r', 'u', 'e'] rfl rfl
  · exact word 'f' ['a', 'l', 's', 'e'] rfl rfl
  · exact word 'n' ['u', 'l', 'l'] rfl rfl

/-! ## §4 The first match is the longest -/

/-- No word of the table starts like one that stands before it and is longer. -/
theorem fixedTokens_pairwise :
    fixedTokens.Pairwise fun earlier later => earlier.1 <+: later.1 → earlier.1 = later.1 := by
  decide

/-- The first word of the table that a text starts with is the longest such word. -/
theorem fixedToken?_longest {cs : List Char} {entry other : List Char × TokenKind}
    (found : fixedToken? cs = some entry) (mem : other ∈ fixedTokens) (start : other.1 <+: cs) :
    other.1.length ≤ entry.1.length := by
  obtain ⟨isStart, before, after, table, noStart⟩ := List.find?_eq_some_iff_append.mp found
  rw [List.isPrefixOf_iff_prefix] at isStart
  rw [table, List.mem_append, List.mem_cons] at mem
  -- What stands before the entry does not match, and what stands behind it does not extend it.
  rcases mem with mem | rfl | mem
  · have := noStart other mem
    rw [Bool.not_eq_true', ← Bool.not_eq_true, List.isPrefixOf_iff_prefix] at this
    exact absurd start this
  · exact Nat.le_refl _
  · have order := fixedTokens_pairwise
    rw [table, List.pairwise_append] at order
    have later := (List.pairwise_cons.mp order.2.1).1 other mem
    by_contra longer
    have same := later (List.prefix_of_prefix_length_le isStart start (by omega))
    exact longer (same ▸ Nat.le_refl _)

/-- A first match of the table is the longest word. -/
theorem isLongest_fixed {lexeme text : List Char} {kind : TokenKind}
    (found : fixedToken? (lexeme ++ text) = some (lexeme, kind)) : IsLongest lexeme text := by
  obtain ⟨c, cs, eq, noDigit, noName, -⟩ := fixedTokens_head (List.mem_of_find?_eq_some found)
  obtain rfl : lexeme = c :: cs := eq
  intro kind' longer word start
  obtain ⟨d, ds, rfl, -⟩ := word.head
  obtain rfl : d = c := (List.cons_prefix_cons.mp start).1
  exact fixedToken?_longest found (word.mem_fixedTokens noDigit noName) start

/-- A first character with all that follows it of a class is the longest word, if the words with
this first character go on with characters of the class. -/
theorem isLongest_run {p : Char → Bool} {c : Char} (cs : List Char)
    (inside : ∀ kind ds, IsLexeme kind (c :: ds) → ∀ d ∈ ds, p d = true) :
    IsLongest (c :: cs.takeWhile p) (cs.dropWhile p) := by
  intro kind longer word start
  rw [List.cons_append, List.takeWhile_append_dropWhile] at start
  obtain ⟨d, ds, rfl, -⟩ := word.head
  obtain ⟨rfl, rest, rfl⟩ := List.cons_prefix_cons.mp start
  rw [List.takeWhile_append_of_pos (inside kind ds word)]
  simp only [List.length_cons, List.length_append]
  omega

/-- The word that the scanner takes is matched by its pattern, and no pattern matches more. -/
theorem scan_longest {c : Char} {cs rest : List Char} {t : Token} {width : Nat}
    (noQuote : isQuote c = false) (read : scan (c :: cs) = .token t width rest) :
    ∃ lexeme, c :: cs = lexeme ++ rest ∧ t.text = String.ofList lexeme ∧ width = lexeme.length ∧
      IsLexeme t.kind lexeme ∧ IsLongest lexeme rest := by
  simp only [scan, noQuote, Bool.false_eq_true, if_false] at read
  -- The table comes first; numbers and names are runs behind a first character of their own.
  split at read
  · rename_i lexeme kind found
    have mem : (lexeme, kind) ∈ fixedTokens := List.mem_of_find?_eq_some found
    have start := List.find?_some found
    obtain ⟨text, eq⟩ := List.isPrefixOf_iff_prefix.mp start
    rw [← eq] at found
    have restEq : cs.drop (lexeme.length - 1) = text := by
      obtain ⟨d, ds, head, -⟩ := fixedTokens_head mem
      obtain rfl : lexeme = d :: ds := head
      obtain ⟨rfl, rfl⟩ := List.cons_eq_cons.mp eq
      simp
    cases read
    rw [restEq]
    exact ⟨lexeme, eq.symm, rfl, rfl, isLexeme_of_mem_fixedTokens mem, isLongest_fixed found⟩
  · split at read
    · rename_i digit
      cases read
      have inside : ∀ d ∈ cs.takeWhile isNumberPart, isNumberPart d = true :=
        List.all_eq_true.mp List.all_takeWhile
      refine ⟨c :: cs.takeWhile isNumberPart, ?_, rfl, rfl, .number digit inside, ?_⟩
      · rw [List.cons_append, List.takeWhile_append_dropWhile]
      · exact isLongest_run cs fun _ _ word => (word.of_isDigit digit).2
    · split at read
      · rename_i letter
        cases read
        have inside : ∀ d ∈ cs.takeWhile isNamePart, isNamePart d = true :=
          List.all_eq_true.mp List.all_takeWhile
        refine ⟨c :: cs.takeWhile isNamePart, ?_, rfl, rfl, .word letter inside, ?_⟩
        · rw [List.cons_append, List.takeWhile_append_dropWhile]
        · exact isLongest_run cs fun _ _ word => (word.of_isNameStart letter).2
      · cases read

theorem scan_ne_finished (c : Char) (cs : List Char) : scan (c :: cs) ≠ .finished := by
  rw [scan]
  repeat' split
  all_goals exact nofun

/-- Where the scanner finds nothing to take, no word begins. -/
theorem scan_unexpected {c d : Char} {cs : List Char} (read : scan (c :: cs) = .unexpected d) :
    d = c ∧ isQuote c = false ∧ ∀ kind lexeme, IsLexeme kind lexeme → ¬lexeme <+: c :: cs := by
  simp only [scan] at read
  split at read
  · cases read
  · rename_i noQuote
    split at read
    · cases read
    · rename_i notFixed
      split at read
      · cases read
      · rename_i noDigit
        split at read
        · cases read
        · rename_i noName
          cases read
          refine ⟨rfl, Bool.eq_false_iff.mpr noQuote, fun kind lexeme word start => ?_⟩
          obtain ⟨d, ds, rfl, -⟩ := word.head
          obtain rfl : d = c := (List.cons_prefix_cons.mp start).1
          -- Without a quote, a digit or a letter, only a word of the table could begin here.
          have mem := word.mem_fixedTokens (Bool.eq_false_iff.mpr noDigit)
            (Bool.eq_false_iff.mpr noName)
          have := List.find?_eq_none.mp notFixed _ mem
          exact this (List.isPrefixOf_iff_prefix.mpr start)

/-- The scanner takes the longest word. -/
theorem scan_append {kind : TokenKind} {lexeme text : List Char} (word : IsLexeme kind lexeme)
    (longest : IsLongest lexeme text) :
    scan (lexeme ++ text) = .token ⟨kind, String.ofList lexeme⟩ lexeme.length text := by
  obtain ⟨c, cs, rfl, noQuote⟩ := word.head
  -- What it takes is the longest, too, and there is only one longest word.
  cases read : scan (c :: cs ++ text) with
  | finished => exact absurd read (scan_ne_finished _ _)
  | unexpected d =>
    have none := (scan_unexpected read).2.2 kind _ word
    exact absurd (List.prefix_append _ _) none
  | token t width rest =>
    obtain ⟨lexeme, eq, text, rfl, word', longest'⟩ := scan_longest noQuote read
    obtain ⟨rfl, rfl, rfl⟩ := IsLongest.unique word longest word' longest' eq
    cases t
    cases text
    rfl

end Visibility
