import Visibility.Proofs.Grammar.Completeness
import Visibility.Proofs.Lexeme
import Mathlib.Data.List.Forall2

/-!
# Trees and their tokens

Which trees the grammar gives, stated on the trees alone, and which tokens a tree is spelled with.

* `Layered` — a tree of a level: below an operator stand trees of the levels that the grammar has
  there, and names, operators and literals are those of the language
* `Spells` — the tokens of a tree; only for a number there is a choice, of its lexeme
* `IsWord` — the token is one that a text can have

Main statements: `Layered.derives` (a tree of a level is derived from its tokens),
`Derives.spelled` (a derivation from words gives a tree of the level, and the words are its tokens)
and `Layered.sameUpToNumerals` (two spellings differ in the lexemes of numbers only).
-/

namespace Visibility.Grammar

/-! ## §1 Words -/

/-- The token is a string or has a text that is matched by the pattern of its kind. -/
def IsWord (t : Token) : Prop :=
  t.kind = .string ∨ IsLexeme t.kind t.text.toList

theorem IsWord.eq_of_kind {t : Token} {kind : TokenKind} {s : String} (word : IsWord t)
    (same : t.kind = kind) (only : onlyText? kind = some s) : t = ⟨kind, s⟩ := by
  subst same
  rcases word with string | word
  · rw [string] at only
    cases only
  · rw [← String.toList_inj.mp (word.text_eq only)]

theorem IsWord.of_text {kind : TokenKind} {text : String} (word : IsLexeme kind text.toList) :
    IsWord ⟨kind, text⟩ :=
  .inr word

theorem IsWord.ne_eof {t : Token} (word : IsWord t) : t.kind ≠ .eof := by
  rcases word with string | word
  · rw [string]
    exact nofun
  · exact word.ne_eof

/-- The token that writes a literal. -/
inductive WritesLiteral : Token → Value → Prop where
  | string (content : String) : WritesLiteral ⟨.string, content⟩ (.string content)
  | number {lexeme : String} : IsLexeme .number lexeme.toList →
      WritesLiteral ⟨.number, lexeme⟩ (.double (Numeral.lexemeValue lexeme))
  | true : WritesLiteral ⟨.boolean, "true"⟩ (.bool Bool.true)
  | false : WritesLiteral ⟨.boolean, "false"⟩ (.bool Bool.false)
  | null : WritesLiteral ⟨.null, "null"⟩ .null

theorem WritesLiteral.literal {t : Token} {v : Value} (written : WritesLiteral t v) :
    Literal t v := by
  cases written with
  | string content => exact .string rfl
  | number word => exact .number rfl
  | true => exact .true rfl rfl
  | false => exact .false rfl (by decide)
  | null => exact .null rfl

theorem WritesLiteral.isWord {t : Token} {v : Value} (written : WritesLiteral t v) : IsWord t := by
  cases written with
  | string content => exact .inl rfl
  | number word => exact .inr word
  | true => exact .inr (isLexeme_of_reserved (by decide))
  | false => exact .inr (isLexeme_of_reserved (by decide))
  | null => exact .inr (isLexeme_of_reserved (by decide))

/-- A word that stands for a value writes it. -/
theorem IsWord.writesLiteral {t : Token} {v : Value} (word : IsWord t) (value : Literal t v) :
    WritesLiteral t v := by
  obtain ⟨kind, text⟩ := t
  cases value with
  | string same =>
    cases same
    exact .string text
  | number same =>
    cases same
    exact .number (word.resolve_left nofun)
  | true same isTrue =>
    cases same
    cases isTrue
    exact .true
  | false same notTrue =>
    cases same
    rcases (word.resolve_left nofun).text_of_boolean with eq | eq
    · exact absurd (String.toList_inj.mp eq) notTrue
    · cases String.toList_inj.mp eq
      exact .false
  | null same =>
    cases same
    rw [word.eq_of_kind rfl rfl]
    exact .null

/-! ## §2 Trees of the levels -/

/-- A name of the language. -/
structure IsName (s : String) : Prop where
  letters : ∃ c cs, s.toList = c :: cs ∧ isNameStart c = true ∧ ∀ d ∈ cs, isNamePart d = true
  not_reserved : s ∉ ["true", "false", "null"]

/-- The names are the texts of identifiers. -/
theorem isName_iff {s : String} : IsName s ↔ IsLexeme .identifier s.toList := by
  constructor
  · rintro ⟨⟨c, cs, eq, first, others⟩, free⟩
    have kind : keywordKind (String.ofList (c :: cs)) = .identifier := by
      rw [← eq, String.ofList_toList]
      rcases keywordKind_cases s with ⟨-, rfl | rfl⟩ | ⟨-, rfl⟩ | kind
      · simp at free
      · simp at free
      · simp at free
      · exact kind
    rw [eq, ← kind]
    exact .word first others
  · intro word
    refine ⟨?_, ?_⟩
    · rcases word.form with mem | ⟨c, cs, -, kind, -, -⟩ | ⟨c, cs, eq, -, first, others⟩
      · have table : ∀ entry ∈ fixedTokens, entry.2 ≠ .identifier := by decide
        exact absurd rfl (table _ mem)
      · cases kind
      · exact ⟨c, cs, eq, first, others⟩
    · intro reserved
      simp only [List.mem_cons, List.not_mem_nil, or_false] at reserved
      have word' : IsLexeme .boolean s.toList ∨ IsLexeme .null s.toList := by
        rcases reserved with rfl | rfl | rfl
        · exact .inl (isLexeme_of_reserved (by decide))
        · exact .inl (isLexeme_of_reserved (by decide))
        · exact .inr (isLexeme_of_reserved (by decide))
      rcases word' with word' | word'
      · exact nomatch word.kind_unique word'
      · exact nomatch word.kind_unique word'

/-- The tree belongs to the level.  A tree of a looser level stands below a tighter one only as a
group, an item or an argument. -/
inductive Layered : Level → Expr → Prop where
  | conjunction {e : Expr} : Layered .conjunction e → Layered .disjunction e
  | or {a b : Expr} :
      Layered .disjunction a → Layered .conjunction b → Layered .disjunction (.binary .or a b)
  | comparison {e : Expr} : Layered .comparison e → Layered .conjunction e
  | and {a b : Expr} :
      Layered .conjunction a → Layered .comparison b → Layered .conjunction (.binary .and a b)
  | negation {e : Expr} : Layered .negation e → Layered .comparison e
  | compare {operator : Operator} {a b : Expr} :
      operator ∈ comparisonOperators → Layered .comparison a → Layered .negation b →
      Layered .comparison (.binary operator a b)
  | not {e : Expr} : Layered .negation e → Layered .negation (.unary .not e)
  | postfixed {e : Expr} : Layered .postfixed e → Layered .negation e
  | primary {e : Expr} : Layered .primary e → Layered .postfixed e
  | member {object : Expr} {property : String} :
      Layered .postfixed object → IsName property → Layered .postfixed (.member object property)
  | call {object : Expr} {method : String} {es : List Expr} :
      Layered .postfixed object → IsName method → (∀ e ∈ es, Layered .disjunction e) →
      Layered .postfixed (.call object method es)
  | literal {t : Token} {v : Value} : WritesLiteral t v → Layered .primary (.literal v)
  | name {name : String} : IsName name → Layered .primary (.name name)
  | array {es : List Expr} :
      (∀ e ∈ es, Layered .disjunction e) → Layered .primary (.array es)
  | group {e : Expr} : Layered .disjunction e → Layered .primary (.group e)

mutual

/-- The tokens that a tree is spelled with. -/
def Spells : Expr → List Token → Prop
  | .literal v, ts => ∃ t, WritesLiteral t v ∧ ts = [t]
  | .name name, ts => ts = [⟨.identifier, name⟩]
  | .member object property, ts =>
    ∃ us, Spells object us ∧ ts = us ++ [⟨.dot, "."⟩, ⟨.identifier, property⟩]
  | .array es, ts =>
    ∃ us, SpellsAll es us ∧ ts = ⟨.lbracket, "["⟩ :: (us ++ [⟨.rbracket, "]"⟩])
  | .call object method es, ts =>
    ∃ us vs, Spells object us ∧ SpellsAll es vs ∧
      ts = us ++ ⟨.dot, "."⟩ :: ⟨.identifier, method⟩ :: ⟨.lparen, "("⟩ :: (vs ++ [⟨.rparen, ")"⟩])
  | .binary operator a b, ts =>
    ∃ us vs, Spells a us ∧ Spells b vs ∧ ts = us ++ ⟨.operator, operator.text⟩ :: vs
  | .unary operator e, ts => ∃ us, Spells e us ∧ ts = ⟨.operator, operator.text⟩ :: us
  | .group e, ts => ∃ us, Spells e us ∧ ts = ⟨.lparen, "("⟩ :: (us ++ [⟨.rparen, ")"⟩])
  | .unknown _, _ => False

/-- The tokens of a list, with a comma between two items. -/
def SpellsAll : List Expr → List Token → Prop
  | [], ts => ts = []
  | [e], ts => Spells e ts
  | e :: next :: es, ts =>
    ∃ us vs, Spells e us ∧ SpellsAll (next :: es) vs ∧ ts = us ++ ⟨.comma, ","⟩ :: vs

end

/-! ## §3 The tokens of a tree derive it -/

theorem isOperator_text (operator : Operator) : IsOperator operator ⟨.operator, operator.text⟩ :=
  ⟨rfl, rfl⟩

theorem derives_of_spellsAll {es : List Expr} (each : ∀ e ∈ es, ∀ ts, Spells e ts →
    Derives (.expr .disjunction e) ts) : ∀ ts, SpellsAll es ts → Derives (.list es) ts := by
  induction es with
  | nil =>
    rintro ts rfl
    exact .none
  | cons e es ih =>
    cases es with
    | nil => exact fun ts spelled => .last (each e List.mem_cons_self ts spelled)
    | cons next es =>
      rintro ts ⟨us, vs, first, others, rfl⟩
      exact .more (each e List.mem_cons_self us first) rfl
        (ih (fun e mem => each e (List.mem_cons_of_mem _ mem)) vs others)

/-- A tree of a level is derived from the tokens that it is spelled with. -/
theorem Layered.derives {level : Level} {e : Expr} (layered : Layered level e) :
    ∀ ts, Spells e ts → Derives (.expr level e) ts := by
  -- The rules of both have the same shape, so each case is one rule of the grammar.
  induction layered with
  | conjunction _ ih => exact fun ts spelled => .conjunction (ih ts spelled)
  | comparison _ ih => exact fun ts spelled => .comparison (ih ts spelled)
  | negation _ ih => exact fun ts spelled => .negation (ih ts spelled)
  | postfixed _ ih => exact fun ts spelled => .postfixed (ih ts spelled)
  | primary _ ih => exact fun ts spelled => .primary (ih ts spelled)
  | or _ _ left right =>
    rintro ts ⟨us, vs, first, second, rfl⟩
    exact .or (left us first) (isOperator_text _) (right vs second)
  | and _ _ left right =>
    rintro ts ⟨us, vs, first, second, rfl⟩
    exact .and (left us first) (isOperator_text _) (right vs second)
  | compare known _ _ left right =>
    rintro ts ⟨us, vs, first, second, rfl⟩
    exact .compare known (left us first) (isOperator_text _) (right vs second)
  | not _ ih =>
    rintro ts ⟨us, operand, rfl⟩
    exact .not (isOperator_text _) (ih us operand)
  | @member object property _ _ ih =>
    rintro ts ⟨us, spelled, rfl⟩
    change Derives (.expr .postfixed (.member object (Token.mk .identifier property).text)) _
    exact .member (ih us spelled) rfl rfl
  | @call object method es _ _ _ ih each =>
    rintro ts ⟨us, vs, spelled, arguments, rfl⟩
    change Derives (.expr .postfixed (.call object (Token.mk .identifier method).text es)) _
    exact .call (ih us spelled) rfl rfl rfl (derives_of_spellsAll each vs arguments) rfl
  | literal _ =>
    rintro ts ⟨t, written, rfl⟩
    exact .literal written.literal
  | @name name _ =>
    rintro ts rfl
    change Derives (.expr .primary (.name (Token.mk .identifier name).text)) _
    exact .name rfl
  | array _ each =>
    rintro ts ⟨us, items, rfl⟩
    exact .array rfl (derives_of_spellsAll each us items) rfl
  | group _ ih =>
    rintro ts ⟨us, inner, rfl⟩
    exact .group rfl (ih us inner) rfl

/-! ## §4 A derivation from words spells its tree -/

/-- The trees of a phrase are of their levels, and the tokens spell them. -/
def Spelled : Phrase → List Token → Prop
  | .expr level e, ts => Layered level e ∧ Spells e ts
  | .list es, ts => (∀ e ∈ es, Layered .disjunction e) ∧ SpellsAll es ts

theorem IsOperator.eq {operator : Operator} {t : Token} (h : IsOperator operator t) :
    t = ⟨.operator, operator.text⟩ := by
  obtain ⟨kind, text⟩ := t
  obtain ⟨rfl, rfl⟩ := h
  rfl

theorem Spells.binary {operator : Operator} {a b : Expr} {ts us : List Token} {t : Token}
    (isOperator : IsOperator operator t) (left : Spells a ts) (right : Spells b us) :
    Spells (.binary operator a b) (ts ++ t :: us) := by
  rw [isOperator.eq]
  exact ⟨ts, us, left, right, rfl⟩

theorem IsWord.isName {t : Token} (word : IsWord t) (kind : t.kind = .identifier) :
    IsName t.text := by
  rcases word with string | word
  · exact nomatch kind.symm.trans string
  · rw [kind] at word
    exact isName_iff.mpr word

theorem eq_of_identifier {t : Token} (kind : t.kind = .identifier) : t = ⟨.identifier, t.text⟩ := by
  rw [← kind]

/-- A phrase that is derived from words is spelled by them. -/
theorem Derives.spelled {phrase : Phrase} {ts : List Token} (h : Derives phrase ts)
    (words : ∀ t ∈ ts, IsWord t) : Spelled phrase ts := by
  induction h with
  | conjunction _ ih => exact (ih words).imp_left .conjunction
  | comparison _ ih => exact (ih words).imp_left .comparison
  | negation _ ih => exact (ih words).imp_left .negation
  | postfixed _ ih => exact (ih words).imp_left .postfixed
  | primary _ ih => exact (ih words).imp_left .primary
  -- The tokens of a phrase are those of its parts and the marks between them, and a mark is known
  -- from its kind.
  | or _ isOr _ left right =>
    rw [List.forall_mem_append, List.forall_mem_cons] at words
    obtain ⟨first, spelled⟩ := left words.1
    obtain ⟨second, spelled'⟩ := right words.2.2
    exact ⟨.or first second, .binary isOr spelled spelled'⟩
  | and _ isAnd _ left right =>
    rw [List.forall_mem_append, List.forall_mem_cons] at words
    obtain ⟨first, spelled⟩ := left words.1
    obtain ⟨second, spelled'⟩ := right words.2.2
    exact ⟨.and first second, .binary isAnd spelled spelled'⟩
  | compare known _ isOperator _ left right =>
    rw [List.forall_mem_append, List.forall_mem_cons] at words
    obtain ⟨first, spelled⟩ := left words.1
    obtain ⟨second, spelled'⟩ := right words.2.2
    exact ⟨.compare known first second, .binary isOperator spelled spelled'⟩
  | not isNot _ ih =>
    rw [List.forall_mem_cons] at words
    obtain ⟨operand, spelled⟩ := ih words.2
    rw [isNot.eq]
    exact ⟨.not operand, _, spelled, rfl⟩
  | member _ isDot named ih =>
    simp only [List.forall_mem_append, List.forall_mem_cons] at words
    obtain ⟨object, spelled⟩ := ih words.1
    refine ⟨.member object (words.2.2.1.isName named), _, spelled, ?_⟩
    rw [words.2.1.eq_of_kind isDot rfl, ← eq_of_identifier named]
  | call _ isDot named opens _ closes object arguments =>
    simp only [List.forall_mem_append, List.forall_mem_cons] at words
    obtain ⟨objectWords, dot, name, opening, argumentWords, closing, -⟩ := words
    obtain ⟨layered, spelled⟩ := object objectWords
    obtain ⟨each, items⟩ := arguments argumentWords
    refine ⟨.call layered (name.isName named) each, _, _, spelled, items, ?_⟩
    rw [dot.eq_of_kind isDot rfl, opening.eq_of_kind opens rfl, closing.eq_of_kind closes rfl,
      ← eq_of_identifier named]
  | literal value =>
    have written := (words _ List.mem_cons_self).writesLiteral value
    exact ⟨.literal written, _, written, rfl⟩
  | name named =>
    refine ⟨.name ((words _ List.mem_cons_self).isName named), ?_⟩
    exact congrArg (fun t => [t]) (eq_of_identifier named)
  | array opens _ closes ih =>
    simp only [List.forall_mem_append, List.forall_mem_cons] at words
    obtain ⟨opening, itemWords, closing, -⟩ := words
    obtain ⟨each, items⟩ := ih itemWords
    refine ⟨.array each, _, items, ?_⟩
    rw [opening.eq_of_kind opens rfl, closing.eq_of_kind closes rfl]
  | group opens _ closes ih =>
    simp only [List.forall_mem_append, List.forall_mem_cons] at words
    obtain ⟨opening, innerWords, closing, -⟩ := words
    obtain ⟨layered, spelled⟩ := ih innerWords
    refine ⟨.group layered, _, spelled, ?_⟩
    rw [opening.eq_of_kind opens rfl, closing.eq_of_kind closes rfl]
  | none => exact ⟨List.forall_mem_nil _, rfl⟩
  | last _ ih =>
    obtain ⟨layered, spelled⟩ := ih words
    exact ⟨List.forall_mem_singleton.mpr layered, spelled⟩
  | more _ isComma _ first others =>
    simp only [List.forall_mem_append, List.forall_mem_cons] at words
    obtain ⟨firstWords, comma, otherWords⟩ := words
    obtain ⟨layered, spelled⟩ := first firstWords
    obtain ⟨each, items⟩ := others otherWords
    refine ⟨List.forall_mem_cons.mpr ⟨layered, each⟩, _, _, spelled, items, ?_⟩
    rw [comma.eq_of_kind isComma rfl]

/-! ## §5 The spellings of a tree -/

/-- The tokens are the same, but a number may have another lexeme of its value. -/
def SameUpToNumeral (t u : Token) : Prop :=
  t = u ∨ t.kind = .number ∧ u.kind = .number ∧
    Numeral.lexemeValue t.text = Numeral.lexemeValue u.text

theorem SameUpToNumeral.refl (t : Token) : SameUpToNumeral t t := .inl rfl

theorem sameUpToNumerals_refl (ts : List Token) : List.Forall₂ SameUpToNumeral ts ts :=
  List.forall₂_same.mpr fun t _ => .refl t

theorem WritesLiteral.sameUpToNumeral {t u : Token} {v : Value} (first : WritesLiteral t v)
    (second : WritesLiteral u v) : SameUpToNumeral t u := by
  generalize same : v = v' at second
  cases first with
  | number _ =>
    cases second with
    | number _ => exact .inr ⟨rfl, rfl, Number.double.inj (Value.number.inj same)⟩
    | _ => cases same
  | _ =>
    cases second <;> cases same
    exact .refl _

theorem sameUpToNumerals_of_spellsAll {es : List Expr} (each : ∀ e ∈ es, ∀ ts us, Spells e ts →
    Spells e us → List.Forall₂ SameUpToNumeral ts us) : ∀ ts us, SpellsAll es ts →
    SpellsAll es us → List.Forall₂ SameUpToNumeral ts us := by
  induction es with
  | nil =>
    rintro ts us rfl rfl
    exact .nil
  | cons e es ih =>
    cases es with
    | nil => exact each e List.mem_cons_self
    | cons next es =>
      rintro _ _ ⟨us, vs, first, others, rfl⟩ ⟨us', vs', first', others', rfl⟩
      have same := each e List.mem_cons_self us us' first first'
      have same' := ih (fun e mem => each e (List.mem_cons_of_mem _ mem)) vs vs' others others'
      exact List.rel_append same (.cons (.refl _) same')

/-- Two spellings of a tree differ in the lexemes of numbers only. -/
theorem Layered.sameUpToNumerals {level : Level} {e : Expr} (layered : Layered level e) :
    ∀ ts us, Spells e ts → Spells e us → List.Forall₂ SameUpToNumeral ts us := by
  induction layered with
  | conjunction _ ih | comparison _ ih | negation _ ih | postfixed _ ih | primary _ ih => exact ih
  | or _ _ left right | and _ _ left right | compare _ _ _ left right =>
    rintro _ _ ⟨us, vs, first, second, rfl⟩ ⟨us', vs', first', second', rfl⟩
    exact List.rel_append (left us us' first first')
      (.cons (.refl _) (right vs vs' second second'))
  | not _ ih =>
    rintro _ _ ⟨us, operand, rfl⟩ ⟨us', operand', rfl⟩
    exact .cons (.refl _) (ih us us' operand operand')
  | member _ _ ih =>
    rintro _ _ ⟨us, object, rfl⟩ ⟨us', object', rfl⟩
    exact List.rel_append (ih us us' object object') (sameUpToNumerals_refl _)
  | call _ _ _ ih each =>
    rintro _ _ ⟨us, vs, object, arguments, rfl⟩ ⟨us', vs', object', arguments', rfl⟩
    have items := sameUpToNumerals_of_spellsAll each vs vs' arguments arguments'
    exact List.rel_append (ih us us' object object') (.cons (.refl _) (.cons (.refl _)
      (.cons (.refl _) (List.rel_append items (sameUpToNumerals_refl _)))))
  | literal _ =>
    rintro _ _ ⟨t, written, rfl⟩ ⟨u, written', rfl⟩
    exact .cons (written.sameUpToNumeral written') .nil
  | name _ =>
    rintro _ _ rfl rfl
    exact sameUpToNumerals_refl _
  | array _ each =>
    rintro _ _ ⟨us, items, rfl⟩ ⟨us', items', rfl⟩
    have same := sameUpToNumerals_of_spellsAll each us us' items items'
    exact .cons (.refl _) (List.rel_append same (sameUpToNumerals_refl _))
  | group _ ih =>
    rintro _ _ ⟨us, inner, rfl⟩ ⟨us', inner', rfl⟩
    exact .cons (.refl _) (List.rel_append (ih us us' inner inner') (sameUpToNumerals_refl _))

theorem isWord_operator {operator : Operator} (known : ∀ text, operator ≠ .other text) :
    IsWord ⟨.operator, operator.text⟩ :=
  .of_text (.operator operator known)

theorem isWord_comparison {operator : Operator} (known : operator ∈ comparisonOperators) :
    IsWord ⟨.operator, operator.text⟩ := by
  apply isWord_operator
  rintro text rfl
  simp [comparisonOperators] at known

theorem isWord_of_spellsAll {es : List Expr} (each : ∀ e ∈ es, ∀ ts, Spells e ts →
    ∀ t ∈ ts, IsWord t) : ∀ ts, SpellsAll es ts → ∀ t ∈ ts, IsWord t := by
  induction es with
  | nil =>
    rintro ts rfl
    exact List.forall_mem_nil _
  | cons e es ih =>
    cases es with
    | nil => exact each e List.mem_cons_self
    | cons next es =>
      rintro _ ⟨us, vs, first, others, rfl⟩
      rw [List.forall_mem_append, List.forall_mem_cons]
      exact ⟨each e List.mem_cons_self us first, .of_text .comma,
        ih (fun e mem => each e (List.mem_cons_of_mem _ mem)) vs others⟩

/-- The tokens that a tree of a level is spelled with are words. -/
theorem Layered.isWord {level : Level} {e : Expr} (layered : Layered level e) :
    ∀ ts, Spells e ts → ∀ t ∈ ts, IsWord t := by
  induction layered with
  | conjunction _ ih | comparison _ ih | negation _ ih | postfixed _ ih | primary _ ih => exact ih
  | or _ _ left right | and _ _ left right =>
    rintro _ ⟨us, vs, first, second, rfl⟩
    rw [List.forall_mem_append, List.forall_mem_cons]
    exact ⟨left us first, isWord_operator nofun, right vs second⟩
  | compare known _ _ left right =>
    rintro _ ⟨us, vs, first, second, rfl⟩
    rw [List.forall_mem_append, List.forall_mem_cons]
    exact ⟨left us first, isWord_comparison known, right vs second⟩
  | not _ ih =>
    rintro _ ⟨us, operand, rfl⟩
    rw [List.forall_mem_cons]
    exact ⟨isWord_operator nofun, ih us operand⟩
  | member _ named ih =>
    rintro _ ⟨us, object, rfl⟩
    simp only [List.forall_mem_append, List.forall_mem_cons]
    exact ⟨ih us object, .of_text .dot, .of_text (isName_iff.mp named), List.forall_mem_nil _⟩
  | call _ named _ ih each =>
    rintro _ ⟨us, vs, object, arguments, rfl⟩
    simp only [List.forall_mem_append, List.forall_mem_cons]
    exact ⟨ih us object, .of_text .dot, .of_text (isName_iff.mp named), .of_text .lparen,
      isWord_of_spellsAll each vs arguments, .of_text .rparen, List.forall_mem_nil _⟩
  | literal _ =>
    rintro _ ⟨t, written, rfl⟩
    exact List.forall_mem_singleton.mpr written.isWord
  | name named =>
    rintro _ rfl
    exact List.forall_mem_singleton.mpr (.of_text (isName_iff.mp named))
  | array _ each =>
    rintro _ ⟨us, items, rfl⟩
    simp only [List.forall_mem_append, List.forall_mem_cons]
    exact ⟨.of_text .lbracket, isWord_of_spellsAll each us items, .of_text .rbracket,
      List.forall_mem_nil _⟩
  | group _ ih =>
    rintro _ ⟨us, inner, rfl⟩
    simp only [List.forall_mem_append, List.forall_mem_cons]
    exact ⟨.of_text .lparen, ih us inner, .of_text .rparen, List.forall_mem_nil _⟩

theorem exists_spellsAll {es : List Expr} (each : ∀ e ∈ es, ∃ ts, Spells e ts) :
    ∃ ts, SpellsAll es ts := by
  induction es with
  | nil => exact ⟨[], rfl⟩
  | cons e es ih =>
    obtain ⟨us, first⟩ := each e List.mem_cons_self
    obtain ⟨vs, others⟩ := ih fun e mem => each e (List.mem_cons_of_mem _ mem)
    cases es with
    | nil => exact ⟨us, first⟩
    | cons next es => exact ⟨_, us, vs, first, others, rfl⟩

/-- Every tree of a level can be spelled. -/
theorem Layered.exists_spells {level : Level} {e : Expr} (layered : Layered level e) :
    ∃ ts, Spells e ts := by
  induction layered with
  | conjunction _ ih | comparison _ ih | negation _ ih | postfixed _ ih | primary _ ih => exact ih
  | or _ _ left right | and _ _ left right | compare _ _ _ left right =>
    obtain ⟨us, first⟩ := left
    obtain ⟨vs, second⟩ := right
    exact ⟨_, us, vs, first, second, rfl⟩
  | not _ ih | member _ _ ih | group _ ih =>
    obtain ⟨us, spelled⟩ := ih
    exact ⟨_, us, spelled, rfl⟩
  | call _ _ _ ih each =>
    obtain ⟨us, object⟩ := ih
    obtain ⟨vs, arguments⟩ := exists_spellsAll each
    exact ⟨_, us, vs, object, arguments, rfl⟩
  | literal written => exact ⟨_, _, written, rfl⟩
  | name _ => exact ⟨_, rfl⟩
  | array _ each =>
    obtain ⟨us, items⟩ := exists_spellsAll each
    exact ⟨_, us, items, rfl⟩

end Visibility.Grammar
