import Visibility.Expr.Parser

/-!
# The grammar of expressions

Which token lists are expressions, and which tree each of them has.  The grammar is stated as rules
over token lists, without any reader:

* disjunction := conjunction | disjunction `||` conjunction
* conjunction := comparison | conjunction `&&` comparison
* comparison := negation | comparison *operator* negation
* negation := `!` negation | postfixed
* postfixed := primary | postfixed `.` name | postfixed `.` name `(` list `)`
* primary := literal | name | `[` list `]` | `(` disjunction `)`
* list := nothing | disjunction | disjunction `,` list of at least one

The rules of the three levels with two operands, and those of the postfixed level, have the level
itself on the left, so the trees of these levels grow to the left.

Main statements: `Derives.no_end` (no expression holds an end token) and `Derives.inLanguage` (the
tree of an expression uses the operators and the kinds of nodes of the language only).
-/

namespace Visibility.Grammar

/-! ## §1 Words -/

/-- The token is written as this operator. -/
def IsOperator (operator : Operator) (t : Token) : Prop :=
  t.kind = .operator ∧ t.text = operator.text

/-- The operators between two operands of a comparison. -/
def comparisonOperators : List Operator :=
  [.strictEqual, .strictUnequal, .looseEqual, .looseUnequal, .greater, .less, .greaterEqual,
    .lessEqual]

/-- The value that a literal token stands for. -/
inductive Literal : Token → Value → Prop where
  | string {t : Token} : t.kind = .string → Literal t (.string t.text)
  /-- A numeral that no number can be read from stands for NaN. -/
  | number {t : Token} : t.kind = .number →
      Literal t (.double ((Numeral.lexeme? t.text.toList).getD .nan))
  | true {t : Token} : t.kind = .boolean → t.text = "true" → Literal t (.bool Bool.true)
  /-- Every other text of a boolean token is false. -/
  | false {t : Token} : t.kind = .boolean → t.text ≠ "true" → Literal t (.bool Bool.false)
  | null {t : Token} : t.kind = .null → Literal t .null

/-! ## §2 Rules -/

/-- The levels of the grammar, from the loosest to the tightest. -/
inductive Level where
  | disjunction
  | conjunction
  | comparison
  | negation
  | postfixed
  | primary
  deriving DecidableEq, Repr

/-- What a token list is read as: the tree of a level, or the trees between commas. -/
inductive Phrase where
  | expr (level : Level) (e : Expr)
  | list (es : List Expr)

/-- A token list is a phrase. -/
inductive Derives : Phrase → List Token → Prop where
  -- disjunctions
  | conjunction {e : Expr} {ts : List Token} :
      Derives (.expr .conjunction e) ts → Derives (.expr .disjunction e) ts
  | or {a b : Expr} {ts us : List Token} {t : Token} :
      Derives (.expr .disjunction a) ts → IsOperator .or t → Derives (.expr .conjunction b) us →
      Derives (.expr .disjunction (.binary .or a b)) (ts ++ t :: us)
  -- conjunctions
  | comparison {e : Expr} {ts : List Token} :
      Derives (.expr .comparison e) ts → Derives (.expr .conjunction e) ts
  | and {a b : Expr} {ts us : List Token} {t : Token} :
      Derives (.expr .conjunction a) ts → IsOperator .and t → Derives (.expr .comparison b) us →
      Derives (.expr .conjunction (.binary .and a b)) (ts ++ t :: us)
  -- comparisons
  | negation {e : Expr} {ts : List Token} :
      Derives (.expr .negation e) ts → Derives (.expr .comparison e) ts
  | compare {operator : Operator} {a b : Expr} {ts us : List Token} {t : Token} :
      operator ∈ comparisonOperators → Derives (.expr .comparison a) ts → IsOperator operator t →
      Derives (.expr .negation b) us →
      Derives (.expr .comparison (.binary operator a b)) (ts ++ t :: us)
  -- negations
  | not {e : Expr} {ts : List Token} {t : Token} :
      IsOperator .not t → Derives (.expr .negation e) ts →
      Derives (.expr .negation (.unary .not e)) (t :: ts)
  | postfixed {e : Expr} {ts : List Token} :
      Derives (.expr .postfixed e) ts → Derives (.expr .negation e) ts
  -- postfixed expressions
  | primary {e : Expr} {ts : List Token} :
      Derives (.expr .primary e) ts → Derives (.expr .postfixed e) ts
  | member {e : Expr} {ts : List Token} {dot name : Token} :
      Derives (.expr .postfixed e) ts → dot.kind = .dot → name.kind = .identifier →
      Derives (.expr .postfixed (.member e name.text)) (ts ++ [dot, name])
  | call {e : Expr} {es : List Expr} {ts us : List Token} {dot name opening closing : Token} :
      Derives (.expr .postfixed e) ts → dot.kind = .dot → name.kind = .identifier →
      opening.kind = .lparen → Derives (.list es) us → closing.kind = .rparen →
      Derives (.expr .postfixed (.call e name.text es))
        (ts ++ dot :: name :: opening :: (us ++ [closing]))
  -- primary expressions
  | literal {t : Token} {v : Value} :
      Literal t v → Derives (.expr .primary (.literal v)) [t]
  | name {t : Token} :
      t.kind = .identifier → Derives (.expr .primary (.name t.text)) [t]
  | array {es : List Expr} {ts : List Token} {opening closing : Token} :
      opening.kind = .lbracket → Derives (.list es) ts → closing.kind = .rbracket →
      Derives (.expr .primary (.array es)) (opening :: (ts ++ [closing]))
  | group {e : Expr} {ts : List Token} {opening closing : Token} :
      opening.kind = .lparen → Derives (.expr .disjunction e) ts → closing.kind = .rparen →
      Derives (.expr .primary (.group e)) (opening :: (ts ++ [closing]))
  -- lists
  | none : Derives (.list []) []
  | last {e : Expr} {ts : List Token} :
      Derives (.expr .disjunction e) ts → Derives (.list [e]) ts
  | more {e next : Expr} {es : List Expr} {ts us : List Token} {comma : Token} :
      Derives (.expr .disjunction e) ts → comma.kind = .comma → Derives (.list (next :: es)) us →
      Derives (.list (e :: next :: es)) (ts ++ comma :: us)

/-- The token list is an expression with this tree. -/
def IsExpression (ts : List Token) (e : Expr) : Prop :=
  Derives (.expr .disjunction e) ts

/-- The tokens before the first end token. -/
def beforeEnd (ts : List Token) : List Token :=
  ts.takeWhile fun t => t.kind ≠ .eof

/-- The tokens from the first end token on. -/
def fromEnd (ts : List Token) : List Token :=
  ts.dropWhile fun t => t.kind ≠ .eof

theorem beforeEnd_append_fromEnd (ts : List Token) : beforeEnd ts ++ fromEnd ts = ts :=
  List.takeWhile_append_dropWhile

/-! ## §3 The language of the trees -/

/-- A tree of the language: its operators are those of the grammar, in their places, and its
literals are those that tokens stand for. -/
inductive InLanguage : Expr → Prop where
  | literal {t : Token} {v : Value} : Literal t v → InLanguage (.literal v)
  | name (name : String) : InLanguage (.name name)
  | member {object : Expr} (property : String) :
      InLanguage object → InLanguage (.member object property)
  | array {es : List Expr} : (∀ e ∈ es, InLanguage e) → InLanguage (.array es)
  | call {object : Expr} {es : List Expr} (method : String) :
      InLanguage object → (∀ e ∈ es, InLanguage e) → InLanguage (.call object method es)
  | binary {operator : Operator} {a b : Expr} :
      operator = .or ∨ operator = .and ∨ operator ∈ comparisonOperators →
      InLanguage a → InLanguage b → InLanguage (.binary operator a b)
  | unary {e : Expr} : InLanguage e → InLanguage (.unary .not e)
  | group {e : Expr} : InLanguage e → InLanguage (.group e)

/-- The trees of a phrase. -/
def Phrase.trees : Phrase → List Expr
  | .expr _ e => [e]
  | .list es => es

/-- The trees that the grammar gives are trees of the language. -/
theorem Derives.inLanguage {phrase : Phrase} {ts : List Token} (h : Derives phrase ts) :
    ∀ e ∈ phrase.trees, InLanguage e := by
  induction h with
  -- The rules that lead to the next level keep the tree.
  | conjunction _ ih | comparison _ ih | negation _ ih | postfixed _ ih | primary _ ih | last _ ih =>
    exact ih
  | none => exact fun _ mem => nomatch mem
  | more _ _ _ first others =>
    intro x mem
    rcases List.mem_cons.mp mem with rfl | mem
    · exact first x (List.mem_singleton_self _)
    · exact others x mem
  | or _ _ _ left right =>
    simp only [Phrase.trees, List.mem_singleton, forall_eq] at left right ⊢
    exact .binary (.inl rfl) left right
  | and _ _ _ left right =>
    simp only [Phrase.trees, List.mem_singleton, forall_eq] at left right ⊢
    exact .binary (.inr (.inl rfl)) left right
  | compare known _ _ _ left right =>
    simp only [Phrase.trees, List.mem_singleton, forall_eq] at left right ⊢
    exact .binary (.inr (.inr known)) left right
  | not _ _ ih =>
    simp only [Phrase.trees, List.mem_singleton, forall_eq] at ih ⊢
    exact .unary ih
  | member _ _ _ ih =>
    simp only [Phrase.trees, List.mem_singleton, forall_eq] at ih ⊢
    exact .member _ ih
  | call _ _ _ _ _ _ object arguments =>
    simp only [Phrase.trees, List.mem_singleton, forall_eq] at object ⊢
    exact .call _ object arguments
  | literal value =>
    simp only [Phrase.trees, List.mem_singleton, forall_eq]
    exact .literal value
  | name _ =>
    simp only [Phrase.trees, List.mem_singleton, forall_eq]
    exact .name _
  | array _ _ _ ih =>
    simp only [Phrase.trees, List.mem_singleton, forall_eq]
    exact .array ih
  | group _ _ _ ih =>
    simp only [Phrase.trees, List.mem_singleton, forall_eq] at ih ⊢
    exact .group ih

/-! ## §4 The tokens of phrases -/

/-- A token that an expression can start with. -/
def OpensExpression (t : Token) : Prop :=
  t.kind ∈ [.string, .number, .boolean, .null, .identifier, .operator, .lbracket, .lparen]

/-- An expression has a first token. -/
theorem Derives.head {level : Level} {e : Expr} {ts : List Token}
    (h : Derives (.expr level e) ts) : ∃ t us, ts = t :: us ∧ OpensExpression t := by
  -- The left end of every rule for a level is a phrase of a level or one of the tokens listed.
  generalize hp : Phrase.expr level e = phrase at h
  induction h generalizing level e with
  | conjunction _ ih | comparison _ ih | negation _ ih | postfixed _ ih | primary _ ih =>
    exact ih rfl
  | or _ _ _ ih _ | and _ _ _ ih _ | compare _ _ _ _ ih _ =>
    obtain ⟨t, us, rfl, opens⟩ := ih rfl
    exact ⟨t, _, rfl, opens⟩
  | member _ _ _ ih | call _ _ _ _ _ _ ih _ =>
    obtain ⟨t, us, rfl, opens⟩ := ih rfl
    exact ⟨t, _, rfl, opens⟩
  | not operator _ _ => exact ⟨_, _, rfl, by simp [OpensExpression, operator.1]⟩
  | literal value => exact ⟨_, _, rfl, by cases value <;> simp_all [OpensExpression]⟩
  | name kind => exact ⟨_, _, rfl, by simp [OpensExpression, kind]⟩
  | array kind _ _ _ => exact ⟨_, _, rfl, by simp [OpensExpression, kind]⟩
  | group kind _ _ _ => exact ⟨_, _, rfl, by simp [OpensExpression, kind]⟩
  | none | last _ _ | more _ _ _ _ _ => cases hp

/-- A postfixed expression starts with no operator. -/
theorem Derives.head_of_postfixed {e : Expr} {ts : List Token}
    (h : Derives (.expr .postfixed e) ts) : ∃ t us, ts = t :: us ∧ t.kind ≠ .operator := by
  generalize hp : Phrase.expr .postfixed e = phrase at h
  induction h generalizing e with
  | primary h _ =>
    cases h with
    | literal value => exact ⟨_, _, rfl, by cases value <;> simp_all⟩
    | name kind | array kind _ _ | group kind _ _ => exact ⟨_, _, rfl, by simp [kind]⟩
  | member _ _ _ ih | call _ _ _ _ _ _ ih _ =>
    obtain ⟨t, us, rfl, noOperator⟩ := ih rfl
    exact ⟨t, _, rfl, noOperator⟩
  | _ => cases hp

/-- A list of at least one expression has a first token, too. -/
theorem Derives.head_of_list {e : Expr} {es : List Expr} {ts : List Token}
    (h : Derives (.list (e :: es)) ts) : ∃ t us, ts = t :: us ∧ OpensExpression t := by
  cases h with
  | last first => exact first.head
  | more first _ _ =>
    obtain ⟨t, us, rfl, opens⟩ := first.head
    exact ⟨t, _, rfl, opens⟩

/-- No token of a phrase is an end token. -/
theorem Derives.no_end {phrase : Phrase} {ts : List Token} (h : Derives phrase ts) :
    ∀ t ∈ ts, t.kind ≠ .eof := by
  induction h with
  | conjunction _ ih | comparison _ ih | negation _ ih | postfixed _ ih | primary _ ih | last _ ih =>
    exact ih
  | none => exact fun _ mem => nomatch mem
  | literal value =>
    simp only [List.mem_singleton, forall_eq]
    cases value <;> simp_all
  | name kind => simp [kind]
  -- Each rule says of which kind the tokens are that it adds.
  | or _ operator _ left right | and _ operator _ left right | compare _ _ operator _ left right =>
    simp only [List.forall_mem_append, List.forall_mem_cons]
    exact ⟨left, by simp [operator.1], right⟩
  | more _ comma _ left right =>
    simp only [List.forall_mem_append, List.forall_mem_cons]
    exact ⟨left, by simp [comma], right⟩
  | not operator _ ih =>
    simp only [List.forall_mem_cons]
    exact ⟨by simp [operator.1], ih⟩
  | member _ dot name ih =>
    simp only [List.forall_mem_append, List.forall_mem_cons]
    exact ⟨ih, by simp [dot], by simp [name], by simp⟩
  | call _ dot name opening _ closing object arguments =>
    simp only [List.forall_mem_append, List.forall_mem_cons]
    exact ⟨object, by simp [dot], by simp [name], by simp [opening], arguments, by simp [closing],
      by simp⟩
  | array opening _ closing ih | group opening _ closing ih =>
    simp only [List.forall_mem_append, List.forall_mem_cons]
    exact ⟨by simp [opening], ih, by simp [closing], by simp⟩

end Visibility.Grammar
