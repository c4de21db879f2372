import Visibility.Proofs.Grammar

/-!
# What is read is derived

Whatever the functions of a reader read from the front of a token list is a phrase of the grammar,
and what they leave is the rest of the list.

* `leftChain_sound`, `moreItems_sound`, `postfixChain_sound` — the repetitions keep what was read
  before them a phrase, whatever reads their operands
* `readersSound` — the levels, by induction on the number of calls within each other
* `Reads.length_le` — reading never leaves more tokens than it was given
-/

namespace Visibility.Grammar

open Visibility.Expr

/-! ## §1 Sound reading -/

/-- What was read from the front of the token list is a phrase, and the rest is left. -/
def Reads {α : Type} (phrase : α → Phrase) (p : Parsed α) (ts : List Token) : Prop :=
  ∀ a rest, p = .done a rest → ∃ used, ts = used ++ rest ∧ Derives (phrase a) used

/-- What was read up to a closing token of the given kind is a list, and the rest is left. -/
def ReadsUpTo (closing : TokenKind) (p : Parsed (List Expr)) (ts : List Token) : Prop :=
  ∀ es rest, p = .done es rest →
    ∃ used t, ts = used ++ t :: rest ∧ t.kind = closing ∧ Derives (.list es) used

theorem andThen_eq_done {α β : Type} {p : Parsed α} {next : α → List Token → Parsed β} {b : β}
    {rest : List Token} (h : p.andThen next = .done b rest) :
    ∃ a middle, p = .done a middle ∧ next a middle = .done b rest := by
  cases p with
  | done a middle => exact ⟨a, middle, rfl, h⟩
  | stopped cause stop => cases h

/-- What stands next is of some kind other than the end only if there is a token. -/
theorem eq_cons_of_current {ts : List Token} {kind : TokenKind} (h : (current ts).kind = kind)
    (ne : kind ≠ .eof) : ∃ t rest, ts = t :: rest ∧ t.kind = kind := by
  cases ts with
  | nil => exact absurd h.symm ne
  | cons t rest => exact ⟨t, rest, rfl, h⟩

theorem expect_eq_done {kind : TokenKind} {ts rest : List Token} {t : Token} (ne : kind ≠ .eof)
    (h : expect kind ts = .done t rest) : ts = t :: rest ∧ t.kind = kind := by
  unfold expect at h
  split at h
  · rename_i same
    obtain ⟨u, us, rfl, _⟩ := eq_cons_of_current same ne
    cases h
    exact ⟨rfl, same⟩
  · cases h

/-! ## §2 Repetitions -/

section Repetitions

variable {accepts : Operator → Bool} {operand : List Token → Parsed Expr}
variable {arguments : List Token → Parsed (List Expr)}

/-- If operands are read as a level and joining them stays within another, so does the chain. -/
theorem leftChain_sound {level tighter : Level}
    (sound : ∀ ts, Reads (.expr tighter) (operand ts) ts)
    (join : ∀ {a b : Expr} {ts us : List Token} {t : Token}, Derives (.expr level a) ts →
      t.kind = .operator → accepts (.ofText t.text) → Derives (.expr tighter b) us →
      Derives (.expr level (.binary (.ofText t.text) a b)) (ts ++ t :: us))
    {left e : Expr} {before ts rest : List Token} (first : Derives (.expr level left) before)
    (h : leftChain accepts operand left ts = .done e rest) :
    ∃ used, ts = used ++ rest ∧ Derives (.expr level e) (before ++ used) := by
  -- The tokens before the chain grow with every operand.
  fun_induction leftChain accepts operand left ts generalizing before with
  | case1 left =>
    cases h
    exact ⟨[], rfl, by simpa using first⟩
  | case2 left t ts _ cause stop read => cases h
  | case3 left t ts accepted right more read joined shorter =>
    rename_i ih
    obtain ⟨us, rfl, second⟩ := sound ts _ _ read
    obtain ⟨used, rfl, whole⟩ := ih (join first accepted.1 accepted.2 second) h
    exact ⟨t :: (us ++ used), by simp, by simpa using whole⟩
  | case4 left t ts accepted right more read joined =>
    obtain ⟨rfl, rfl⟩ := Parsed.done.inj h
    obtain ⟨us, rfl, second⟩ := sound ts _ _ read
    exact ⟨t :: us, rfl, join first accepted.1 accepted.2 second⟩
  | case5 left t ts _ =>
    cases h
    exact ⟨[], rfl, by simpa using first⟩

/-- If items are read as expressions, the items after the first one make up a list with it. -/
theorem moreItems_sound (sound : ∀ ts, Reads (.expr .disjunction) (operand ts) ts) {e : Expr}
    {es : List Expr} {before ts rest : List Token} (first : Derives (.expr .disjunction e) before)
    (h : moreItems operand ts = .done es rest) :
    ∃ used, ts = used ++ rest ∧ Derives (.list (e :: es)) (before ++ used) := by
  fun_induction moreItems operand ts generalizing e es before with
  | case1 =>
    cases h
    exact ⟨[], rfl, by simpa using Derives.last first⟩
  | case2 t ts _ cause stop read => cases h
  | case3 t ts comma item more read shorter ih =>
    obtain ⟨us, rfl, second⟩ := sound ts _ _ read
    obtain ⟨others, middle, readMore, same⟩ := andThen_eq_done h
    cases same
    obtain ⟨used, rfl, list⟩ := ih second readMore
    exact ⟨t :: (us ++ used), by simp, .more first comma list⟩
  | case4 t ts comma item more read longer =>
    cases h
    obtain ⟨us, rfl, second⟩ := sound ts _ _ read
    exact ⟨t :: us, rfl, .more first comma (.last second)⟩
  | case5 t ts _ =>
    cases h
    exact ⟨[], rfl, by simpa using Derives.last first⟩

/-- If arguments are read up to a closing parenthesis, what follows dots makes up a postfixed
expression with what stands before them. -/
theorem postfixChain_sound (sound : ∀ ts, ReadsUpTo .rparen (arguments ts) ts) {object e : Expr}
    {before ts rest : List Token} (first : Derives (.expr .postfixed object) before)
    (h : postfixChain arguments object ts = .done e rest) :
    ∃ used, ts = used ++ rest ∧ Derives (.expr .postfixed e) (before ++ used) := by
  -- The tokens before the chain grow with every property and call.
  fun_induction postfixChain arguments object ts generalizing before with
  | case1 object =>
    cases h
    exact ⟨[], rfl, by simpa using first⟩
  | case2 object dot _ => cases h
  | case3 object dot isDot name ts named opens cause stop read => cases h
  | case4 object dot isDot name ts named opens es more read call shorter =>
    rename_i ih
    obtain ⟨opening, ts, rfl, isOpening⟩ := eq_cons_of_current opens (by decide)
    obtain ⟨us, closing, rfl, closed, list⟩ := sound ts _ _ read
    obtain ⟨used, rfl, whole⟩ := ih (first.call isDot named isOpening list closed) h
    exact ⟨dot :: name :: opening :: (us ++ closing :: used), by simp, by simpa using whole⟩
  | case5 object dot isDot name ts named opens es more read call =>
    obtain ⟨opening, ts, rfl, isOpening⟩ := eq_cons_of_current opens (by decide)
    obtain ⟨us, closing, rfl, closed, list⟩ := sound ts _ _ read
    obtain ⟨rfl, rfl⟩ := Parsed.done.inj h
    exact ⟨dot :: name :: opening :: (us ++ [closing]), by simp,
      first.call isDot named isOpening list closed⟩
  | case6 object dot isDot name ts named _ ih =>
    obtain ⟨used, rfl, whole⟩ := ih (first.member isDot named) h
    exact ⟨dot :: name :: used, rfl, by simpa using whole⟩
  | case7 object dot isDot name ts _ => cases h
  | case8 object dot ts _ =>
    cases h
    exact ⟨[], rfl, by simpa using first⟩

end Repetitions

/-! ## §3 Words of the reader -/

theorem isOperator_of_ofText {t : Token} {operator : Operator} (kind : t.kind = .operator)
    (h : Operator.ofText t.text = operator) : IsOperator operator t :=
  ⟨kind, by rw [← h, Operator.text_ofText]⟩

theorem mem_comparisonOperators {operator : Operator} :
    operator ∈ comparisonOperators ↔ operator.isComparison = true := by
  cases operator <;> simp [comparisonOperators, Operator.isComparison]

/-- A literal value is read from the literal tokens and no others. -/
theorem literalValue?_eq_some {t : Token} {v : Value} :
    literalValue? t = some v ↔ Literal t v := by
  constructor
  · intro h
    unfold literalValue? at h
    split at h
    · cases h; exact .string ‹_›
    · cases h; exact .number ‹_›
    · cases h
      by_cases same : t.text = "true"
      · rw [same]
        exact .true ‹_› same
      · rw [beq_eq_false_iff_ne.mpr same]
        exact .false ‹_› same
    · cases h; exact .null ‹_›
    · cases h
  · rintro (kind | kind | ⟨kind, text⟩ | ⟨kind, text⟩ | kind) <;>
      simp_all [literalValue?, Numeral.lexemeValue]

/-- No literal value is read where there is no token. -/
theorem eq_cons_of_literalValue? {ts : List Token} {v : Value}
    (h : literalValue? (current ts) = some v) : ∃ t rest, ts = t :: rest ∧ Literal t v := by
  cases ts with
  | nil => cases h
  | cons t rest => exact ⟨t, rest, rfl, literalValue?_eq_some.mp h⟩

/-! ## §4 The levels -/

/-- The functions of the reader are sound if `depth` calls may be within each other. -/
structure ReadersSound (depth : Nat) : Prop where
  disjunction : ∀ ts, Reads (.expr .disjunction) (disjunction depth ts) ts
  conjunction : ∀ ts, Reads (.expr .conjunction) (conjunction depth ts) ts
  comparison : ∀ ts, Reads (.expr .comparison) (comparison depth ts) ts
  negation : ∀ ts, Reads (.expr .negation) (negation depth ts) ts
  postfixed : ∀ ts, Reads (.expr .postfixed) (postfixExpr depth ts) ts
  primary : ∀ ts, Reads (.expr .primary) (primary depth ts) ts
  items : ∀ closing ts, closing ≠ .eof → ReadsUpTo closing (items depth closing ts) ts

theorem primary_sound {depth : Nat} (sound : ReadersSound depth) (ts : List Token) :
    Reads (.expr .primary) (primary (depth + 1) ts) ts := by
  intro e rest h
  unfold primary at h
  -- a literal, a name, an array, a group, or nothing that can be read
  split at h
  · rename_i v value
    obtain ⟨t, us, rfl, literal⟩ := eq_cons_of_literalValue? value
    cases h
    exact ⟨[t], rfl, .literal literal⟩
  · split at h
    · rename_i kind
      obtain ⟨t, us, rfl, named⟩ := eq_cons_of_current kind (by decide)
      cases h
      exact ⟨[t], rfl, .name named⟩
    · rename_i kind
      obtain ⟨opening, us, rfl, opens⟩ := eq_cons_of_current kind (by decide)
      obtain ⟨es, middle, read, same⟩ := andThen_eq_done h
      cases same
      obtain ⟨used, closing, split, closed, list⟩ := sound.items _ _ (by decide) _ _ read
      exact ⟨opening :: (used ++ [closing]), by simpa using split, .array opens list closed⟩
    · rename_i kind
      obtain ⟨opening, us, rfl, opens⟩ := eq_cons_of_current kind (by decide)
      obtain ⟨inner, middle, read, close⟩ := andThen_eq_done h
      obtain ⟨closing, last, expected, same⟩ := andThen_eq_done close
      cases same
      obtain ⟨rfl, closed⟩ := expect_eq_done (by decide) expected
      obtain ⟨used, split, derived⟩ := sound.disjunction _ _ _ read
      exact ⟨opening :: (used ++ [closing]), by simpa using split, .group opens derived closed⟩
    · cases h

theorem items_sound {depth : Nat} (sound : ReadersSound depth) {closing : TokenKind}
    (ne : closing ≠ .eof) (ts : List Token) :
    ReadsUpTo closing (items (depth + 1) closing ts) ts := by
  intro es rest h
  unfold items at h
  obtain ⟨listed, middle, read, close⟩ := andThen_eq_done h
  obtain ⟨t, last, expected, same⟩ := andThen_eq_done close
  cases same
  obtain ⟨rfl, closed⟩ := expect_eq_done ne expected
  split at read
  · cases read
    exact ⟨[], t, rfl, closed, .none⟩
  · obtain ⟨e, after, readFirst, readMore⟩ := andThen_eq_done read
    obtain ⟨others, _, readOthers, same⟩ := andThen_eq_done readMore
    cases same
    obtain ⟨first, rfl, derived⟩ := sound.disjunction _ _ _ readFirst
    obtain ⟨used, rfl, list⟩ := moreItems_sound sound.disjunction derived readOthers
    exact ⟨first ++ used, t, by simp, closed, list⟩

theorem negation_sound {depth : Nat} (sound : ReadersSound depth) (ts : List Token) :
    Reads (.expr .negation) (negation (depth + 1) ts) ts := by
  intro e rest h
  unfold negation at h
  split at h
  · rename_i isNot
    obtain ⟨operand, middle, read, same⟩ := andThen_eq_done h
    cases same
    simp only [currentOperator?, Option.ite_none_right_eq_some, Option.some.injEq] at isNot
    obtain ⟨t, us, rfl, kind⟩ := eq_cons_of_current isNot.1 (by decide)
    obtain ⟨used, split, derived⟩ := sound.negation _ _ _ read
    exact ⟨t :: used, by simpa using split, .not (isOperator_of_ofText kind isNot.2) derived⟩
  · obtain ⟨used, split, derived⟩ := sound.postfixed _ _ _ h
    exact ⟨used, split, .postfixed derived⟩

/-- An expression of a tighter level, with operators after it, is one of the next looser level. -/
theorem level_sound {level tighter : Level} {operand : List Token → Parsed Expr}
    {accepts : Operator → Bool} (sound : ∀ ts, Reads (.expr tighter) (operand ts) ts)
    (lift : ∀ {e : Expr} {ts : List Token}, Derives (.expr tighter e) ts →
      Derives (.expr level e) ts)
    (join : ∀ {a b : Expr} {ts us : List Token} {t : Token}, Derives (.expr level a) ts →
      t.kind = .operator → accepts (.ofText t.text) → Derives (.expr tighter b) us →
      Derives (.expr level (.binary (.ofText t.text) a b)) (ts ++ t :: us)) (ts : List Token) :
    Reads (.expr level) ((operand ts).andThen (leftChain accepts operand)) ts := by
  intro e rest h
  obtain ⟨left, middle, read, chain⟩ := andThen_eq_done h
  obtain ⟨first, rfl, derived⟩ := sound ts _ _ read
  obtain ⟨used, rfl, whole⟩ := leftChain_sound sound join (lift derived) chain
  exact ⟨first ++ used, by simp, whole⟩

theorem postfixed_sound {depth : Nat} (sound : ReadersSound depth) (ts : List Token) :
    Reads (.expr .postfixed) (postfixExpr (depth + 1) ts) ts := by
  intro e rest h
  unfold postfixExpr at h
  obtain ⟨object, middle, read, chain⟩ := andThen_eq_done h
  obtain ⟨first, rfl, derived⟩ := sound.primary _ _ _ read
  obtain ⟨used, rfl, whole⟩ := postfixChain_sound
    (fun ts => sound.items .rparen ts (by decide)) (.primary derived) chain
  exact ⟨first ++ used, by simp, whole⟩

/-- However many calls may be within each other, everything that is read is derived. -/
theorem readersSound : ∀ depth, ReadersSound depth
  | 0 => by constructor <;> (intros; intro _ _ h; cases h)
  | depth + 1 => by
    have sound := readersSound depth
    refine ⟨fun ts => ?_, fun ts => ?_, fun ts => ?_, negation_sound sound, postfixed_sound sound,
      primary_sound sound, fun closing ts ne => items_sound sound ne ts⟩
    · rw [disjunction]
      refine level_sound sound.conjunction .conjunction (fun a kind accepted b => ?_) ts
      have same := eq_of_beq accepted
      rw [same]
      exact .or a (isOperator_of_ofText kind same) b
    · rw [conjunction]
      refine level_sound sound.comparison .comparison (fun a kind accepted b => ?_) ts
      have same := eq_of_beq accepted
      rw [same]
      exact .and a (isOperator_of_ofText kind same) b
    · rw [comparison]
      refine level_sound sound.negation .negation (fun a kind accepted b => ?_) ts
      exact .compare (mem_comparisonOperators.mpr accepted) a (isOperator_of_ofText kind rfl) b

/-! ## §5 Nothing is added -/

/-- Reading leaves no more tokens than it was given. -/
theorem Reads.length_le {α : Type} {phrase : α → Phrase} {p : Parsed α} {ts rest : List Token}
    {a : α} (sound : Reads phrase p ts) (h : p = .done a rest) : rest.length ≤ ts.length := by
  obtain ⟨used, rfl, _⟩ := sound a rest h
  simp

theorem ReadsUpTo.length_le {closing : TokenKind} {p : Parsed (List Expr)} {ts rest : List Token}
    {es : List Expr} (sound : ReadsUpTo closing p ts) (h : p = .done es rest) :
    rest.length ≤ ts.length := by
  obtain ⟨used, t, rfl, _, _⟩ := sound es rest h
  simp only [List.length_append, List.length_cons]
  omega

end Visibility.Grammar
