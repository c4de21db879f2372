import Mathlib.Data.List.Basic
import Visibility.Proofs.Grammar.Soundness

/-!
# What is derived is read

A phrase at the front of a token list is read as its tree, provided that the token after it does not
belong to the phrase, too.  The only other way that reading it may end is that too many calls are
within each other.  How many a tree takes can be read off the tree, and a token list has to open
many brackets for them.

* `TakesCalls` — with the needed calls two readings are the same, with fewer the first one runs out
* `Ends` — the next token does not continue a phrase of a level
* `Derives.completes` — phrases are read with the calls their trees take, by induction on the
  derivation
* `ofTokens_reads_grammar` — the whole reader accepts exactly the grammar
-/

namespace Visibility.Grammar

open Visibility.Expr

/-! ## §1 Running out of calls -/

/-- With the needed calls within each other the readings are the same, and with fewer the first is
stopped because of that. -/
def TakesCalls {α : Type} (need depth : Nat) (p q : Parsed α) : Prop :=
  (need ≤ depth → p = q) ∧ (depth < need → ∃ stop, p = .stopped .nestedTooDeeply stop)

namespace TakesCalls

variable {α β : Type} {need need' depth depth' : Nat}

theorem refl (p : Parsed α) : TakesCalls 0 depth p p :=
  ⟨fun _ => rfl, fun lt => absurd lt (Nat.not_lt_zero _)⟩

/-- One call is enough for what calls nothing. -/
theorem refl_succ (p : Parsed α) : TakesCalls 1 (depth + 1) p p :=
  ⟨fun _ => rfl, fun lt => absurd lt (by omega)⟩

theorem mono {p q : Parsed α} (h : TakesCalls need depth p q)
    (same : depth < need ↔ depth' < need') : TakesCalls need' depth' p q :=
  ⟨fun enough => h.1 (Nat.not_lt.mp fun lt => Nat.not_lt.mpr enough (same.mp lt)),
    fun lt => h.2 (same.mpr lt)⟩

theorem trans {p q r : Parsed α} (first : TakesCalls need depth p q)
    (second : TakesCalls need' depth q r) : TakesCalls (max need need') depth p r := by
  constructor
  · intro enough
    rw [first.1 (by omega), second.1 (by omega)]
  · intro lt
    rcases Nat.lt_or_ge depth need with short | enough
    · exact first.2 short
    · rw [first.1 enough]
      exact second.2 (by omega)

theorem andThen {p : Parsed α} {a : α} {rest : List Token} {next : α → List Token → Parsed β}
    {q : Parsed β} (first : TakesCalls need depth p (.done a rest))
    (second : TakesCalls need' depth (next a rest) q) :
    TakesCalls (max need need') depth (p.andThen next) q := by
  constructor
  · intro enough
    rw [first.1 (by omega)]
    exact second.1 (by omega)
  · intro lt
    rcases Nat.lt_or_ge depth need with short | enough
    · obtain ⟨stop, stopped⟩ := first.2 short
      exact ⟨stop, by rw [stopped]; rfl⟩
    · rw [first.1 enough]
      exact second.2 (by omega)

/-- No call is enough for nothing. -/
theorem of_zero {stop : List Token} {q : Parsed α} (pos : 0 < need) :
    TakesCalls need 0 (.stopped .nestedTooDeeply stop) q :=
  ⟨fun enough => absurd enough (Nat.not_le.mpr pos), fun _ => ⟨stop, rfl⟩⟩

end TakesCalls

mutual

/-- The calls within each other that reading a tree takes besides those of the levels it is on. -/
def openedCalls : Expr → Nat
  | .literal _ | .name _ | .unknown _ => 0
  | .member object _ => openedCalls object
  -- The items of an array or of arguments start over at the loosest level, and so does a group.
  | .array es => 1 + openedCallsOfAll es
  | .call object _ es => max (openedCalls object) (openedCallsOfAll es)
  | .binary _ a b => max (openedCalls a) (openedCalls b)
  | .unary _ e => 1 + openedCalls e
  | .group e => 6 + openedCalls e

/-- The same for the items of a list. -/
def openedCallsOfAll : List Expr → Nat
  | [] => 0
  | e :: es => max (6 + openedCalls e) (openedCallsOfAll es)

end

/-- The readings are the same, unless the first is stopped because its `depth` calls within each
other are fewer than the needed ones. -/
def AgreesWithin {α : Type} (need depth : Nat) (p q : Parsed α) : Prop :=
  p = q ∨ depth < need ∧ ∃ stop, p = .stopped .nestedTooDeeply stop

/-- With enough calls the readings are the same. -/
theorem AgreesWithin.eq_of_le {α : Type} {need depth : Nat} {p q : Parsed α}
    (h : AgreesWithin need depth p q) (enough : need ≤ depth) : p = q :=
  h.resolve_right fun ⟨lt, _⟩ => absurd lt (Nat.not_lt.mpr enough)

/-- The calls within each other that a token may open. -/
def callsOf (t : Token) : Nat :=
  match t.kind with
  -- A group starts over at the loosest level, and so do the items of an array or of arguments.
  | .lparen => 6
  | .lbracket => 7
  | .operator => if t.text = "!" then 1 else 0
  | _ => 0

/-- The calls within each other that a token list may open. -/
def callsWithin : List Token → Nat
  | [] => 0
  | t :: ts => callsOf t + callsWithin ts

@[simp] theorem callsWithin_nil : callsWithin [] = 0 := rfl

@[simp] theorem callsWithin_cons (t : Token) (ts : List Token) :
    callsWithin (t :: ts) = callsOf t + callsWithin ts := rfl

@[simp] theorem callsWithin_append (ts us : List Token) :
    callsWithin (ts ++ us) = callsWithin ts + callsWithin us := by
  induction ts with
  | nil => simp
  | cons t ts ih =>
    rw [List.cons_append, callsWithin_cons, callsWithin_cons, ih, Nat.add_assoc]

/-! ## §2 What does not continue a phrase -/

/-- The next token is none of the operators. -/
def Stops (accepts : Operator → Bool) (rest : List Token) : Prop :=
  ∀ operator, currentOperator? rest = some operator → accepts operator = false

/-- The next token does not continue a postfixed expression: a parenthesis after a property name
would make it a call. -/
def EndsPostfixed (rest : List Token) : Prop :=
  (current rest).kind ≠ .dot ∧ (current rest).kind ≠ .lparen

/-- The next token does not continue a phrase of the level. -/
def Ends : Level → List Token → Prop
  | .primary, _ => True
  | .postfixed, rest | .negation, rest => EndsPostfixed rest
  | .comparison, rest => EndsPostfixed rest ∧ Stops Operator.isComparison rest
  | .conjunction, rest =>
    EndsPostfixed rest ∧ Stops Operator.isComparison rest ∧ Stops (· == .and) rest
  | .disjunction, rest =>
    EndsPostfixed rest ∧ Stops Operator.isComparison rest ∧ Stops (· == .and) rest ∧
      Stops (· == .or) rest

theorem currentOperator?_of_isOperator {operator : Operator} {t : Token} {rest : List Token}
    (h : IsOperator operator t) : currentOperator? (t :: rest) = some (.ofText operator.text) := by
  simp [currentOperator?, current, h.1, h.2]

/-- Anything but an operator stops every level. -/
theorem stops_of_kind {accepts : Operator → Bool} {rest : List Token}
    (ne : (current rest).kind ≠ .operator) : Stops accepts rest := by
  intro operator h
  simp [currentOperator?, ne] at h

theorem ends_of_kind {rest : List Token} (noOperator : (current rest).kind ≠ .operator)
    (ends : EndsPostfixed rest) : Ends .disjunction rest :=
  ⟨ends, stops_of_kind noOperator, stops_of_kind noOperator, stops_of_kind noOperator⟩

theorem stops_of_isOperator {accepts : Operator → Bool} {operator : Operator} {t : Token}
    {rest : List Token} (h : IsOperator operator t)
    (refused : accepts (.ofText operator.text) = false) : Stops accepts (t :: rest) := by
  intro other same
  rw [currentOperator?_of_isOperator h] at same
  cases same
  exact refused

theorem endsPostfixed_of_isOperator {operator : Operator} {t : Token} {rest : List Token}
    (h : IsOperator operator t) : EndsPostfixed (t :: rest) := by
  simp [EndsPostfixed, current, h.1]

theorem ofText_of_mem_comparisonOperators {operator : Operator}
    (h : operator ∈ comparisonOperators) : Operator.ofText operator.text = operator := by
  cases operator <;> first | rfl | simp [comparisonOperators] at h

/-! ## §3 Repetitions -/

section Repetitions

variable {accepts : Operator → Bool} {operand : List Token → Parsed Expr}
variable {arguments : List Token → Parsed (List Expr)}

theorem leftChain_of_stops {left : Expr} {rest : List Token} (stops : Stops accepts rest) :
    leftChain accepts operand left rest = .done left rest := by
  cases rest with
  | nil => rw [leftChain]
  | cons t rest =>
    rw [leftChain, if_neg]
    rintro ⟨kind, accepted⟩
    have := stops (.ofText t.text) (by simp [currentOperator?, current, kind])
    simp [this] at accepted

/-- After one of the operators the chain goes on with its right operand. -/
theorem leftChain_of_isOperator
    (shrinks : ∀ ts e rest, operand ts = .done e rest → rest.length ≤ ts.length)
    {operator : Operator} {t : Token} {left : Expr} {rest : List Token}
    (h : IsOperator operator t) (known : Operator.ofText operator.text = operator)
    (accepted : accepts operator) :
    leftChain accepts operand left (t :: rest) =
      (operand rest).andThen fun right more =>
        leftChain accepts operand (.binary operator left right) more := by
  have same : Operator.ofText t.text = operator := by rw [h.2, known]
  rw [leftChain, if_pos ⟨h.1, by rw [same]; exact accepted⟩, same]
  cases read : operand rest with
  | stopped cause stop => rfl
  | done right more =>
    have := shrinks _ _ _ read
    simp [Parsed.andThen, this]

theorem moreItems_of_ne_comma {rest : List Token} (ne : (current rest).kind ≠ .comma) :
    moreItems operand rest = .done [] rest := by
  cases rest with
  | nil => rw [moreItems]
  | cons t rest => rw [moreItems, if_neg (by simpa [current] using ne)]

/-- Reading a list of at least one item. -/
def someItems (item : List Token → Parsed Expr) (ts : List Token) : Parsed (List Expr) :=
  (item ts).andThen fun e rest => (moreItems item rest).andThen fun es rest => .done (e :: es) rest

/-- After a comma there is a list of at least one item again. -/
theorem moreItems_of_comma
    (shrinks : ∀ ts e rest, operand ts = .done e rest → rest.length ≤ ts.length) {t : Token}
    {rest : List Token} (comma : t.kind = .comma) :
    moreItems operand (t :: rest) = someItems operand rest := by
  rw [moreItems, if_pos comma, someItems]
  cases read : operand rest with
  | stopped cause stop => rfl
  | done e more =>
    have := shrinks _ _ _ read
    simp [Parsed.andThen, this]

theorem postfixChain_of_ne_dot {object : Expr} {rest : List Token}
    (ne : (current rest).kind ≠ .dot) : postfixChain arguments object rest = .done object rest := by
  cases rest with
  | nil => rw [postfixChain]
  | cons t rest =>
    rw [postfixChain.eq_def]
    simp [show t.kind ≠ .dot from ne]

theorem postfixChain_member {object : Expr} {dot name : Token} {rest : List Token}
    (isDot : dot.kind = .dot) (named : name.kind = .identifier)
    (noCall : (current rest).kind ≠ .lparen) :
    postfixChain arguments object (dot :: name :: rest) =
      postfixChain arguments (.member object name.text) rest := by
  rw [postfixChain.eq_def]
  simp [isDot, named, noCall]

theorem postfixChain_call
    (shrinks : ∀ ts es rest, arguments ts = .done es rest → rest.length ≤ ts.length)
    {object : Expr} {dot name opening : Token} {rest : List Token} (isDot : dot.kind = .dot)
    (named : name.kind = .identifier) (opens : opening.kind = .lparen) :
    postfixChain arguments object (dot :: name :: opening :: rest) =
      (arguments rest).andThen fun es more =>
        postfixChain arguments (.call object name.text es) more := by
  rw [postfixChain.eq_def]
  simp only [isDot, named, ↓reduceIte, current, List.head?_cons, Option.getD_some, opens,
    List.drop_succ_cons, List.drop_zero, List.length_cons]
  cases read : arguments rest with
  | stopped cause stop => rfl
  | done es more =>
    have : more.length ≤ rest.length + 1 := by
      have := shrinks _ _ _ read
      omega
    simp only [Parsed.andThen, this, ↓reduceDIte]

end Repetitions

/-! ## §4 Phrases are read -/

theorem items_shrinks (depth : Nat) {closing : TokenKind} (ne : closing ≠ .eof)
    (ts : List Token) (es : List Expr) (rest : List Token)
    (h : items depth closing ts = .done es rest) : rest.length ≤ ts.length :=
  ((readersSound depth).items closing ts ne).length_le h

/-- How a phrase is read if it stands at the front of a token list.  On the levels that repeat, the
phrase may go on: it is what is read before the repetition continues. -/
def Completes : Phrase → List Token → Prop
  | .expr .disjunction e, ts => ∀ depth rest, Ends .conjunction rest →
    TakesCalls (6 + openedCalls e) (depth + 1) (disjunction (depth + 1) (ts ++ rest))
      (leftChain (· == .or) (conjunction depth) e rest)
  | .expr .conjunction e, ts => ∀ depth rest, Ends .comparison rest →
    TakesCalls (5 + openedCalls e) (depth + 1) (conjunction (depth + 1) (ts ++ rest))
      (leftChain (· == .and) (comparison depth) e rest)
  | .expr .comparison e, ts => ∀ depth rest, Ends .negation rest →
    TakesCalls (4 + openedCalls e) (depth + 1) (comparison (depth + 1) (ts ++ rest))
      (leftChain Operator.isComparison (negation depth) e rest)
  | .expr .negation e, ts => ∀ depth rest, Ends .negation rest →
    TakesCalls (3 + openedCalls e) depth (negation depth (ts ++ rest)) (.done e rest)
  | .expr .postfixed e, ts => ∀ depth rest, (current rest).kind ≠ .lparen →
    TakesCalls (2 + openedCalls e) (depth + 1) (postfixExpr (depth + 1) (ts ++ rest))
      (postfixChain (items depth .rparen) e rest)
  | .expr .primary e, ts => ∀ depth rest,
    TakesCalls (1 + openedCalls e) depth (primary depth (ts ++ rest)) (.done e rest)
  | .list [], ts => ts = []
  | .list (e :: es), ts => ∀ depth rest, Ends .disjunction rest → (current rest).kind ≠ .comma →
    TakesCalls (openedCallsOfAll (e :: es)) depth (someItems (disjunction depth) (ts ++ rest))
      (.done (e :: es) rest)

section Levels

variable {e : Expr} {ts : List Token} {depth : Nat} {rest : List Token}

theorem Completes.disjunction (h : Completes (.expr .disjunction e) ts)
    (ends : Ends .disjunction rest) :
    TakesCalls (6 + openedCalls e) depth (disjunction depth (ts ++ rest)) (.done e rest) := by
  cases depth with
  | zero => exact .of_zero (by omega)
  | succ depth =>
    have := h depth rest ⟨ends.1, ends.2.1, ends.2.2.1⟩
    rwa [leftChain_of_stops ends.2.2.2] at this

theorem Completes.conjunction (h : Completes (.expr .conjunction e) ts)
    (ends : Ends .conjunction rest) :
    TakesCalls (5 + openedCalls e) depth (conjunction depth (ts ++ rest)) (.done e rest) := by
  cases depth with
  | zero => exact .of_zero (by omega)
  | succ depth =>
    have := h depth rest ⟨ends.1, ends.2.1⟩
    rwa [leftChain_of_stops ends.2.2] at this

theorem Completes.comparison (h : Completes (.expr .comparison e) ts)
    (ends : Ends .comparison rest) :
    TakesCalls (4 + openedCalls e) depth (comparison depth (ts ++ rest)) (.done e rest) := by
  cases depth with
  | zero => exact .of_zero (by omega)
  | succ depth =>
    have := h depth rest ends.1
    rwa [leftChain_of_stops ends.2] at this

theorem Completes.postfixed (h : Completes (.expr .postfixed e) ts) (ends : EndsPostfixed rest) :
    TakesCalls (2 + openedCalls e) depth (postfixExpr depth (ts ++ rest)) (.done e rest) := by
  cases depth with
  | zero => exact .of_zero (by omega)
  | succ depth =>
    have := h depth rest ends.2
    rwa [postfixChain_of_ne_dot ends.1] at this

theorem expect_cons {kind : TokenKind} {t : Token} (same : t.kind = kind) :
    expect kind (t :: rest) = .done t rest := by
  simp [expect, current, same]

/-- A list before its closing token is read up to it. -/
theorem Completes.items {es : List Expr} {t : Token} (h : Completes (.list es) ts)
    (derived : Derives (.list es) ts) (closing : t.kind = .rparen ∨ t.kind = .rbracket) :
    TakesCalls (1 + openedCallsOfAll es) depth (items depth t.kind (ts ++ t :: rest))
      (.done es rest) := by
  cases depth with
  | zero => exact .of_zero (by omega)
  | succ depth =>
    unfold Expr.items
    cases es with
    | nil =>
      obtain rfl : ts = [] := h
      simp only [List.nil_append, current, List.head?_cons, Option.getD_some, ↓reduceIte,
        Parsed.andThen, expect_cons rfl, openedCallsOfAll]
      exact .refl_succ _
    | cons e es =>
      -- The list does not start like its own end.
      have notClosing : (current (ts ++ t :: rest)).kind ≠ t.kind := by
        obtain ⟨first, others, rfl, opens⟩ := derived.head_of_list
        simp only [List.cons_append, current, List.head?_cons, Option.getD_some]
        intro same
        rcases closing with kind | kind <;> simp [OpensExpression, same, kind] at opens
      rw [if_neg notClosing]
      have read := h depth (t :: rest)
        (ends_of_kind (by rcases closing with kind | kind <;> simp [current, kind])
          (by rcases closing with kind | kind <;> simp [EndsPostfixed, current, kind]))
        (by rcases closing with kind | kind <;> simp [current, kind])
      have closed : TakesCalls 0 depth ((expect t.kind (t :: rest)).andThen fun _ rest =>
          .done (e :: es) rest) (.done (e :: es) rest) := by
        rw [expect_cons rfl]
        exact .refl _
      exact (read.andThen closed).mono (by omega)

/-- If a chain is read up to an operator and its right operand is read, too, then it is read up to
what follows the operand. -/
theorem TakesCalls.join {accepts : Operator → Bool} {operand : List Token → Parsed Expr}
    {need need' : Nat} {p : Parsed Expr} {a b : Expr} {operator : Operator} {t : Token}
    {us : List Token}
    (left : TakesCalls need (depth + 1) p (leftChain accepts operand a (t :: (us ++ rest))))
    (isOperator : IsOperator operator t) (known : Operator.ofText operator.text = operator)
    (accepted : accepts operator)
    (shrinks : ∀ ts e rest, operand ts = .done e rest → rest.length ≤ ts.length)
    (right : TakesCalls need' depth (operand (us ++ rest)) (.done b rest)) :
    TakesCalls (max need (need' + 1)) (depth + 1) p
      (leftChain accepts operand (.binary operator a b) rest) := by
  rw [leftChain_of_isOperator shrinks isOperator known accepted] at left
  have right' : TakesCalls (need' + 1) (depth + 1) (operand (us ++ rest)) (.done b rest) :=
    right.mono (by omega)
  exact (left.trans (right'.andThen (.refl _))).mono (by omega)

end Levels

section Rules

variable {e a b : Expr} {ts us : List Token} {t : Token}

theorem completes_or (isOr : IsOperator .or t) (left : Completes (.expr .disjunction a) ts)
    (right : Completes (.expr .conjunction b) us) :
    Completes (.expr .disjunction (.binary .or a b)) (ts ++ t :: us) := by
  intro depth rest ends
  have first := left depth (t :: (us ++ rest))
    ⟨endsPostfixed_of_isOperator isOr, stops_of_isOperator isOr rfl, stops_of_isOperator isOr rfl⟩
  have joined := first.join isOr rfl rfl
    (fun ts _ _ => ((readersSound depth).conjunction ts).length_le) (right.conjunction ends)
  rw [List.append_assoc]
  exact joined.mono (by simp only [openedCalls]; omega)

theorem completes_and (isAnd : IsOperator .and t) (left : Completes (.expr .conjunction a) ts)
    (right : Completes (.expr .comparison b) us) :
    Completes (.expr .conjunction (.binary .and a b)) (ts ++ t :: us) := by
  intro depth rest ends
  have first := left depth (t :: (us ++ rest))
    ⟨endsPostfixed_of_isOperator isAnd, stops_of_isOperator isAnd rfl⟩
  have joined := first.join isAnd rfl rfl
    (fun ts _ _ => ((readersSound depth).comparison ts).length_le) (right.comparison ends)
  rw [List.append_assoc]
  exact joined.mono (by simp only [openedCalls]; omega)

theorem completes_compare {operator : Operator} (known : operator ∈ comparisonOperators)
    (isOperator : IsOperator operator t) (left : Completes (.expr .comparison a) ts)
    (right : Completes (.expr .negation b) us) :
    Completes (.expr .comparison (.binary operator a b)) (ts ++ t :: us) := by
  intro depth rest ends
  have first := left depth (t :: (us ++ rest)) (endsPostfixed_of_isOperator isOperator)
  have joined := first.join isOperator
    (ofText_of_mem_comparisonOperators known) (mem_comparisonOperators.mp known)
    (fun ts _ _ => ((readersSound depth).negation ts).length_le) (right depth rest ends)
  rw [List.append_assoc]
  exact joined.mono (by simp only [openedCalls]; omega)

theorem completes_not (isNot : IsOperator .not t) (operand : Completes (.expr .negation e) ts) :
    Completes (.expr .negation (.unary .not e)) (t :: ts) := by
  intro depth rest ends
  cases depth with
  | zero => exact .of_zero (by omega)
  | succ depth =>
    rw [negation, if_pos (by
      rw [List.cons_append, currentOperator?_of_isOperator isNot]
      rfl)]
    exact ((operand depth rest ends).andThen (.refl _)).mono (by simp only [openedCalls]; omega)

theorem completes_postfixed (derived : Derives (.expr .postfixed e) ts)
    (postfixed : Completes (.expr .postfixed e) ts) : Completes (.expr .negation e) ts := by
  intro depth rest ends
  cases depth with
  | zero => exact .of_zero (by omega)
  | succ depth =>
    obtain ⟨t, us, rfl, noOperator⟩ := derived.head_of_postfixed
    rw [negation, if_neg (by simp [currentOperator?, current, noOperator])]
    exact (postfixed.postfixed ends).mono (by omega)

theorem completes_member {dot name : Token} (isDot : dot.kind = .dot)
    (named : name.kind = .identifier) (object : Completes (.expr .postfixed e) ts) :
    Completes (.expr .postfixed (.member e name.text)) (ts ++ [dot, name]) := by
  intro depth rest ends
  have first := object depth (dot :: name :: rest) (by simp [current, isDot])
  rw [postfixChain_member isDot named ends] at first
  rw [List.append_assoc]
  exact first.mono (by simp only [openedCalls])

theorem completes_call {es : List Expr} {dot name opening closing : Token} (isDot : dot.kind = .dot)
    (named : name.kind = .identifier) (opens : opening.kind = .lparen)
    (closes : closing.kind = .rparen) (derived : Derives (.list es) us)
    (object : Completes (.expr .postfixed e) ts) (arguments : Completes (.list es) us) :
    Completes (.expr .postfixed (.call e name.text es))
      (ts ++ dot :: name :: opening :: (us ++ [closing])) := by
  intro depth rest _
  -- The repetition that reads the object goes on with the name and the arguments.
  have first := object depth (dot :: name :: opening :: (us ++ closing :: rest))
    (by simp [current, isDot])
  rw [postfixChain_call (items_shrinks depth (by decide)) isDot named opens] at first
  have list : TakesCalls (1 + openedCallsOfAll es) depth
      (items depth closing.kind (us ++ closing :: rest)) (.done es rest) :=
    arguments.items derived (.inl closes)
  rw [closes] at list
  have list' : TakesCalls (2 + openedCallsOfAll es) (depth + 1)
      (items depth .rparen (us ++ closing :: rest)) (.done es rest) := list.mono (by omega)
  have same : (ts ++ dot :: name :: opening :: (us ++ [closing])) ++ rest =
      ts ++ dot :: name :: opening :: (us ++ closing :: rest) := by simp
  rw [same]
  exact (first.trans (list'.andThen (.refl _))).mono (by simp only [openedCalls]; omega)

theorem completes_literal {v : Value} (value : Literal t v) :
    Completes (.expr .primary (.literal v)) [t] := by
  intro depth rest
  cases depth with
  | zero => exact .of_zero (by omega)
  | succ depth =>
    have read : literalValue? (current ([t] ++ rest)) = some v := literalValue?_eq_some.mpr value
    rw [primary, read]
    simp only [openedCalls]
    exact .refl_succ _

/-- Tokens of the other kinds have no literal value. -/
theorem literalValue?_of_kind (kind : t.kind = .identifier ∨ t.kind = .lbracket ∨ t.kind = .lparen) :
    literalValue? t = none := by
  rcases kind with kind | kind | kind <;> simp [literalValue?, kind]

theorem completes_name (named : t.kind = .identifier) :
    Completes (.expr .primary (.name t.text)) [t] := by
  intro depth rest
  cases depth with
  | zero => exact .of_zero (by omega)
  | succ depth =>
    simp only [primary, current, List.cons_append, List.head?_cons, Option.getD_some,
      literalValue?_of_kind (.inl named), named]
    simp only [openedCalls]
    exact .refl_succ _

theorem completes_array {es : List Expr} {opening closing : Token}
    (opens : opening.kind = .lbracket) (closes : closing.kind = .rbracket)
    (derived : Derives (.list es) ts) (list : Completes (.list es) ts) :
    Completes (.expr .primary (.array es)) (opening :: (ts ++ [closing])) := by
  intro depth rest
  cases depth with
  | zero => exact .of_zero (by omega)
  | succ depth =>
    have read : TakesCalls (1 + openedCallsOfAll es) depth
        (items depth closing.kind (ts ++ closing :: rest)) (.done es rest) :=
      list.items derived (.inr closes)
    rw [closes] at read
    simp only [primary, current, List.cons_append, List.append_assoc, List.nil_append,
      List.head?_cons, Option.getD_some, literalValue?_of_kind (.inr (.inl opens)), opens,
      List.drop_succ_cons, List.drop_zero]
    exact (read.andThen (.refl _)).mono (by simp only [openedCalls]; omega)

theorem completes_group {opening closing : Token} (opens : opening.kind = .lparen)
    (closes : closing.kind = .rparen) (inner : Completes (.expr .disjunction e) ts) :
    Completes (.expr .primary (.group e)) (opening :: (ts ++ [closing])) := by
  intro depth rest
  cases depth with
  | zero => exact .of_zero (by omega)
  | succ depth =>
    -- The closing parenthesis ends the inner expression on every level.
    have ends : Ends .disjunction (closing :: rest) :=
      ends_of_kind (by simp [current, closes]) (by simp [EndsPostfixed, current, closes])
    have read : TakesCalls (6 + openedCalls e) depth (disjunction depth (ts ++ closing :: rest))
        (.done e (closing :: rest)) := inner.disjunction ends
    have closed : TakesCalls 0 depth ((expect .rparen (closing :: rest)).andThen fun _ rest =>
        .done (Expr.group e) rest) (.done (.group e) rest) := by
      rw [expect_cons closes]
      exact .refl _
    simp only [primary, current, List.cons_append, List.append_assoc, List.nil_append,
      List.head?_cons, Option.getD_some, literalValue?_of_kind (.inr (.inr opens)), opens,
      List.drop_succ_cons, List.drop_zero]
    exact (read.andThen closed).mono (by simp only [openedCalls]; omega)

theorem completes_last (first : Completes (.expr .disjunction e) ts) :
    Completes (.list [e]) ts := by
  intro depth rest ends noComma
  have read : TakesCalls (6 + openedCalls e) depth (disjunction depth (ts ++ rest))
      (.done e rest) := first.disjunction ends
  have alone : TakesCalls 0 depth ((moreItems (disjunction depth) rest).andThen fun es rest =>
      .done (e :: es) rest) (.done [e] rest) := by
    rw [moreItems_of_ne_comma noComma]
    exact .refl _
  exact (read.andThen alone).mono (by simp only [openedCallsOfAll])

theorem completes_more {es : List Expr} {comma : Token} (isComma : comma.kind = .comma)
    (first : Completes (.expr .disjunction a) ts) (others : Completes (.list (b :: es)) us) :
    Completes (.list (a :: b :: es)) (ts ++ comma :: us) := by
  intro depth rest ends noComma
  have endsFirst : Ends .disjunction (comma :: (us ++ rest)) :=
    ends_of_kind (by simp [current, isComma]) (by simp [EndsPostfixed, current, isComma])
  have read : TakesCalls (6 + openedCalls a) depth
      (disjunction depth (ts ++ comma :: (us ++ rest))) (.done a (comma :: (us ++ rest))) :=
    first.disjunction endsFirst
  have more : TakesCalls (openedCallsOfAll (b :: es)) depth
      (moreItems (disjunction depth) (comma :: (us ++ rest))) (.done (b :: es) rest) := by
    rw [moreItems_of_comma (fun ts _ _ => ((readersSound depth).disjunction ts).length_le) isComma]
    exact others depth rest ends noComma
  rw [List.append_assoc]
  exact (read.andThen (more.andThen (.refl _))).mono (by simp only [openedCallsOfAll]; omega)

end Rules

/-- Every phrase is read with the calls that its trees take, and with no fewer. -/
theorem Derives.completes {phrase : Phrase} {ts : List Token} (h : Derives phrase ts) :
    Completes phrase ts := by
  induction h with
  | conjunction _ ih =>
    exact fun depth rest ends => ((ih.conjunction ends).andThen (.refl _)).mono (by omega)
  | or _ isOr _ left right => exact completes_or isOr left right
  | comparison _ ih =>
    exact fun depth rest ends => ((ih.comparison ends).andThen (.refl _)).mono (by omega)
  | and _ isAnd _ left right => exact completes_and isAnd left right
  | negation _ ih =>
    exact fun depth rest ends => ((ih depth rest ends).andThen (.refl _)).mono (by omega)
  | compare known _ isOperator _ left right => exact completes_compare known isOperator left right
  | not isNot _ ih => exact completes_not isNot ih
  | postfixed derived ih => exact completes_postfixed derived ih
  | primary _ ih =>
    exact fun depth rest _ => ((ih depth rest).andThen (.refl _)).mono (by omega)
  | member _ isDot named ih => exact completes_member isDot named ih
  | call _ isDot named opens derived closes object arguments =>
    exact completes_call isDot named opens closes derived object arguments
  | literal value => exact completes_literal value
  | name named => exact completes_name named
  | array opens derived closes ih => exact completes_array opens closes derived ih
  | group opens _ closes ih => exact completes_group opens closes ih
  | none => exact rfl
  | last _ ih => exact completes_last ih
  | more _ isComma _ first others => exact completes_more isComma first others

/-- The tokens may open all the calls that the trees of a phrase take.  The items of a list have the
calls of their levels besides, which the bracket before them opens. -/
def OpensWithin : Phrase → List Token → Prop
  | .expr _ e, ts => openedCalls e ≤ callsWithin ts
  | .list es, ts => openedCallsOfAll es ≤ 6 + callsWithin ts

theorem Derives.opensWithin {phrase : Phrase} {ts : List Token} (h : Derives phrase ts) :
    OpensWithin phrase ts := by
  induction h with
  | conjunction _ ih | comparison _ ih | negation _ ih | postfixed _ ih | primary _ ih => exact ih
  | or _ _ _ left right | and _ _ _ left right | compare _ _ _ _ left right =>
    simp only [OpensWithin, openedCalls, callsWithin_append, callsWithin_cons] at *
    omega
  -- What a rule adds to the calls of its parts, its opening token pays for.
  | @not _ _ t isNot _ ih =>
    have opened : callsOf t = 1 := by simp [callsOf, isNot.1, isNot.2, Operator.text]
    simp only [OpensWithin, openedCalls, callsWithin_cons] at *
    omega
  | member _ _ _ ih =>
    simp only [OpensWithin, openedCalls, callsWithin_append] at *
    omega
  | @call _ _ _ _ _ _ opening _ _ _ _ opens _ _ object arguments =>
    have opened : callsOf opening = 6 := by simp [callsOf, opens]
    simp only [OpensWithin, openedCalls, callsWithin_append, callsWithin_cons] at *
    omega
  | literal _ | name _ | none => exact Nat.zero_le _
  | @array _ _ opening _ opens _ _ ih =>
    have opened : callsOf opening = 7 := by simp [callsOf, opens]
    simp only [OpensWithin, openedCalls, callsWithin_append, callsWithin_cons] at *
    omega
  | @group _ _ opening _ opens _ _ ih =>
    have opened : callsOf opening = 6 := by simp [callsOf, opens]
    simp only [OpensWithin, openedCalls, callsWithin_append, callsWithin_cons] at *
    omega
  | last _ ih =>
    simp only [OpensWithin, openedCallsOfAll] at *
    omega
  | more _ _ _ first others =>
    simp only [OpensWithin, openedCallsOfAll, callsWithin_append, callsWithin_cons] at *
    omega

/-! ## §5 Whole expressions -/

theorem current_fromEnd (ts : List Token) : (current (fromEnd ts)).kind = .eof := by
  induction ts with
  | nil => rfl
  | cons t ts ih =>
    unfold fromEnd
    rw [List.dropWhile_cons]
    split
    · exact ih
    · rename_i atEnd
      simpa [current] using atEnd

/-- A part without end tokens that has one after it is what stands before the end. -/
theorem beforeEnd_append {used rest : List Token} (noEnd : ∀ t ∈ used, t.kind ≠ .eof)
    (atEnd : (current rest).kind = .eof) : beforeEnd (used ++ rest) = used := by
  rw [beforeEnd, List.takeWhile_append_of_pos (by simpa using noEnd)]
  cases rest with
  | nil => simp
  | cons t others => simp [show t.kind = .eof from atEnd]

/-- A whole expression that was read is an expression of the grammar. -/
theorem parse_sound {ts rest : List Token} {e : Expr} (h : Expr.parse ts = .done e rest) :
    IsExpression (beforeEnd ts) e := by
  unfold Expr.parse at h
  split at h
  · cases h
  · obtain ⟨e', middle, read, ended⟩ := andThen_eq_done h
    split at ended
    · rename_i atEnd
      cases ended
      obtain ⟨used, rfl, derived⟩ := (readersSound callDepth).disjunction _ _ _ read
      rwa [beforeEnd_append derived.no_end atEnd]
    · cases ended

/-- An expression of the grammar before the end is read as a whole with the calls its tree takes. -/
theorem parse_takesCalls {ts : List Token} {e : Expr} (h : IsExpression (beforeEnd ts) e) :
    TakesCalls (6 + openedCalls e) callDepth (Expr.parse ts) (.done e (fromEnd ts)) := by
  have atEnd := current_fromEnd ts
  have ends : Ends .disjunction (fromEnd ts) :=
    ends_of_kind (by simp [atEnd]) (by simp [EndsPostfixed, atEnd])
  have read : TakesCalls (6 + openedCalls e) callDepth
      (disjunction callDepth (beforeEnd ts ++ fromEnd ts)) (.done e (fromEnd ts)) :=
    h.completes.disjunction ends
  rw [beforeEnd_append_fromEnd] at read
  -- The first token belongs to the expression, so it is not the end.
  have notEmpty : (current ts).kind ≠ .eof := by
    obtain ⟨t, us, same, _⟩ := h.head
    rw [← beforeEnd_append_fromEnd ts, same]
    exact h.no_end t (by simp [same])
  rw [Expr.parse, if_neg notEmpty]
  have ended : TakesCalls 0 callDepth (if (current (fromEnd ts)).kind = .eof then
      .done e (fromEnd ts) else .stopped (.unexpectedToken (current (fromEnd ts)).text)
        (fromEnd ts)) (.done e (fromEnd ts)) := by
    rw [if_pos atEnd]
    exact .refl _
  exact (read.andThen ended).mono (by omega)

/-- The calls that the tokens may open are enough. -/
theorem parse_complete {ts : List Token} {e : Expr} (h : IsExpression (beforeEnd ts) e) :
    AgreesWithin (6 + callsWithin (beforeEnd ts)) callDepth (Expr.parse ts)
      (.done e (fromEnd ts)) := by
  have le : openedCalls e ≤ callsWithin (beforeEnd ts) := h.opensWithin
  rcases Nat.lt_or_ge callDepth (6 + openedCalls e) with short | enough
  · exact .inr ⟨by omega, (parse_takesCalls h).2 short⟩
  · exact .inl ((parse_takesCalls h).1 enough)

/-- A token list has at most one tree. -/
theorem IsExpression.unique {ts : List Token} {e₁ e₂ : Expr} (h₁ : IsExpression ts e₁)
    (h₂ : IsExpression ts e₂) : e₁ = e₂ := by
  -- Both trees are what is read with calls enough.
  have read {e : Expr} (h : IsExpression ts e) :
      disjunction (6 + callsWithin ts) (ts ++ []) = .done e [] := by
    have ends : Ends .disjunction [] :=
      ends_of_kind (by simp [current, Token.eof]) (by simp [EndsPostfixed, current, Token.eof])
    exact (h.completes.disjunction ends).1 (Nat.add_le_add_left h.opensWithin 6)
  have same := (read h₁).symm.trans (read h₂)
  exact (Parsed.done.inj same).1

theorem ofTokens_eq_ok {ts : List Token} {e : Expr} :
    ofTokens ts = .ok e ↔ ∃ rest, Expr.parse ts = .done e rest := by
  unfold ofTokens Cursor.parse Cursor.start
  cases Expr.parse ts <;> simp

theorem ofTokens_eq_error {ts : List Token} {cause : SyntaxError} :
    ofTokens ts = .error cause ↔ ∃ rest, Expr.parse ts = .stopped cause rest := by
  unfold ofTokens Cursor.parse Cursor.start
  cases Expr.parse ts <;> simp

/-- **A token list is read as its tree in the grammar, and refused if it has none.**  Unless reading
was refused for too deep nesting, it succeeds exactly for the expressions of the grammar that stand
before the first end token.  Expressions that do not open too many calls are always read, and no
token list has two trees, however deep it is. -/
theorem ofTokens_reads_grammar (ts : List Token) :
    (∀ e₁ e₂, IsExpression (beforeEnd ts) e₁ → IsExpression (beforeEnd ts) e₂ → e₁ = e₂) ∧
    (∀ e, IsExpression (beforeEnd ts) e → 6 + callsWithin (beforeEnd ts) ≤ callDepth →
      ofTokens ts = .ok e) ∧
    (ofTokens ts ≠ .error .nestedTooDeeply →
      (∀ e, ofTokens ts = .ok e ↔ IsExpression (beforeEnd ts) e) ∧
      ((¬∃ e, IsExpression (beforeEnd ts) e) → ∃ cause, ofTokens ts = .error cause)) := by
  refine ⟨fun e₁ e₂ h₁ h₂ => h₁.unique h₂, fun e h enough => ?_, fun shallow => ⟨fun e => ?_, ?_⟩⟩
  · exact ofTokens_eq_ok.mpr ⟨_, (parse_complete h).eq_of_le enough⟩
  · constructor
    · intro h
      obtain ⟨rest, read⟩ := ofTokens_eq_ok.mp h
      exact parse_sound read
    · intro h
      -- An expression is read unless its nesting stops the reader.
      rcases parse_complete h with read | ⟨_, stop, read⟩
      · exact ofTokens_eq_ok.mpr ⟨_, read⟩
      · exact absurd (ofTokens_eq_error.mpr ⟨stop, read⟩) shallow
  · intro none
    cases read : ofTokens ts with
    | error cause => exact ⟨cause, rfl⟩
    | ok e =>
      obtain ⟨rest, done⟩ := ofTokens_eq_ok.mp read
      exact absurd ⟨e, parse_sound done⟩ none

theorem ofTokens_reads_negated_call :
    let e := Expr.binary .or
      (.unary .not (.call (.name "a") "includes" [.group (.name "b"), .array []]))
      (.literal (.bool false))
    let ts : List Token := [⟨.operator, "!"⟩, ⟨.identifier, "a"⟩, ⟨.dot, "."⟩,
      ⟨.identifier, "includes"⟩, ⟨.lparen, "("⟩, ⟨.lparen, "("⟩, ⟨.identifier, "b"⟩,
      ⟨.rparen, ")"⟩, ⟨.comma, ","⟩, ⟨.lbracket, "["⟩, ⟨.rbracket, "]"⟩, ⟨.rparen, ")"⟩,
      ⟨.operator, "||"⟩, ⟨.boolean, "yes"⟩]
    ofTokens (ts ++ [.eof, ⟨.comma, ","⟩]) ≠ .error .nestedTooDeeply ∧ IsExpression ts e := by
  intro e ts
  have read : ofTokens (ts ++ [.eof, ⟨.comma, ","⟩]) = .ok e := by cbv
  have shallow : ofTokens (ts ++ [.eof, ⟨.comma, ","⟩]) ≠ .error .nestedTooDeeply := by simp [read]
  exact ⟨shallow, (((ofTokens_reads_grammar _).2.2 shallow).1 e).mp read⟩

end Visibility.Grammar
