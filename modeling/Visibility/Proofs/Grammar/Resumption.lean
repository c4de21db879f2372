import Mathlib.Data.List.Permutation
import Visibility.Proofs.Grammar.Lookahead

/-!
# Reading again from where reading stopped

A reader never takes an end token, so it stops within the tokens before the first one, or there, and
what stands behind this end token does not matter to it.  Each reading also gets by with a number of
calls that the tokens before the end bound.  Both follow from one property that all readers have,
and both hold of every further reading, since it starts where the one before it stopped.

* `Steady` — a reader ends alike on all lists with the same tokens before the end
* `leftChain_steady`, `moreItems_steady`, `postfixChain_steady` — the repetitions, by induction on
  the number of these tokens
* `readersSteady` — the levels, by induction on the number of calls within each other
* `parse_alike`, `after_alike` — one reading of a whole expression, and any number of them
* `parse_resumes` — every reading is the first reading of what is left
-/

namespace Visibility

/-- The cursor after a number of readings. -/
def Expr.Cursor.after (c : Expr.Cursor) : Nat → Expr.Cursor
  | 0 => c
  | n + 1 => (after c n).parse.2

namespace Grammar

open Visibility.Expr

variable {α β : Type} {need depth n : Nat} {front r₁ r₂ : List Token}

/-! ## §1 Steady readers -/

/-- Nothing is left of two token lists but the same end. -/
structure SameEnd (r₁ r₂ : List Token) : Prop where
  current : current r₁ = current r₂
  isEnd : (Expr.current r₁).kind = .eof

/-- Two readings of token lists with the same tokens `front` before the end.  They end alike: with
the same result and at the same place, which is not behind the end.  If there are enough calls, they
do not stop for too deep nesting. -/
inductive EndAlike (enough : Prop) (front r₁ r₂ : List Token) : Parsed α → Parsed α → Prop where
  | done (used left : List Token) (a : α) : front = used ++ left →
      EndAlike enough front r₁ r₂ (.done a (left ++ r₁)) (.done a (left ++ r₂))
  | stopped (used left : List Token) {cause : SyntaxError} : front = used ++ left →
      (enough → cause ≠ .nestedTooDeeply) →
      EndAlike enough front r₁ r₂ (.stopped cause (left ++ r₁)) (.stopped cause (left ++ r₂))

/-- What two readings do after some tokens, they do after these. -/
theorem EndAlike.shift {enough enough' : Prop} {p q : Parsed α} (before : List Token)
    (h : EndAlike enough front r₁ r₂ p q) (imp : enough' → enough) :
    EndAlike enough' (before ++ front) r₁ r₂ p q := by
  cases h with
  | done used left a split =>
    rw [split, ← List.append_assoc]
    exact .done (before ++ used) left a rfl
  | stopped used left split shallow =>
    rw [split, ← List.append_assoc]
    exact .stopped (before ++ used) left rfl fun holds => shallow (imp holds)

/-- A reader ends alike on all token lists with the same tokens before the end, if there are fewer
than `n` of them.  Each of them takes no more than seven calls, and the reader itself no more than
`need`. -/
def Steady (need depth n : Nat) (f : List Token → Parsed α) : Prop :=
  ∀ front r₁ r₂, front.length < n → (∀ t ∈ front, t.kind ≠ .eof) → SameEnd r₁ r₂ →
    EndAlike (7 * front.length + need ≤ depth) front r₁ r₂ (f (front ++ r₁)) (f (front ++ r₂))

/-- What a reader does if it looks at the first token: it leaves it to another reader, or it takes
it, and then it is no end token. -/
inductive LooksAt (need depth n : Nat) (f : List Token → Parsed α) (t : Token) : Prop where
  | leaves {g : List Token → Parsed α} : Steady need depth n g →
      (∀ ts, current ts = t → f ts = g ts) → LooksAt need depth n f t
  | takes {need' m : Nat} {g : List Token → Parsed α} : t.kind ≠ .eof → Steady need' depth m g →
      need' ≤ need + 7 → n ≤ m + 1 → (∀ ts, current ts = t → f ts = g (ts.drop 1)) →
      LooksAt need depth n f t

namespace Steady

variable {f : List Token → Parsed α}

theorem zero : Steady need depth 0 f :=
  fun _ _ _ bounded => absurd bounded (Nat.not_lt_zero _)

theorem mono {need' depth' : Nat} (h : Steady need' depth' n f)
    (le : depth + need' ≤ depth' + need) : Steady need depth n f :=
  fun front r₁ r₂ bounded noEnd ends =>
    (h front r₁ r₂ bounded noEnd ends).shift [] fun enough => by omega

theorem done (a : α) : Steady need depth n (Parsed.done a) :=
  fun front _ _ _ _ _ => .done [] front a rfl

theorem stopped (cause : SyntaxError) (shallow : cause ≠ .nestedTooDeeply) :
    Steady need depth n (Parsed.stopped (α := α) cause) :=
  fun front _ _ _ _ _ => .stopped [] front rfl fun _ => shallow

/-- A reader that needs calls may stop if there are none. -/
theorem refused (pos : 0 < need) :
    Steady need 0 n (Parsed.stopped (α := α) .nestedTooDeeply) :=
  fun front _ _ _ _ _ => .stopped [] front rfl fun enough => by omega

theorem andThen {next : α → List Token → Parsed β} (first : Steady need depth n f)
    (second : ∀ a, Steady need depth n (next a)) :
    Steady need depth n fun ts => (f ts).andThen next := by
  intro front r₁ r₂ bounded noEnd ends
  have both := first front r₁ r₂ bounded noEnd ends
  dsimp only
  generalize f (front ++ r₁) = p at both
  generalize f (front ++ r₂) = q at both
  cases both with
  | done used left a split =>
    -- The second reader has what the first one left of the tokens before the end.
    have length := congrArg List.length split
    rw [List.length_append] at length
    have noEnd : ∀ t ∈ left, t.kind ≠ .eof := (List.forall_mem_append.mp (split ▸ noEnd)).2
    have rest := second a left r₁ r₂ (by omega) noEnd ends
    rw [split]
    exact rest.shift used fun enough => by simp only [List.length_append] at enough; omega
  | stopped used left split shallow => exact .stopped used left split shallow

/-- A reader is steady if it is so for each token that it may look at. -/
theorem ofCurrent (each : ∀ t, LooksAt need depth n f t) : Steady need depth n f := by
  intro front r₁ r₂ bounded noEnd ends
  have sameFirst : current (front ++ r₁) = current (front ++ r₂) := by
    cases front with
    | nil => exact ends.current
    | cons t front => rfl
  -- The first token stays where it is, or it is taken and is no end.
  cases each (current (front ++ r₁)) with
  | leaves steady same =>
    rw [same _ rfl, same _ sameFirst.symm]
    exact steady front r₁ r₂ bounded noEnd ends
  | takes notEnd steady le bound same =>
    rw [same _ rfl, same _ sameFirst.symm]
    cases front with
    | nil => exact absurd ends.isEnd notEnd
    | cons t front =>
      rw [List.length_cons] at bounded
      have noEnd : ∀ u ∈ front, u.kind ≠ .eof := fun u mem => noEnd u (List.mem_cons_of_mem t mem)
      have rest := steady front r₁ r₂ (by omega) noEnd ends
      exact rest.shift [t] fun enough => by rw [List.length_cons] at enough; omega

theorem expect (kind : TokenKind) (ne : kind ≠ .eof) :
    Steady need depth n (Expr.expect kind) :=
  .ofCurrent fun t => by
    by_cases same : t.kind = kind
    · refine .takes (same ▸ ne) (.done t) (Nat.le_add_right need 7) (Nat.le_succ n)
        fun ts first => ?_
      rw [Expr.expect, first, if_pos same]
    · refine .leaves (.stopped (.expectedToken kind t) (by simp)) fun ts first => ?_
      rw [Expr.expect, first, if_neg same]

end Steady

/-! ## §2 Repetitions -/

section Repetitions

variable {accepts : Operator → Bool} {operand : List Token → Parsed Expr}
variable {arguments : List Token → Parsed (List Expr)}

/-- By induction on the number of tokens before the end, of which every operand takes at least its
operator. -/
theorem leftChain_steady (shrinks : Shrinks operand) (operands : ∀ n, Steady need depth n operand)
    (n : Nat) (left : Expr) : Steady need depth n (leftChain accepts operand left) := by
  induction n generalizing left with
  | zero => exact .zero
  | succ n ih =>
    refine .ofCurrent fun t => ?_
    by_cases accepted : t.kind = .operator ∧ accepts (.ofText t.text)
    · have chain := (operands n).andThen fun right => ih (.binary (.ofText t.text) left right)
      refine .takes (ne_of_eq_of_ne accepted.1 (by decide)) chain (Nat.le_add_right need 7)
        (Nat.le_refl _) fun ts first => ?_
      rw [leftChain_eq shrinks, first, if_pos accepted]
    · refine .leaves (.done left) fun ts first => ?_
      rw [leftChain_eq shrinks, first, if_neg accepted]

theorem moreItems_steady (shrinks : Shrinks operand) (operands : ∀ n, Steady need depth n operand)
    (n : Nat) : Steady need depth n (moreItems operand) := by
  induction n with
  | zero => exact .zero
  | succ n ih =>
    refine .ofCurrent fun t => ?_
    by_cases comma : t.kind = .comma
    · have another : Steady need depth n fun ts => (operand ts).andThen fun e more =>
          (moreItems operand more).andThen fun es => .done (e :: es) :=
        (operands n).andThen fun e => ih.andThen fun es => .done _
      refine .takes (ne_of_eq_of_ne comma (by decide)) another (Nat.le_add_right need 7)
        (Nat.le_refl _) fun ts first => ?_
      rw [moreItems_eq shrinks, first, if_pos comma]
    · refine .leaves (.done []) fun ts first => ?_
      rw [moreItems_eq shrinks, first, if_neg comma]

/-- Arguments come after a dot, a name and a parenthesis, so they may take more calls. -/
theorem postfixChain_steady (shrinks : Shrinks arguments)
    (lists : ∀ n, Steady (need + 7) depth n arguments) (n : Nat) (object : Expr) :
    Steady need depth n (postfixChain arguments object) := by
  induction n generalizing object with
  | zero => exact .zero
  | succ n ih =>
    have later (object : Expr) : Steady (need + 7) depth n (postfixChain arguments object) :=
      (ih object).mono (by omega)
    -- After the name, the next token tells whether it is a call.
    have afterName (property : Token) : Steady (need + 7) depth n fun rest =>
        if (current rest).kind = .lparen then
          (arguments (rest.drop 1)).andThen fun es =>
            postfixChain arguments (.call object property.text es)
        else postfixChain arguments (.member object property.text) rest := by
      refine .ofCurrent fun t => ?_
      by_cases opens : t.kind = .lparen
      · have call := (lists n).andThen fun es => later (.call object property.text es)
        refine .takes (ne_of_eq_of_ne opens (by decide)) call (Nat.le_add_right _ 7) (Nat.le_succ n)
          fun ts first => ?_
        rw [first, if_pos opens]
      · exact .leaves (later _) fun ts first => by rw [first, if_neg opens]
    refine .ofCurrent fun t => ?_
    by_cases dot : t.kind = .dot
    · refine .takes (ne_of_eq_of_ne dot (by decide))
        ((Steady.expect .identifier (by decide)).andThen afterName) (Nat.le_refl _) (Nat.le_refl _)
        fun ts first => ?_
      rw [postfixChain_eq shrinks, first, if_pos dot]
    · refine .leaves (.done object) fun ts first => ?_
      rw [postfixChain_eq shrinks, first, if_neg dot]

end Repetitions

/-! ## §3 The levels -/

/-- The functions of the reader are steady if `depth` calls may be within each other.  Each level
takes one call more than the next one, and a list one more than the loosest level. -/
structure ReadersSteady (depth : Nat) : Prop where
  disjunction : ∀ n, Steady 6 depth n (disjunction depth)
  conjunction : ∀ n, Steady 5 depth n (conjunction depth)
  comparison : ∀ n, Steady 4 depth n (comparison depth)
  negation : ∀ n, Steady 3 depth n (negation depth)
  postfixed : ∀ n, Steady 2 depth n (postfixExpr depth)
  primary : ∀ n, Steady 1 depth n (primary depth)
  items : ∀ closing n, closing ≠ .eof → Steady 7 depth n (items depth closing)

/-- One call more is granted and needed. -/
theorem Steady.succ {f : List Token → Parsed α} (h : Steady need depth n f) :
    Steady (need + 1) (depth + 1) n f :=
  h.mono (by omega)

theorem level_steady {accepts : Operator → Bool} {operand : List Token → Parsed Expr}
    (shrinks : Shrinks operand) (operands : ∀ n, Steady need depth n operand) (n : Nat) :
    Steady (need + 1) (depth + 1) n fun ts => (operand ts).andThen (leftChain accepts operand) :=
  ((operands n).andThen (leftChain_steady shrinks operands n)).succ

theorem negation_steady (readers : ReadersSteady depth) (n : Nat) :
    Steady 3 (depth + 1) n (negation (depth + 1)) := by
  refine .ofCurrent fun t => ?_
  by_cases isNot : (if t.kind = .operator then some (Operator.ofText t.text) else none) = some .not
  · have operand : Steady 4 (depth + 1) n fun ts =>
        (negation depth ts).andThen fun operand => .done (Expr.unary .not operand) :=
      ((readers.negation n).andThen fun operand => .done _).succ
    have isOperator : t.kind = .operator := (Option.ite_none_right_eq_some.mp isNot).1
    refine .takes (ne_of_eq_of_ne isOperator (by decide)) operand (by omega) (Nat.le_succ n)
      fun ts first => ?_
    rw [negation, currentOperator?, first, if_pos isNot]
  · refine .leaves (readers.postfixed n).succ fun ts first => ?_
    rw [negation, currentOperator?, first, if_neg isNot]

theorem postfixed_steady (readers : ReadersSteady depth) (n : Nat) :
    Steady 2 (depth + 1) n (postfixExpr (depth + 1)) := by
  have lists (n : Nat) : Steady (1 + 7) depth n (items depth .rparen) :=
    (readers.items .rparen n (by decide)).mono (by omega)
  have shrinks := ((readersLocal depth).items .rparen 0).shrinks
  exact ((readers.primary n).andThen (postfixChain_steady shrinks lists n)).succ

theorem primary_steady (readers : ReadersSteady depth) (n : Nat) :
    Steady 1 (depth + 1) n (primary (depth + 1)) := by
  have array : Steady 8 (depth + 1) n fun ts =>
      (items depth .rbracket ts).andThen fun es => .done (Expr.array es) :=
    ((readers.items .rbracket n (by decide)).andThen fun es => .done _).succ
  have group : Steady 7 (depth + 1) n fun ts => (disjunction depth ts).andThen fun inner rest =>
      (expect .rparen rest).andThen fun _ => .done (Expr.group inner) :=
    ((readers.disjunction n).andThen fun inner =>
      (Steady.expect .rparen (by decide)).andThen fun _ => .done _).succ
  -- A token with a literal value or a name is taken, and that is all.
  have taken {t : Token} (e : Expr) (notEnd : t.kind ≠ .eof)
      (same : ∀ ts, current ts = t → primary (depth + 1) ts = .done e (ts.drop 1)) :
      LooksAt 1 (depth + 1) n (primary (depth + 1)) t := by
    have result : Steady 1 (depth + 1) n (Parsed.done e) := .done e
    exact .takes notEnd result (Nat.le_add_right 1 7) (Nat.le_succ n) same
  refine .ofCurrent fun t => ?_
  cases value : literalValue? t with
  | some v =>
    have literal := Derives.literal (literalValue?_eq_some.mp value)
    refine taken (.literal v) (literal.no_end t List.mem_cons_self) fun ts first => ?_
    simp only [primary, first, value]
  | none =>
    cases kind : t.kind with
    | identifier =>
      refine taken (.name t.text) (ne_of_eq_of_ne kind (by decide)) fun ts first => ?_
      simp only [primary, first, value, kind]
    | lbracket =>
      refine .takes (ne_of_eq_of_ne kind (by decide)) array (by omega) (Nat.le_succ n)
        fun ts first => ?_
      simp only [primary, first, value, kind]
    | lparen =>
      refine .takes (ne_of_eq_of_ne kind (by decide)) group (by omega) (Nat.le_succ n)
        fun ts first => ?_
      simp only [primary, first, value, kind]
    | _ =>
      refine .leaves (.stopped (.unexpectedToken t.text) (by simp)) fun ts first => ?_
      simp only [primary, first, value, kind]

theorem items_steady (readers : ReadersSteady depth) {closing : TokenKind} (ne : closing ≠ .eof)
    (n : Nat) : Steady 7 (depth + 1) n (items (depth + 1) closing) := by
  have close (es : List Expr) : Steady 7 (depth + 1) n fun rest =>
      (expect closing rest).andThen fun _ => .done es :=
    (Steady.expect closing ne).andThen fun _ => .done es
  have shrinks := ((readersLocal depth).disjunction 0).shrinks
  have listed : Steady 7 (depth + 1) n fun ts => ((disjunction depth ts).andThen fun e rest =>
      (moreItems (disjunction depth) rest).andThen fun es => .done (e :: es)).andThen fun es rest =>
        (expect closing rest).andThen fun _ => .done es :=
    ((readers.disjunction n).andThen fun e =>
      (moreItems_steady shrinks readers.disjunction n).andThen fun es => .done _).succ.andThen close
  refine .ofCurrent fun t => ?_
  by_cases closes : t.kind = closing
  · refine .leaves ((Steady.done []).andThen close) fun ts first => ?_
    rw [items, first, if_pos closes]
  · exact .leaves listed fun ts first => by rw [items, first, if_neg closes]

/-- However many calls may be within each other, the readers end alike on lists that have the same
tokens before the end. -/
theorem readersSteady : ∀ depth, ReadersSteady depth
  | 0 => by
    -- Without a call to spare every reader stops at once.
    constructor <;> intros <;> exact .refused (Nat.succ_pos _)
  | depth + 1 => by
    have readers := readersSteady depth
    have shrinks := readersLocal depth
    exact ⟨level_steady (shrinks.conjunction 0).shrinks readers.conjunction,
      level_steady (shrinks.comparison 0).shrinks readers.comparison,
      level_steady (shrinks.negation 0).shrinks readers.negation,
      negation_steady readers, postfixed_steady readers, primary_steady readers,
      fun closing n ne => items_steady readers ne n⟩

/-- Whole expressions are read so, too. -/
theorem parse_steady (n : Nat) : Steady 6 callDepth n Expr.parse := by
  have atEnd (e : Expr) : Steady 6 callDepth n fun rest =>
      if (current rest).kind = .eof then .done e rest
      else .stopped (.unexpectedToken (current rest).text) rest := by
    refine .ofCurrent fun t => ?_
    by_cases isEnd : t.kind = .eof
    · exact .leaves (.done e) fun ts first => by rw [first, if_pos isEnd]
    · exact .leaves (.stopped (.unexpectedToken t.text) (by simp)) fun ts first => by
        rw [first, if_neg isEnd]
  refine .ofCurrent fun t => ?_
  by_cases isEnd : t.kind = .eof
  · exact .leaves (.stopped .emptyExpression (by simp)) fun ts first => by
      rw [Expr.parse, first, if_pos isEnd]
  · exact .leaves (((readersSteady callDepth).disjunction n).andThen atEnd) fun ts first => by
      rw [Expr.parse, first, if_neg isEnd]

/-! ## §4 Reading any number of times -/

/-- The results of reading a number of times, each with the position after it. -/
theorem parseTimes_eq (n : Nat) (c : Cursor) :
    c.parseTimes n =
      (List.range n).map fun i => ((c.after i).parse.1, (c.after (i + 1)).position) := by
  induction n generalizing c with
  | zero => rfl
  | succ n ih =>
    have first : c.parseTimes (n + 1) = (c.parse.1, c.parse.2.position) :: c.parse.2.parseTimes n :=
      rfl
    have shifted (i : Nat) : c.parse.2.after i = c.after (i + 1) := by
      induction i with
      | zero => rfl
      | succ i ih =>
        show (c.parse.2.after i).parse.2 = (c.after (i + 1)).parse.2
        rw [ih]
    rw [first, ih, List.range_succ_eq_map, List.map_cons, List.map_map]
    simp only [Function.comp_def, shifted]
    rfl

/-- One reading takes the same tokens on two lists with the same tokens before the end, and has the
same result. -/
theorem parse_alike (noEnd : ∀ t ∈ front, t.kind ≠ .eof) (ends : SameEnd r₁ r₂) (i j : Nat) :
    ∃ used left result, front = used ++ left ∧
      Cursor.parse ⟨front ++ r₁, i⟩ = (result, ⟨left ++ r₁, i + used.length⟩) ∧
      Cursor.parse ⟨front ++ r₂, j⟩ = (result, ⟨left ++ r₂, j + used.length⟩) := by
  have alike := parse_steady (front.length + 1) front r₁ r₂ (Nat.lt_succ_self _) noEnd ends
  unfold Cursor.parse
  dsimp only
  generalize Expr.parse (front ++ r₁) = p at alike ⊢
  generalize Expr.parse (front ++ r₂) = q at alike ⊢
  -- The position is counted by what is left.
  have taken (used left r : List Token) :
      (used ++ left ++ r).length - (left ++ r).length = used.length := by
    rw [List.append_assoc, List.length_append, Nat.add_sub_cancel]
  cases alike with
  | done used left e split =>
    exact ⟨used, left, .ok e, split, by simp only [split, taken, and_self]⟩
  | @stopped used left cause split _ =>
    exact ⟨used, left, .error cause, split, by simp only [split, taken, and_self]⟩

/-- So does any number of readings. -/
theorem after_alike (noEnd : ∀ t ∈ front, t.kind ≠ .eof) (ends : SameEnd r₁ r₂) (n : Nat) :
    ∃ used left, front = used ++ left ∧
      (Cursor.start (front ++ r₁)).after n = ⟨left ++ r₁, used.length⟩ ∧
      (Cursor.start (front ++ r₂)).after n = ⟨left ++ r₂, used.length⟩ := by
  induction n with
  | zero => exact ⟨[], front, rfl, rfl, rfl⟩
  | succ n ih =>
    obtain ⟨used, left, split, first, second⟩ := ih
    have noEnd : ∀ t ∈ left, t.kind ≠ .eof := (List.forall_mem_append.mp (split ▸ noEnd)).2
    obtain ⟨more, left, result, same, read₁, read₂⟩ :=
      parse_alike noEnd ends used.length used.length
    refine ⟨used ++ more, left, by rw [split, same, List.append_assoc], ?_, ?_⟩
    · rw [Cursor.after, first, read₁, List.length_append]
    · rw [Cursor.after, second, read₂, List.length_append]

/-- So the results and the positions are the same. -/
theorem parseTimes_alike (noEnd : ∀ t ∈ front, t.kind ≠ .eof) (ends : SameEnd r₁ r₂) (n : Nat) :
    (Cursor.start (front ++ r₁)).parseTimes n = (Cursor.start (front ++ r₂)).parseTimes n := by
  rw [parseTimes_eq, parseTimes_eq]
  refine List.map_congr_left fun i _ => ?_
  obtain ⟨used, left, split, first, second⟩ := after_alike noEnd ends i
  have noEnd : ∀ t ∈ left, t.kind ≠ .eof := (List.forall_mem_append.mp (split ▸ noEnd)).2
  obtain ⟨more, left, result, -, read₁, read₂⟩ := parse_alike noEnd ends used.length used.length
  rw [Cursor.after, Cursor.after, first, second, read₁, read₂]

/-- At the end there is nothing to read, now and later. -/
theorem parse_at_end {ts : List Token} (atEnd : (current ts).kind = .eof) (position : Nat) :
    Cursor.parse ⟨ts, position⟩ = (.error .emptyExpression, ⟨ts, position⟩) := by
  unfold Cursor.parse Expr.parse
  simp only [if_pos atEnd, Nat.sub_self, Nat.add_zero]

theorem current_of_parse_done {ts rest : List Token} {e : Expr}
    (read : Expr.parse ts = .done e rest) : (current rest).kind = .eof := by
  unfold Expr.parse at read
  split at read
  · cases read
  · obtain ⟨_, _, _, ended⟩ := andThen_eq_done read
    split at ended
    · rename_i atEnd
      cases ended
      exact atEnd
    · cases ended

/-- A reading that succeeds comes to the end. -/
theorem current_of_parse_ok {c : Cursor} {e : Expr} (read : c.parse.1 = .ok e) :
    (current c.parse.2.rest).kind = .eof := by
  unfold Cursor.parse at read ⊢
  cases parsed : Expr.parse c.rest with
  | stopped cause rest =>
    rw [parsed] at read
    cases read
  | done e rest => exact current_of_parse_done parsed

/-! ## §5 Whole token lists -/

/-- The token list with an end token behind it, unless it ends in one. -/
def withEnd (ts : List Token) : List Token :=
  if ts.getLast?.map Token.kind = some .eof then ts else ts ++ [.eof]

theorem no_end_beforeEnd (ts : List Token) : ∀ t ∈ beforeEnd ts, t.kind ≠ .eof :=
  fun t mem => of_decide_eq_true (List.all_eq_true.mp List.all_takeWhile t mem)

/-- In a list with an end token behind it, there is a first end token. -/
theorem withEnd_eq (ts : List Token) : ∃ e more, withEnd ts = beforeEnd ts ++ e :: more ∧
    e.kind = .eof ∧ current (fromEnd ts) = e := by
  have isEnd := current_fromEnd ts
  have split := beforeEnd_append_fromEnd ts
  cases rest : fromEnd ts with
  | cons e others =>
    rw [rest] at isEnd split
    unfold withEnd
    split
    · exact ⟨e, others, split.symm, isEnd, rfl⟩
    · refine ⟨e, others ++ [.eof], ?_, isEnd, rfl⟩
      rw [← List.cons_append, ← List.append_assoc, split]
  | nil =>
    rw [rest, List.append_nil] at split
    -- Without an end token, the one that is added is the first.
    have notLast : ts.getLast?.map Token.kind ≠ some .eof := by
      intro last
      obtain ⟨t, found, kind⟩ := Option.map_eq_some_iff.mp last
      have mem := List.mem_of_getLast? found
      rw [← split] at mem
      exact no_end_beforeEnd ts t mem kind
    exact ⟨.eof, [], by rw [withEnd, if_neg notLast, split], rfl, rfl⟩

/-! ## §6 Every reading -/

/-- The first end is next exactly if no token is left before it. -/
theorem current_append_isEnd {left r : List Token} (noEnd : ∀ t ∈ left, t.kind ≠ .eof)
    (isEnd : (current r).kind = .eof) : (current (left ++ r)).kind = .eof ↔ left = [] := by
  cases left with
  | nil => exact iff_of_true isEnd rfl
  | cons t left => exact iff_of_false (noEnd t List.mem_cons_self) (List.cons_ne_nil t left)

/-- Where the cursor is after a number of readings: behind some of the tokens before the end. -/
structure At (ts : List Token) (c : Cursor) (used left : List Token) : Prop where
  split : beforeEnd ts = used ++ left
  cursor : c = ⟨left ++ fromEnd ts, used.length⟩

namespace At

variable {ts used left : List Token} {c : Cursor}

theorem no_end (h : At ts c used left) : ∀ t ∈ left, t.kind ≠ .eof :=
  (List.forall_mem_append.mp (h.split ▸ no_end_beforeEnd ts)).2

theorem length (h : At ts c used left) : (beforeEnd ts).length = used.length + left.length := by
  rw [h.split, List.length_append]

theorem position_eq_iff (h : At ts c used left) :
    c.position = (beforeEnd ts).length ↔ (current c.rest).kind = .eof := by
  have length := h.length
  rw [h.cursor, current_append_isEnd h.no_end (current_fromEnd ts), ← List.length_eq_zero_iff]
  dsimp only
  omega

/-- The next reading goes on behind the tokens that it takes.  A list that has the same tokens left
before the same end is read alike. -/
theorem next {r : List Token} (h : At ts c used left) (ends : SameEnd (fromEnd ts) r) :
    ∃ taken rest, At ts c.parse.2 (used ++ taken) rest ∧
      (Cursor.start (left ++ r)).parse = (c.parse.1, ⟨rest ++ r, taken.length⟩) := by
  obtain ⟨taken, rest, result, same, read, readFresh⟩ := parse_alike h.no_end ends used.length 0
  rw [Nat.zero_add] at readFresh
  rw [h.cursor, read]
  refine ⟨taken, rest, ⟨?_, ?_⟩, readFresh⟩
  · rw [h.split, same, List.append_assoc]
  · rw [List.length_append]

/-- Reading takes some tokens and does not get behind the end. -/
theorem position_le (h : At ts c used left) :
    c.position ≤ c.parse.2.position ∧ c.parse.2.position ≤ (beforeEnd ts).length := by
  obtain ⟨taken, rest, there, -⟩ := h.next ⟨rfl, current_fromEnd ts⟩
  have length := there.length
  rw [List.length_append] at length
  rw [there.cursor, h.cursor, List.length_append]
  exact ⟨Nat.le_add_right _ _, by dsimp only; omega⟩

/-- With seven calls for each token that is left and six more, no reading is nested too deeply. -/
theorem not_nestedTooDeeply (h : At ts c used left)
    (enough : 7 * ((beforeEnd ts).length - c.position) + 6 ≤ depth) (stop : List Token) :
    disjunction depth c.rest ≠ .stopped .nestedTooDeeply stop := by
  intro refused
  have length := h.length
  have alike := (readersSteady depth).disjunction (left.length + 1) left (fromEnd ts) (fromEnd ts)
    (Nat.lt_succ_self _) h.no_end ⟨rfl, current_fromEnd ts⟩
  rw [h.cursor] at refused enough
  dsimp only at refused enough
  rw [refused] at alike
  cases alike with
  | stopped _ _ _ shallow => exact shallow (by omega) rfl

end At

theorem exists_at (ts : List Token) (n : Nat) :
    ∃ used left, At ts ((Cursor.start ts).after n) used left := by
  obtain ⟨used, left, split, same, -⟩ :=
    after_alike (no_end_beforeEnd ts) ⟨rfl, current_fromEnd ts⟩ n
  rw [beforeEnd_append_fromEnd] at same
  exact ⟨used, left, split, same⟩

/-- At the first end every reading finds an empty expression and stays there. -/
theorem after_of_position_eq {ts : List Token} {m n : Nat} (le : n ≤ m)
    (reached : ((Cursor.start ts).after n).position = (beforeEnd ts).length) :
    ((Cursor.start ts).after m).parse.1 = .error .emptyExpression ∧
      ((Cursor.start ts).after (m + 1)).position = (beforeEnd ts).length := by
  have stays : ((Cursor.start ts).after m).position = (beforeEnd ts).length := by
    induction le with
    | refl => exact reached
    | @step m _ ih =>
      obtain ⟨_, _, there⟩ := exists_at ts m
      exact Nat.le_antisymm there.position_le.2 (ih ▸ there.position_le.1)
  obtain ⟨_, _, there⟩ := exists_at ts m
  have read := parse_at_end (there.position_eq_iff.mp stays) ((Cursor.start ts).after m).position
  have next : (Cursor.start ts).after (m + 1) = ((Cursor.start ts).after m).parse.2 := rfl
  rw [next, read]
  exact ⟨rfl, stays⟩

/-- **Reading again goes on from where reading stopped.**  In a token list with an end behind it
there is a first end token, and what stands behind this token makes no difference to any number of
readings.  Each of them starts at a token of the list, does what the first reading of the tokens
from there on does, and stops there or farther on, but not behind the first end.  If it succeeds it
stops at this end, and from then on every reading finds an empty expression and stays.  With seven
calls for each token up to the end and six more, no reading is refused for too deep nesting. -/
theorem parse_resumes (ts : List Token) :
    let tokens := withEnd ts
    let last := (beforeEnd ts).length
    let c n := (Cursor.start ts).after n
    let fresh n := (Cursor.start (tokens.drop (c n).position)).parse
    ((∃ e, tokens[last]? = some e ∧ e.kind = .eof) ∧
      ∀ i < last, ∀ t, tokens[i]? = some t → t.kind ≠ .eof) ∧
    (∀ us, tokens.take (last + 1) <+: us → ∀ n,
      (Cursor.start us).parseTimes n = (Cursor.start ts).parseTimes n) ∧
    (∀ n, (Cursor.start ts).parseTimes n =
      (List.range n).map fun i => ((c i).parse.1, (c (i + 1)).position)) ∧
    ∀ n,
      (tokens[(c n).position]? = some (current (c n).rest) ∧
        (c n).position ≤ (c (n + 1)).position ∧ (c (n + 1)).position ≤ last) ∧
      ((c n).parse.1 = (fresh n).1 ∧
        (c (n + 1)).position = (c n).position + (fresh n).2.position) ∧
      (∀ e, (c n).parse.1 = .ok e → (c (n + 1)).position = last ∧
        ∀ m > n, (c m).parse.1 = .error .emptyExpression ∧ (c (m + 1)).position = last) ∧
      ∀ depth, 7 * (last - (c n).position) + 6 ≤ depth →
        ∀ stop, disjunction depth (c n).rest ≠ .stopped .nestedTooDeeply stop := by
  intro tokens last c fresh
  obtain ⟨e, more, same, isEnd, sameEnd⟩ := withEnd_eq ts
  have same : tokens = beforeEnd ts ++ e :: more := same
  have ends (others : List Token) : SameEnd (fromEnd ts) (e :: others) :=
    ⟨sameEnd, sameEnd ▸ isEnd⟩
  refine ⟨⟨⟨e, ?_, isEnd⟩, fun i lt t found => ?_⟩, fun us start n => ?_,
    fun n => parseTimes_eq n _, fun n => ?_⟩
  · rw [same, List.getElem?_append_right (Nat.le_refl _), Nat.sub_self]
    rfl
  · rw [same, List.getElem?_append_left lt] at found
    exact no_end_beforeEnd ts t (List.mem_of_getElem? found)
  · -- Whatever stands behind the first end, the tokens before it and this end are the same.
    obtain ⟨others, rfl⟩ := start
    rw [same, List.take_length_add_append, List.append_assoc]
    have alike := parseTimes_alike (no_end_beforeEnd ts) (ends others) n
    rw [beforeEnd_append_fromEnd] at alike
    exact alike.symm
  · obtain ⟨used, left, place⟩ : ∃ used left, At ts (c n) used left := exists_at ts n
    have dropped : tokens.drop (c n).position = left ++ e :: more := by
      rw [same, place.cursor, place.split, List.append_assoc, List.drop_left]
    refine ⟨⟨?_, place.position_le⟩, ?_, fun a read => ?_, fun depth => place.not_nestedTooDeeply⟩
    · have first : (tokens.drop (c n).position).head? = some (current (c n).rest) := by
        rw [dropped, place.cursor]
        cases left with
        | nil => exact congrArg some sameEnd.symm
        | cons t left => rfl
      rwa [List.head?_drop] at first
    · obtain ⟨taken, rest, there, readFresh⟩ := place.next (ends more)
      have read : fresh n = ((c n).parse.1, ⟨rest ++ e :: more, taken.length⟩) := by
        rw [← readFresh, ← dropped]
      have next : c (n + 1) = ⟨rest ++ fromEnd ts, (used ++ taken).length⟩ := there.cursor
      rw [read, next, List.length_append]
      exact ⟨rfl, congrArg (·.position + taken.length) place.cursor.symm⟩
    · obtain ⟨_, _, there⟩ := exists_at ts (n + 1)
      have reached := there.position_eq_iff.mpr (current_of_parse_ok read)
      exact ⟨reached, fun m later => after_of_position_eq later reached⟩

/-- The token that stopped one reading is the first of the next, and what stands behind the end is
never read. -/
theorem parse_resumes_two_names :
    let a : Token := ⟨.identifier, "a"⟩
    let b : Token := ⟨.identifier, "b"⟩
    let start := Cursor.start [a, b, .eof, a]
    start.parse.1 = .error (.unexpectedToken "b") ∧
      (start.after 1).parse.1 = .ok (.name "b") ∧
      (∀ n > 1, (start.after n).parse.1 = .error .emptyExpression ∧
        (start.after (n + 1)).position = 2) ∧
      ∀ n, start.parseTimes n = (Cursor.start [a, b, .eof]).parseTimes n := by
  intro a b start
  obtain ⟨-, alike, -, reading⟩ := parse_resumes [a, b, .eof, a]
  have first : start.parse.1 = .error (.unexpectedToken "b") := by cbv
  have second : (start.after 1).parse.1 = .ok (.name "b") := by cbv
  obtain ⟨-, -, stopped, -⟩ := reading 1
  exact ⟨first, second, (stopped _ second).2, fun n => (alike _ (List.prefix_refl _) n).symm⟩

end Grammar

end Visibility
