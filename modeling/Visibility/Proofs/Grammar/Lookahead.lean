import Visibility.Proofs.Grammar.Completeness

/-!
# How far reading looks ahead

Reading from the front of a token list looks at the tokens that it takes and at the one after them.
So two token lists with the same front are read alike, as long as reading stops at a token of that
front.

* `SameUntil` — two readings end at the same token, or both of them come to where their token lists
  part
* `Local` — a reader is such that all its readings of lists with the same front are so
* `leftChain_local`, `moreItems_local`, `postfixChain_local` — the repetitions of local readers are
  local, by induction on the length of the front
* `readersLocal` — the levels, by induction on the number of calls within each other
* `parse_local` — so reading a whole expression is local, too
-/

namespace Visibility.Grammar

open Visibility.Expr

variable {α β : Type} {n : Nat}

/-! ## §1 Local readers -/

/-- Two readings of token lists that end with `r₁` and `r₂` and are the same before.  Either both
end at the same token before, and in the same way, or both use all tokens before. -/
inductive SameUntil (r₁ r₂ : List Token) : Parsed α → Parsed α → Prop where
  | done {front : List Token} (a : α) : front ≠ [] →
      SameUntil r₁ r₂ (.done a (front ++ r₁)) (.done a (front ++ r₂))
  | stopped {front : List Token} (cause : SyntaxError) : front ≠ [] →
      SameUntil r₁ r₂ (.stopped cause (front ++ r₁)) (.stopped cause (front ++ r₂))
  | past {p q : Parsed α} : p.rest.length ≤ r₁.length → q.rest.length ≤ r₂.length →
      SameUntil r₁ r₂ p q

/-- A reader leaves no more tokens than it is given, wherever it stops. -/
def Shrinks (f : List Token → Parsed α) : Prop :=
  ∀ ts, (f ts).rest.length ≤ ts.length

/-- A reader depends on the token at which it stops and on those before it.  The number bounds the
fronts for which this is said. -/
structure Local (n : Nat) (f : List Token → Parsed α) : Prop where
  shrinks : Shrinks f
  same : ∀ front r₁ r₂, front.length ≤ n → SameUntil r₁ r₂ (f (front ++ r₁)) (f (front ++ r₂))

theorem Shrinks.andThen {f : List Token → Parsed α} {next : α → List Token → Parsed β}
    (first : Shrinks f) (second : ∀ a, Shrinks (next a)) :
    Shrinks fun ts => (f ts).andThen next := by
  intro ts
  have shorter := first ts
  dsimp only
  cases read : f ts with
  | done a rest =>
    rw [read] at shorter
    exact Nat.le_trans (second a rest) shorter
  | stopped cause rest =>
    rw [read] at shorter
    exact shorter

namespace Local

variable {f g : List Token → Parsed α}

/-- Where the front is empty, nothing is the same but that both readings go past it. -/
theorem of_shrinks (shrinks : Shrinks f) : Local 0 f where
  shrinks := shrinks
  same front r₁ r₂ empty := by
    obtain rfl := List.eq_nil_of_length_eq_zero (Nat.le_zero.mp empty)
    exact .past (shrinks r₁) (shrinks r₂)

theorem of_nonempty (shrinks : Shrinks f)
    (same : ∀ t front r₁ r₂, front.length + 1 ≤ n →
      SameUntil r₁ r₂ (f (t :: (front ++ r₁))) (f (t :: (front ++ r₂)))) : Local n f where
  shrinks := shrinks
  same front r₁ r₂ bounded := by
    cases front with
    | nil => exact .past (shrinks r₁) (shrinks r₂)
    | cons t front => exact same t front r₁ r₂ bounded

/-- What goes on with what was read starts within the front, or past it. -/
theorem andThen {next : α → List Token → Parsed β} (first : Local n f)
    (second : ∀ a, Local n (next a)) : Local n fun ts => (f ts).andThen next where
  shrinks := first.shrinks.andThen fun a => (second a).shrinks
  same front r₁ r₂ bounded := by
    have onward {p : Parsed α} {r : List Token} (le : p.rest.length ≤ r.length) :
        (p.andThen next).rest.length ≤ r.length := by
      cases p with
      | done a rest => exact Nat.le_trans ((second a).shrinks rest) le
      | stopped cause rest => exact le
    have shorter := first.shrinks (front ++ r₁)
    have both := first.same front r₁ r₂ bounded
    generalize f (front ++ r₁) = p at both shorter
    generalize f (front ++ r₂) = q at both
    -- Either the first reading ends within the front, and the second one has the rest of it in
    -- common, or nothing is left to agree on.
    cases both with
    | @done left a nonempty =>
      have : left.length ≤ n := by
        simp only [Parsed.rest, List.length_append] at shorter
        omega
      exact (second a).same left r₁ r₂ this
    | stopped cause nonempty => exact .stopped cause nonempty
    | past le₁ le₂ => exact .past (onward le₁) (onward le₂)

theorem done (a : α) : Local n (Parsed.done a) :=
  of_nonempty (fun _ => Nat.le_refl _) fun t front r₁ r₂ _ => by
    have nonempty : t :: front ≠ [] := List.cons_ne_nil t front
    exact .done a nonempty

theorem stopped (cause : SyntaxError) : Local n (Parsed.stopped (α := α) cause) :=
  of_nonempty (fun _ => Nat.le_refl _) fun t front r₁ r₂ _ => by
    have nonempty : t :: front ≠ [] := List.cons_ne_nil t front
    exact .stopped cause nonempty

/-- A reader may look at the first token: it is local if it is some local reader for each of them.
-/
theorem ofCurrent (each : ∀ t, ∃ g, Local n g ∧ ∀ ts, current ts = t → f ts = g ts) :
    Local n f := by
  refine of_nonempty (fun ts => ?_) fun t front r₁ r₂ bounded => ?_
  · obtain ⟨g, isLocal, same⟩ := each (current ts)
    rw [same ts rfl]
    exact isLocal.shrinks ts
  · obtain ⟨g, isLocal, same⟩ := each t
    rw [same (t :: (front ++ r₁)) rfl, same (t :: (front ++ r₂)) rfl]
    exact isLocal.same (t :: front) r₁ r₂ bounded

/-- A reader may leave the first token out. -/
theorem drop {m : Nat} (h : Local m f) (le : n ≤ m + 1) : Local n fun ts => f (ts.drop 1) := by
  refine of_nonempty (fun ts => ?_) fun t front r₁ r₂ bounded => h.same front r₁ r₂ (by omega)
  have := h.shrinks (ts.drop 1)
  rw [List.length_drop] at this
  omega

theorem expect (kind : TokenKind) : Local n (expect kind) :=
  ofCurrent fun t => by
    by_cases same : t.kind = kind
    · exact ⟨_, (done t).drop (Nat.le_succ n), fun ts first => by
        rw [Visibility.Expr.expect, first, if_pos same]⟩
    · exact ⟨_, stopped _, fun ts first => by rw [Visibility.Expr.expect, first, if_neg same]⟩

end Local

/-! ## §2 Repetitions -/

section Repetitions

variable {accepts : Operator → Bool} {operand : List Token → Parsed Expr}
variable {arguments : List Token → Parsed (List Expr)}

theorem leftChain_eq (shrinks : Shrinks operand) (left : Expr) (ts : List Token) :
    leftChain accepts operand left ts =
      if (current ts).kind = .operator ∧ accepts (.ofText (current ts).text) then
        (operand (ts.drop 1)).andThen fun right =>
          leftChain accepts operand (.binary (.ofText (current ts).text) left right)
      else .done left ts := by
  cases ts with
  | nil => rw [leftChain, if_neg fun h => absurd h.1 (by decide)]
  | cons t rest =>
    rw [leftChain]
    -- The two differ in the check that the operand got shorter, which never fails.
    refine if_congr Iff.rfl ?_ rfl
    have shorter := shrinks rest
    simp only [List.drop_succ_cons, List.drop_zero]
    cases read : operand rest with
    | stopped cause stop => rfl
    | done right more =>
      rw [read] at shorter
      exact dif_pos shorter

theorem moreItems_eq (shrinks : Shrinks operand) (ts : List Token) :
    moreItems operand ts =
      if (current ts).kind = .comma then
        (operand (ts.drop 1)).andThen fun e more =>
          (moreItems operand more).andThen fun es => .done (e :: es)
      else .done [] ts := by
  cases ts with
  | nil => rw [moreItems, if_neg (by decide)]
  | cons t rest =>
    rw [moreItems]
    refine if_congr Iff.rfl ?_ rfl
    -- The comparison of lengths is there for the recursion only and always holds.
    have shorter := shrinks rest
    simp only [List.drop_succ_cons, List.drop_zero]
    cases read : operand rest with
    | stopped cause stop => rfl
    | done e more =>
      rw [read] at shorter
      exact dif_pos shorter

theorem postfixChain_eq (shrinks : Shrinks arguments) (object : Expr) (ts : List Token) :
    postfixChain arguments object ts =
      if (current ts).kind = .dot then
        (expect .identifier (ts.drop 1)).andThen fun property rest =>
          if (current rest).kind = .lparen then
            (arguments (rest.drop 1)).andThen fun es =>
              postfixChain arguments (.call object property.text es)
          else postfixChain arguments (.member object property.text) rest
      else .done object ts := by
  cases ts with
  | nil => rw [postfixChain, if_neg (by decide)]
  | cons dot rest =>
    cases rest with
    | nil => rw [postfixChain.eq_def]; rfl
    | cons property rest =>
      rw [postfixChain.eq_def]
      refine if_congr Iff.rfl ?_ rfl
      simp only [List.drop_succ_cons, List.drop_zero, Visibility.Expr.expect, current,
        List.head?_cons, Option.getD_some]
      by_cases named : property.kind = .identifier
      · rw [if_pos named, if_pos named]
        refine if_congr Iff.rfl ?_ rfl
        -- Here, too, the comparison of lengths always holds.
        have shorter := shrinks (rest.drop 1)
        cases read : arguments (rest.drop 1) with
        | stopped cause stop => rfl
        | done es more =>
          rw [read, List.length_drop] at shorter
          exact dif_pos (Nat.le_trans shorter (Nat.sub_le _ _))
      · rw [if_neg named, if_neg named]
        rfl

theorem leftChain_shrinks (shrinks : Shrinks operand) (left : Expr) :
    Shrinks (leftChain accepts operand left) := by
  intro ts
  fun_induction leftChain accepts operand left ts with
  | case1 | case5 => exact Nat.le_refl _
  | case2 left t rest _ cause stop read =>
    have shorter := shrinks rest
    rw [read] at shorter
    exact Nat.le_succ_of_le shorter
  | case3 left t rest _ right more read joined shorter ih =>
    exact Nat.le_trans ih (Nat.le_succ_of_le shorter)
  | case4 left t rest _ right more read joined longer =>
    have shorter := shrinks rest
    rw [read] at shorter
    exact absurd shorter longer

theorem moreItems_shrinks (shrinks : Shrinks operand) : Shrinks (moreItems operand) := by
  intro ts
  fun_induction moreItems operand ts with
  | case1 | case5 => exact Nat.le_refl _
  | case2 t rest _ cause stop read =>
    have shorter := shrinks rest
    rw [read] at shorter
    exact Nat.le_succ_of_le shorter
  | case3 t rest _ e more read shorter ih =>
    refine Nat.le_trans ?_ (Nat.le_succ_of_le shorter)
    cases others : moreItems operand more <;> rw [others] at ih <;> exact ih
  | case4 t rest _ e more read longer =>
    have shorter := shrinks rest
    rw [read] at shorter
    exact absurd shorter longer

theorem postfixChain_shrinks (shrinks : Shrinks arguments) (object : Expr) :
    Shrinks (postfixChain arguments object) := by
  intro ts
  fun_induction postfixChain arguments object ts with
  | case1 | case8 => exact Nat.le_refl _
  | case2 object dot _ => exact Nat.zero_le _
  | case3 object dot _ property rest _ _ cause stop read =>
    have shorter := shrinks (rest.drop 1)
    rw [read, List.length_drop] at shorter
    simp only [Parsed.rest, List.length_cons] at shorter ⊢
    omega
  | case4 object dot _ property rest _ _ es more read call shorter ih =>
    simp only [List.length_cons]
    omega
  | case5 object dot _ property rest _ _ es more read call longer =>
    have shorter := shrinks (rest.drop 1)
    rw [read, List.length_drop] at shorter
    -- The arguments cannot leave more than they were given.
    exact absurd (Nat.le_trans shorter (Nat.sub_le _ _)) longer
  | case6 object dot _ property rest _ _ ih =>
    simp only [List.length_cons]
    omega
  | case7 object dot _ property rest _ => exact Nat.le_succ _

/-- By induction on the bound of the front, of which every operand takes at least its operator. -/
theorem leftChain_local (operands : ∀ n, Local n operand) (n : Nat) (left : Expr) :
    Local n (leftChain accepts operand left) := by
  have shrinks := (operands 0).shrinks
  induction n generalizing left with
  | zero => exact .of_shrinks (leftChain_shrinks shrinks left)
  | succ n ih =>
    refine .ofCurrent fun t => ?_
    by_cases accepted : t.kind = .operator ∧ accepts (.ofText t.text)
    · have chain : Local n fun ts => (operand ts).andThen fun right =>
          leftChain accepts operand (.binary (.ofText t.text) left right) :=
        (operands n).andThen fun right => ih _
      exact ⟨_, chain.drop (Nat.le_refl _), fun ts first => by
        rw [leftChain_eq shrinks, first, if_pos accepted]⟩
    · exact ⟨_, .done left, fun ts first => by
        rw [leftChain_eq shrinks, first, if_neg accepted]⟩

/-- Here every item takes at least its comma. -/
theorem moreItems_local (operands : ∀ n, Local n operand) (n : Nat) :
    Local n (moreItems operand) := by
  have shrinks := (operands 0).shrinks
  induction n with
  | zero => exact .of_shrinks (moreItems_shrinks shrinks)
  | succ n ih =>
    refine .ofCurrent fun t => ?_
    by_cases comma : t.kind = .comma
    · have another : Local n fun ts => (operand ts).andThen fun e more =>
          (moreItems operand more).andThen fun es => .done (e :: es) :=
        (operands n).andThen fun e => ih.andThen fun es => .done _
      exact ⟨_, another.drop (Nat.le_refl _), fun ts first => by
        rw [moreItems_eq shrinks, first, if_pos comma]⟩
    · exact ⟨_, .done [], fun ts first => by rw [moreItems_eq shrinks, first, if_neg comma]⟩

/-- And here every member or call takes at least its dot. -/
theorem postfixChain_local (lists : ∀ n, Local n arguments) (n : Nat) (object : Expr) :
    Local n (postfixChain arguments object) := by
  have shrinks := (lists 0).shrinks
  induction n generalizing object with
  | zero => exact .of_shrinks (postfixChain_shrinks shrinks object)
  | succ n ih =>
    -- After the name, the next token tells whether it is a call.
    have afterName (property : Token) : Local n fun rest =>
        if (current rest).kind = .lparen then
          (arguments (rest.drop 1)).andThen fun es =>
            postfixChain arguments (.call object property.text es)
        else postfixChain arguments (.member object property.text) rest := by
      refine .ofCurrent fun t => ?_
      by_cases opens : t.kind = .lparen
      · have call : Local n fun ts => (arguments ts).andThen fun es =>
            postfixChain arguments (.call object property.text es) :=
          (lists n).andThen fun es => ih _
        exact ⟨_, call.drop (Nat.le_succ n), fun ts first => by rw [first, if_pos opens]⟩
      · exact ⟨_, ih _, fun ts first => by rw [first, if_neg opens]⟩
    refine .ofCurrent fun t => ?_
    by_cases dot : t.kind = .dot
    · exact ⟨_, ((Local.expect .identifier).andThen afterName).drop (Nat.le_refl _),
        fun ts first => by rw [postfixChain_eq shrinks, first, if_pos dot]⟩
    · exact ⟨_, .done object, fun ts first => by
        rw [postfixChain_eq shrinks, first, if_neg dot]⟩

end Repetitions

/-! ## §3 The levels -/

/-- The functions of the reader are local if `depth` calls may be within each other. -/
structure ReadersLocal (depth : Nat) : Prop where
  disjunction : ∀ n, Local n (disjunction depth)
  conjunction : ∀ n, Local n (conjunction depth)
  comparison : ∀ n, Local n (comparison depth)
  negation : ∀ n, Local n (negation depth)
  postfixed : ∀ n, Local n (postfixExpr depth)
  primary : ∀ n, Local n (primary depth)
  items : ∀ closing n, Local n (items depth closing)

theorem negation_local {depth : Nat} (readers : ReadersLocal depth) (n : Nat) :
    Local n (negation (depth + 1)) := by
  refine .ofCurrent fun t => ?_
  by_cases isNot : (if t.kind = .operator then some (Operator.ofText t.text) else none) = some .not
  · have operand : Local n fun ts =>
        (negation depth ts).andThen fun operand => .done (Expr.unary .not operand) :=
      (readers.negation n).andThen fun operand => .done _
    exact ⟨_, operand.drop (Nat.le_succ n), fun ts first => by
      rw [negation, currentOperator?, first, if_pos isNot]⟩
  · exact ⟨_, readers.postfixed n, fun ts first => by
      rw [negation, currentOperator?, first, if_neg isNot]⟩

theorem primary_local {depth : Nat} (readers : ReadersLocal depth) (n : Nat) :
    Local n (primary (depth + 1)) := by
  have array : Local n fun ts => (items depth .rbracket ts).andThen fun es => .done (Expr.array es) :=
    (readers.items .rbracket n).andThen fun es => .done _
  have group : Local n fun ts => (disjunction depth ts).andThen fun inner rest =>
      (expect .rparen rest).andThen fun _ => .done (Expr.group inner) :=
    (readers.disjunction n).andThen fun inner => (Local.expect .rparen).andThen fun _ => .done _
  -- The first token decides what is read.
  refine .ofCurrent fun t => ?_
  cases value : literalValue? t with
  | some v =>
    exact ⟨_, (Local.done (.literal v)).drop (Nat.le_succ n), fun ts first => by
      simp only [primary, first, value]⟩
  | none =>
    cases kind : t.kind with
    | identifier =>
      exact ⟨_, (Local.done (.name t.text)).drop (Nat.le_succ n), fun ts first => by
        simp only [primary, first, value, kind]⟩
    | lbracket =>
      exact ⟨_, array.drop (Nat.le_succ n), fun ts first => by
        simp only [primary, first, value, kind]⟩
    | lparen =>
      exact ⟨_, group.drop (Nat.le_succ n), fun ts first => by
        simp only [primary, first, value, kind]⟩
    | _ =>
      exact ⟨_, .stopped (.unexpectedToken t.text), fun ts first => by
        simp only [primary, first, value, kind]⟩

theorem items_local {depth : Nat} (readers : ReadersLocal depth) (closing : TokenKind) (n : Nat) :
    Local n (items (depth + 1) closing) := by
  have close (es : List Expr) : Local n fun rest =>
      (expect closing rest).andThen fun _ => .done es :=
    (Local.expect closing).andThen fun _ => .done es
  have listed : Local n fun ts => ((disjunction depth ts).andThen fun e rest =>
      (moreItems (disjunction depth) rest).andThen fun es => .done (e :: es)).andThen fun es rest =>
        (expect closing rest).andThen fun _ => .done es :=
    ((readers.disjunction n).andThen fun e =>
      (moreItems_local readers.disjunction n).andThen fun es => .done _).andThen close
  refine .ofCurrent fun t => ?_
  by_cases closes : t.kind = closing
  · exact ⟨_, (Local.done []).andThen close, fun ts first => by
      rw [items, first, if_pos closes]⟩
  · exact ⟨_, listed, fun ts first => by rw [items, first, if_neg closes]⟩

/-- However many calls may be within each other, reading looks at one token beyond those it takes.
-/
theorem readersLocal : ∀ depth, ReadersLocal depth
  | 0 => by
    -- Without a call to spare, every reader stops at once.
    constructor <;> intros <;> exact .stopped _
  | depth + 1 => by
    have readers := readersLocal depth
    refine ⟨fun n => ?_, fun n => ?_, fun n => ?_, negation_local readers, fun n => ?_,
      primary_local readers, items_local readers⟩
    · exact (readers.conjunction n).andThen (leftChain_local readers.conjunction n)
    · exact (readers.comparison n).andThen (leftChain_local readers.comparison n)
    · exact (readers.negation n).andThen (leftChain_local readers.negation n)
    · exact (readers.primary n).andThen (postfixChain_local (readers.items .rparen) n)

/-- Whole expressions are read so, too. -/
theorem parse_local (n : Nat) : Local n Expr.parse := by
  have atEnd (e : Expr) : Local n fun rest => if (current rest).kind = .eof then .done e rest
      else .stopped (.unexpectedToken (current rest).text) rest := by
    refine .ofCurrent fun t => ?_
    by_cases isEnd : t.kind = .eof
    · exact ⟨_, .done e, fun ts first => by rw [first, if_pos isEnd]⟩
    · exact ⟨_, .stopped (.unexpectedToken t.text), fun ts first => by rw [first, if_neg isEnd]⟩
  have whole := ((readersLocal callDepth).disjunction n).andThen atEnd
  refine .ofCurrent fun t => ?_
  by_cases isEnd : t.kind = .eof
  · exact ⟨_, .stopped .emptyExpression, fun ts first => by rw [Expr.parse, first, if_pos isEnd]⟩
  · exact ⟨_, whole, fun ts first => by rw [Expr.parse, first, if_neg isEnd]⟩

end Visibility.Grammar
