import Visibility.Proofs.Grammar.Lookahead

/-!
# Where reading stops

If a token list is no expression, reading it stops at the first token that cannot be continued: what
stands before this token is the start of an expression, and with it that is no longer so.

* `Viable` — what a reading used can be completed, and how readings put together are so
* `leftChain_viable`, `moreItems_viable`, `postfixChain_viable` — the repetitions, each with what
  was read before it, by induction on the tokens that are left
* `readersViable` — the levels, by induction on the number of calls within each other; completing a
  phrase never needs more calls than there were
* `parse_stops_first` — whole token lists
-/

namespace Visibility.Grammar

open Visibility.Expr

variable {α β : Type}

/-! ## §1 What can be completed -/

/-- The tokens that a reading used are what is asked for, or, where it stopped, they become so with
more tokens after them.  Nothing is said of a reading that is nested too deeply. -/
inductive Viable (ok : α → List Token → Prop) : Parsed α → List Token → Prop where
  | done {a : α} {used rest : List Token} : ok a used → Viable ok (.done a rest) (used ++ rest)
  | stopped {a : α} {used more rest : List Token} (cause : SyntaxError) : ok a (used ++ more) →
      Viable ok (.stopped cause rest) (used ++ rest)
  | tooDeep {ts rest : List Token} : Viable ok (.stopped .nestedTooDeeply rest) ts

namespace Viable

variable {ok : α → List Token → Prop} {ok' : β → List Token → Prop} {p : Parsed α}
variable {ts rest : List Token}

/-- Nothing was used. -/
theorem done_nil {a : α} (h : ok a []) : Viable ok (.done a ts) ts :=
  .done h

/-- One token was used. -/
theorem done_cons {a : α} {t : Token} (h : ok a [t]) : Viable ok (.done a rest) (t :: rest) :=
  .done h

/-- Reading stopped at once. -/
theorem stopped_nil {a : α} {more : List Token} (cause : SyntaxError) (h : ok a more) :
    Viable ok (.stopped cause ts) ts := by
  have missing : ok a ([] ++ more) := h
  exact .stopped cause missing

/-- What is complete needs no more tokens. -/
theorem complete {b : β} {us : List Token} (h : ok' b us) : ∃ b more, ok' b (us ++ more) :=
  ⟨b, [], by rwa [List.append_nil]⟩

/-- Tokens that were used before are put in front. -/
theorem prepend {ok' : α → List Token → Prop} (h : Viable ok p rest) (used : List Token)
    (holds : ∀ a us, ok a us → ok' a (used ++ us)) : Viable ok' p (used ++ rest) := by
  cases h with
  | done here =>
    rw [← List.append_assoc]
    exact .done (holds _ _ here)
  | stopped cause here =>
    rw [← List.append_assoc]
    exact .stopped cause (by rw [List.append_assoc]; exact holds _ _ here)
  | tooDeep => exact .tooDeep

theorem imp {ok' : α → List Token → Prop} (h : Viable ok p ts)
    (holds : ∀ a us, ok a us → ok' a us) : Viable ok' p ts :=
  h.prepend [] holds

/-- A reading goes on: where its first part stopped, what is missing of it and all of the second
part have to be added. -/
theorem andThen {next : α → List Token → Parsed β} (first : Viable ok p ts)
    (completes : ∀ a us, ok a us → ∃ b more, ok' b (us ++ more))
    (second : ∀ a used rest, ts = used ++ rest → ok a used →
      Viable (fun b us => ok' b (used ++ us)) (next a rest) rest) :
    Viable ok' (p.andThen next) ts := by
  cases first with
  | @done a used rest here => exact (second a used rest rfl here).prepend used fun _ _ => id
  | stopped cause here =>
    obtain ⟨b, more, whole⟩ := completes _ _ here
    rw [List.append_assoc] at whole
    exact .stopped cause whole
  | tooDeep => exact .tooDeep

theorem map {f : α → β} (h : Viable ok p ts) (holds : ∀ a us, ok a us → ok' (f a) us) :
    Viable ok' (p.andThen fun a => .done (f a)) ts := by
  refine h.andThen (fun a us here => complete (holds a us here))
    fun a used rest _ here => .done_nil ?_
  rw [List.append_nil]
  exact holds a used here

end Viable

/-- A token that is missing can be put in. -/
theorem expect_viable {kind : TokenKind} (ne : kind ≠ .eof) (ts : List Token) :
    Viable (fun t us => us = [t] ∧ t.kind = kind) (expect kind ts) ts := by
  unfold expect
  split
  · rename_i same
    obtain ⟨t, rest, rfl, found⟩ := eq_cons_of_current same ne
    exact .done_cons ⟨rfl, found⟩
  · have missing : [⟨kind, ""⟩] = [Token.mk kind ""] ∧ (Token.mk kind "").kind = kind := ⟨rfl, rfl⟩
    exact .stopped_nil _ missing

/-! ## §2 Phrases and their calls -/

/-- The calls within each other by which a level gets to the tightest one. -/
def Level.calls : Level → Nat
  | .disjunction => 6
  | .conjunction => 5
  | .comparison => 4
  | .negation => 3
  | .postfixed => 2
  | .primary => 1

/-- Together with those before, the tokens are an expression of the level.  Reading its operands
takes at most `depth` calls within each other, of which `calls` are those of levels. -/
structure FitsAfter (before : List Token) (level : Level) (calls depth : Nat) (e : Expr)
    (ts : List Token) : Prop where
  derives : Derives (.expr level e) (before ++ ts)
  within : calls + openedCalls e ≤ depth

/-- The tokens are an expression of the level that is read within `depth` calls. -/
abbrev Fits (level : Level) : Nat → Expr → List Token → Prop :=
  FitsAfter [] level level.calls

/-- Together with those before, the tokens are a list whose items are read within `depth` calls. -/
structure FitsItems (before : List Token) (depth : Nat) (es : List Expr) (ts : List Token) :
    Prop where
  derives : Derives (.list es) (before ++ ts)
  within : openedCallsOfAll es ≤ depth

/-- The tokens are a list and its closing token, and it is read within `depth` calls. -/
inductive FitsList (closing : TokenKind) (depth : Nat) (es : List Expr) : List Token → Prop where
  | closed {ts : List Token} {t : Token} : Derives (.list es) ts → t.kind = closing →
      1 + openedCallsOfAll es ≤ depth → FitsList closing depth es (ts ++ [t])

variable {depth calls : Nat} {level : Level} {before ts us : List Token} {e : Expr} {t : Token}

/-- An expression that was read before needs nothing more. -/
theorem FitsAfter.nothing (derives : Derives (.expr level e) before)
    (within : calls + openedCalls e ≤ depth) : FitsAfter before level calls depth e [] :=
  ⟨by rwa [List.append_nil], within⟩

/-- What was read before counts as used. -/
theorem FitsAfter.shift (h : FitsAfter (before ++ ts) level calls depth e us) :
    FitsAfter before level calls depth e (ts ++ us) :=
  ⟨by rw [← List.append_assoc]; exact h.derives, h.within⟩

theorem FitsItems.last (first : Fits .disjunction depth e before) :
    FitsItems before depth [e] [] where
  derives := by
    rw [List.append_nil]
    exact .last first.derives
  within := by
    have : 6 + openedCalls e ≤ depth := first.within
    simpa [openedCallsOfAll] using this

theorem FitsItems.more {next : Expr} {es : List Expr} (first : Fits .disjunction depth e before)
    (comma : t.kind = .comma) (others : FitsItems ts depth (next :: es) us) :
    FitsItems before depth (e :: next :: es) (t :: (ts ++ us)) where
  derives := .more first.derives comma others.derives
  within := by
    have : 6 + openedCalls e ≤ depth := first.within
    rw [openedCallsOfAll]
    exact Nat.max_le.mpr ⟨this, others.within⟩

section Postfixed

variable {dot name opening : Token} {es : List Expr}

theorem FitsAfter.member (first : Derives (.expr .postfixed e) before)
    (within : calls + openedCalls e ≤ depth) (isDot : dot.kind = .dot)
    (named : name.kind = .identifier) :
    FitsAfter (before ++ [dot]) .postfixed calls depth (.member e name.text) [name] :=
  ⟨by simpa using first.member isDot named, by simpa only [openedCalls] using within⟩

theorem FitsAfter.call (first : Derives (.expr .postfixed e) before)
    (within : 1 + openedCalls e ≤ depth) (isDot : dot.kind = .dot)
    (named : name.kind = .identifier) (opens : opening.kind = .lparen)
    (fits : FitsList .rparen depth es us) :
    FitsAfter (before ++ [dot] ++ [name] ++ [opening]) .postfixed 1 depth
      (.call e name.text es) us := by
  obtain ⟨list, closes, enough⟩ := fits
  exact ⟨by simpa using first.call isDot named opens list closes,
    by simp only [openedCalls]; omega⟩

end Postfixed

/-! ## §3 Repetitions -/

section Repetitions

variable {accepts : Operator → Bool} {operand : List Token → Parsed Expr}
variable {arguments : List Token → Parsed (List Expr)}

/-- An operand that is missing can be put in, and then the chain ends. -/
theorem leftChain_viable {tighter : Level} (shrinks : Shrinks operand)
    (operands : ∀ ts, Viable (Fits tighter depth) (operand ts) ts)
    (join : ∀ {a b : Expr} {ts us : List Token} {t : Token}, Derives (.expr level a) ts →
      t.kind = .operator → accepts (.ofText t.text) → Derives (.expr tighter b) us →
      Derives (.expr level (.binary (.ofText t.text) a b)) (ts ++ t :: us))
    {left : Expr} (first : Derives (.expr level left) before)
    (within : tighter.calls + openedCalls left ≤ depth) (ts : List Token) :
    Viable (FitsAfter before level tighter.calls depth) (leftChain accepts operand left ts) ts := by
  induction size : ts.length using Nat.strongRecOn generalizing left before ts with
  | ind n ih =>
    -- What was read so far is the left operand; with an operator and an operand it is so again.
    rw [leftChain_eq shrinks]
    split
    · rename_i accepted
      obtain ⟨t, rest, rfl, isOperator⟩ := eq_cons_of_current accepted.1 (by decide)
      have isAccepted : accepts (.ofText t.text) := accepted.2
      have joined {right : Expr} {us : List Token} (fits : Fits tighter depth right us) :
          FitsAfter (before ++ [t]) level tighter.calls depth
            (.binary (.ofText t.text) left right) us := by
        have := fits.within
        exact ⟨by simpa using join first isOperator isAccepted fits.derives,
          by simp only [openedCalls]; omega⟩
      have chain : Viable (FitsAfter (before ++ [t]) level tighter.calls depth)
          ((operand rest).andThen fun right =>
            leftChain accepts operand (.binary (.ofText t.text) left right)) rest := by
        refine (operands rest).andThen (fun right us fits => Viable.complete (joined fits))
          fun right used more split fits => ?_
        have shorter : more.length < n := by
          rw [← size, split]
          simp only [List.length_cons, List.length_append]
          omega
        exact (ih _ shorter (joined fits).derives (joined fits).within more rfl).imp
          fun e us => .shift
      exact chain.prepend [t] fun e us => .shift
    · exact .done_nil (.nothing first within)

/-- An item that is missing after a comma can be put in, and then the list ends. -/
theorem moreItems_viable (shrinks : Shrinks operand)
    (operands : ∀ ts, Viable (Fits .disjunction depth) (operand ts) ts)
    (first : Fits .disjunction depth e before) (ts : List Token) :
    Viable (fun es => FitsItems before depth (e :: es)) (moreItems operand ts) ts := by
  induction size : ts.length using Nat.strongRecOn generalizing e before ts with
  | ind n ih =>
    rw [moreItems_eq shrinks]
    split
    · rename_i isComma
      obtain ⟨comma, rest, rfl, isComma⟩ := eq_cons_of_current isComma (by decide)
      -- After a comma the list lacks an item, or the item is there and the repetition goes on.
      have items : Viable (fun es us => FitsItems before depth (e :: es) (comma :: us))
          ((operand rest).andThen fun next more =>
            (moreItems operand more).andThen fun es => .done (next :: es)) rest := by
        refine (operands rest).andThen
          (fun next us fits => ⟨[next], [], .more first isComma (.last fits)⟩)
          fun next used more split fits => ?_
        have shorter : more.length < n := by
          rw [← size, split]
          simp only [List.length_cons, List.length_append]
          omega
        exact (ih _ shorter fits more rfl).map fun es us => .more first isComma
      exact items.prepend [comma] fun es us => id
    · exact .done_nil (.last first)

/-- After a dot and a name there may be arguments, which can be completed.  The repetition goes on
with what is left. -/
theorem afterName_viable {dot name : Token} {rest : List Token}
    (lists : ∀ ts, Viable (FitsList .rparen depth) (arguments ts) ts)
    (first : Derives (.expr .postfixed e) before) (within : 1 + openedCalls e ≤ depth)
    (isDot : dot.kind = .dot) (named : name.kind = .identifier)
    (onward : ∀ {object : Expr} {before : List Token} (more : List Token),
      more.length ≤ rest.length → Derives (.expr .postfixed object) before →
      1 + openedCalls object ≤ depth →
      Viable (FitsAfter before .postfixed 1 depth) (postfixChain arguments object more) more) :
    Viable (FitsAfter (before ++ [dot] ++ [name]) .postfixed 1 depth)
      (if (current rest).kind = .lparen then
        (arguments (rest.drop 1)).andThen fun es =>
          postfixChain arguments (.call e name.text es)
      else postfixChain arguments (.member e name.text) rest) rest := by
  split
  · rename_i isOpening
    obtain ⟨opening, others, rfl, opens⟩ := eq_cons_of_current isOpening (by decide)
    -- After a parenthesis the arguments are completed before the repetition goes on.
    have call : Viable (FitsAfter (before ++ [dot] ++ [name] ++ [opening]) .postfixed 1 depth)
        ((arguments others).andThen fun es =>
          postfixChain arguments (.call e name.text es)) others := by
      refine (lists others).andThen
        (fun es us fits => Viable.complete (.call first within isDot named opens fits))
        fun es used more split fits => ?_
      have shorter : more.length ≤ (opening :: others).length := by
        rw [split]
        simp only [List.length_cons, List.length_append]
        omega
      have read := FitsAfter.call first within isDot named opens fits
      exact (onward more shorter read.derives read.within).imp fun e us => .shift
    exact call.prepend [opening] fun e us => .shift
  · have read := FitsAfter.member first within isDot named
    exact onward rest (Nat.le_refl _) read.derives read.within

/-- A name that is missing after a dot can be put in. -/
theorem postfixChain_viable (shrinks : Shrinks arguments)
    (lists : ∀ ts, Viable (FitsList .rparen depth) (arguments ts) ts)
    (first : Derives (.expr .postfixed e) before) (within : 1 + openedCalls e ≤ depth)
    (ts : List Token) :
    Viable (FitsAfter before .postfixed 1 depth) (postfixChain arguments e ts) ts := by
  induction size : ts.length using Nat.strongRecOn generalizing e before ts with
  | ind n ih =>
    rw [postfixChain_eq shrinks]
    split
    · rename_i isDot
      obtain ⟨dot, rest, rfl, isDot⟩ := eq_cons_of_current isDot (by decide)
      -- After a dot the chain lacks a name, or the name is there.
      have chain : Viable (FitsAfter (before ++ [dot]) .postfixed 1 depth)
          ((expect .identifier rest).andThen fun name rest =>
            if (current rest).kind = .lparen then
              (arguments (rest.drop 1)).andThen fun es =>
                postfixChain arguments (.call e name.text es)
            else postfixChain arguments (.member e name.text) rest) rest := by
        refine (expect_viable (by decide) rest).andThen (fun name us found => ?_)
          fun name used more split found => ?_
        · obtain ⟨rfl, named⟩ := found
          exact Viable.complete (.member first within isDot named)
        · obtain ⟨rfl, named⟩ := found
          refine (afterName_viable lists first within isDot named
            fun last le first within => ?_).imp fun e us => .shift
          have shorter : last.length < n := by
            rw [← size, split]
            simp only [List.length_cons, List.length_append]
            omega
          exact ih _ shorter first within last rfl
      exact chain.prepend [dot] fun e us => .shift
    · exact .done_nil (.nothing first within)

end Repetitions

/-! ## §4 The levels -/

/-- What the functions of the reader use can be completed within the same calls. -/
structure ReadersViable (depth : Nat) : Prop where
  disjunction : ∀ ts, Viable (Fits .disjunction depth) (disjunction depth ts) ts
  conjunction : ∀ ts, Viable (Fits .conjunction depth) (conjunction depth ts) ts
  comparison : ∀ ts, Viable (Fits .comparison depth) (comparison depth ts) ts
  negation : ∀ ts, Viable (Fits .negation depth) (negation depth ts) ts
  postfixed : ∀ ts, Viable (Fits .postfixed depth) (postfixExpr depth ts) ts
  primary : ∀ ts, Viable (Fits .primary depth) (primary depth ts) ts
  items : ∀ closing ts, closing ≠ .eof → Viable (FitsList closing depth) (items depth closing ts) ts

/-- An expression of a tighter level, with operators after it, is one of the next looser level. -/
theorem level_viable {tighter : Level} {operand : List Token → Parsed Expr}
    {accepts : Operator → Bool} (shrinks : Shrinks operand)
    (operands : ∀ ts, Viable (Fits tighter depth) (operand ts) ts)
    (lift : ∀ {e : Expr} {ts : List Token}, Derives (.expr tighter e) ts →
      Derives (.expr level e) ts)
    (join : ∀ {a b : Expr} {ts us : List Token} {t : Token}, Derives (.expr level a) ts →
      t.kind = .operator → accepts (.ofText t.text) → Derives (.expr tighter b) us →
      Derives (.expr level (.binary (.ofText t.text) a b)) (ts ++ t :: us))
    (next : level.calls = tighter.calls + 1) (ts : List Token) :
    Viable (Fits level (depth + 1)) ((operand ts).andThen (leftChain accepts operand)) ts := by
  have loosen {before us : List Token} {e : Expr}
      (h : FitsAfter before level tighter.calls depth e us) :
      Fits level (depth + 1) e (before ++ us) :=
    ⟨h.derives, by have := h.within; omega⟩
  refine (operands ts).andThen (fun e us fits => ⟨e, [], ?_⟩) fun e used rest _ fits => ?_
  · exact loosen (.nothing (lift fits.derives) fits.within)
  · exact (leftChain_viable shrinks operands join (lift fits.derives) fits.within rest).imp
      fun e us => loosen

theorem negation_viable (readers : ReadersViable depth) (ts : List Token) :
    Viable (Fits .negation (depth + 1)) (negation (depth + 1) ts) ts := by
  rw [negation]
  split
  · rename_i isNot
    simp only [currentOperator?, Option.ite_none_right_eq_some, Option.some.injEq] at isNot
    obtain ⟨t, rest, rfl, kind⟩ := eq_cons_of_current isNot.1 (by decide)
    have operand : Viable (fun e us => Fits .negation (depth + 1) e (t :: us))
        ((negation depth rest).andThen fun operand => .done (Expr.unary .not operand)) rest := by
      refine (readers.negation rest).map fun e us fits => ⟨?_, ?_⟩
      · exact .not (isOperator_of_ofText kind isNot.2) fits.derives
      · have : 3 + openedCalls e ≤ depth := fits.within
        simp only [Level.calls, openedCalls]
        omega
    exact operand.prepend [t] fun e us => id
  · refine (readers.postfixed ts).imp fun e us fits => ⟨.postfixed fits.derives, ?_⟩
    have : 2 + openedCalls e ≤ depth := fits.within
    simp only [Level.calls]
    omega

theorem postfixed_viable (readers : ReadersViable depth) (ts : List Token) :
    Viable (Fits .postfixed (depth + 1)) (postfixExpr (depth + 1) ts) ts := by
  have shrinks : Shrinks (items depth .rparen) := ((readersLocal depth).items .rparen 0).shrinks
  have loosen {before us : List Token} {e : Expr}
      (h : FitsAfter before .postfixed 1 depth e us) :
      Fits .postfixed (depth + 1) e (before ++ us) :=
    ⟨h.derives, by have := h.within; simp only [Level.calls]; omega⟩
  rw [postfixExpr]
  refine (readers.primary ts).andThen (fun e us fits => ⟨e, [], ?_⟩) fun e used rest _ fits => ?_
  · exact loosen (.nothing (.primary fits.derives) fits.within)
  · exact (postfixChain_viable shrinks (fun ts => readers.items .rparen ts (by decide))
      (.primary fits.derives) fits.within rest).imp fun e us => loosen

theorem primary_viable (readers : ReadersViable depth) (ts : List Token) :
    Viable (Fits .primary (depth + 1)) (primary (depth + 1) ts) ts := by
  rw [primary]
  split
  · rename_i v value
    obtain ⟨t, rest, rfl, literal⟩ := eq_cons_of_literalValue? value
    exact .done_cons ⟨.literal literal, by simp [Level.calls, openedCalls]⟩
  · split
    · rename_i kind
      obtain ⟨t, rest, rfl, named⟩ := eq_cons_of_current kind (by decide)
      exact .done_cons ⟨.name named, by simp [Level.calls, openedCalls]⟩
    · rename_i kind
      obtain ⟨opening, rest, rfl, opens⟩ := eq_cons_of_current kind (by decide)
      have array : Viable (fun e us => Fits .primary (depth + 1) e (opening :: us))
          ((items depth .rbracket rest).andThen fun es => .done (Expr.array es)) rest := by
        refine (readers.items .rbracket rest (by decide)).map fun es us fits => ?_
        obtain ⟨list, closes, enough⟩ := fits
        exact ⟨.array opens list closes, by simp only [Level.calls, openedCalls]; omega⟩
      exact array.prepend [opening] fun e us => id
    · rename_i kind
      obtain ⟨opening, rest, rfl, opens⟩ := eq_cons_of_current kind (by decide)
      have close {inner : Expr} {us : List Token} {closing : Token}
          (fits : Fits .disjunction depth inner us) (closes : closing.kind = .rparen) :
          Fits .primary (depth + 1) (.group inner) (opening :: (us ++ [closing])) := by
        have : 6 + openedCalls inner ≤ depth := fits.within
        exact ⟨.group opens fits.derives closes, by simp only [Level.calls, openedCalls]; omega⟩
      have group : Viable (fun e us => Fits .primary (depth + 1) e (opening :: us))
          ((disjunction depth rest).andThen fun inner rest =>
            (expect .rparen rest).andThen fun _ => .done (Expr.group inner)) rest := by
        refine (readers.disjunction rest).andThen
          (fun inner us fits => ⟨.group inner, [⟨.rparen, ")"⟩], close fits rfl⟩)
          fun inner used more _ fits => ?_
        refine (expect_viable (by decide) more).map fun closing us found => ?_
        obtain ⟨rfl, closes⟩ := found
        exact close fits closes
      exact group.prepend [opening] fun e us => id
    · -- Any other token may not be there, and a name may.
      let name : Token := ⟨.identifier, "a"⟩
      have fits : Fits .primary (depth + 1) (.name name.text) [name] :=
        ⟨.name rfl, by simp [Level.calls, openedCalls]⟩
      exact .stopped_nil _ fits

theorem items_viable (readers : ReadersViable depth) {closing : TokenKind} (ne : closing ≠ .eof)
    (ts : List Token) : Viable (FitsList closing (depth + 1)) (items (depth + 1) closing ts) ts := by
  have shrinks : Shrinks (disjunction depth) := ((readersLocal depth).disjunction 0).shrinks
  have listed : Viable (FitsItems [] depth)
      (if (current ts).kind = closing then .done [] ts
      else (disjunction depth ts).andThen fun e rest =>
        (moreItems (disjunction depth) rest).andThen fun es => .done (e :: es)) ts := by
    split
    · exact .done_nil ⟨.none, Nat.zero_le _⟩
    · refine (readers.disjunction ts).andThen (fun e us fits => ⟨[e], [], ?_⟩)
        fun e used rest _ fits => ?_
      · exact ⟨(FitsItems.last fits).derives, (FitsItems.last fits).within⟩
      · exact (moreItems_viable shrinks readers.disjunction fits rest).map
          fun es us items => ⟨items.derives, items.within⟩
  -- A list that can be completed needs the closing token besides.
  have close {es : List Expr} {us : List Token} {t : Token} (items : FitsItems [] depth es us)
      (closes : t.kind = closing) : FitsList closing (depth + 1) es (us ++ [t]) :=
    .closed items.derives closes (by have := items.within; omega)
  rw [items]
  refine listed.andThen (fun es us items => ⟨es, [⟨closing, ""⟩], close items rfl⟩)
    fun es used rest _ items => ?_
  refine (expect_viable ne rest).map fun t us found => ?_
  obtain ⟨rfl, closes⟩ := found
  exact close items closes

/-- However many calls may be within each other, what is used can be completed. -/
theorem readersViable : ∀ depth, ReadersViable depth
  | 0 => by
    -- Nothing is said of a reading that is nested too deeply.
    constructor <;> intros <;> exact .tooDeep
  | depth + 1 => by
    have readers := readersViable depth
    have near := readersLocal depth
    refine ⟨?_, ?_, ?_, negation_viable readers, postfixed_viable readers, primary_viable readers,
      fun closing ts ne => items_viable readers ne ts⟩
    · exact level_viable (near.conjunction 0).shrinks readers.conjunction .conjunction
        (fun a kind accepted b => by
          have same := eq_of_beq accepted
          rw [same]
          exact .or a (isOperator_of_ofText kind same) b) rfl
    · exact level_viable (near.comparison 0).shrinks readers.comparison .comparison
        (fun a kind accepted b => by
          have same := eq_of_beq accepted
          rw [same]
          exact .and a (isOperator_of_ofText kind same) b) rfl
    · exact level_viable (near.negation 0).shrinks readers.negation .negation
        (fun a kind accepted b =>
          .compare (mem_comparisonOperators.mpr accepted) a (isOperator_of_ofText kind rfl) b) rfl

/-! ## §5 Whole expressions -/

theorem parse_viable (ts : List Token) :
    Viable (Fits .disjunction callDepth) (Expr.parse ts) ts := by
  have readers := readersViable callDepth
  unfold Expr.parse
  split
  · -- An empty list can be continued with anything, such as a name.
    let name : Token := ⟨.identifier, "a"⟩
    have derives : Derives (.expr .disjunction (.name name.text)) [name] :=
      .conjunction (.comparison (.negation (.postfixed (.primary (.name rfl)))))
    have fits : Fits .disjunction callDepth (.name name.text) [name] := ⟨derives, by decide⟩
    exact .stopped_nil _ fits
  · refine (readers.disjunction ts).andThen (fun e us fits => Viable.complete fits)
      fun e used rest _ fits => ?_
    have whole : Fits .disjunction callDepth e (used ++ []) := by rwa [List.append_nil]
    split
    · exact .done_nil whole
    · exact .stopped_nil _ whole

/-- What fits is accepted as it stands. -/
theorem ofTokens_of_fits (h : Fits .disjunction callDepth e ts) : ofTokens ts = .ok e := by
  have all : beforeEnd ts = ts := by
    have cut : beforeEnd (ts ++ []) = ts := beforeEnd_append h.derives.no_end rfl
    rwa [List.append_nil] at cut
  have isExpression : IsExpression (beforeEnd ts) e := all.symm ▸ h.derives
  exact ofTokens_eq_ok.mpr ⟨_, (parse_takesCalls isExpression).1 h.within⟩

/-- Where reading stops at a token, no list with the same tokens up to this one is accepted. -/
theorem ofTokens_ne_of_stopped {cause : SyntaxError} {used rest : List Token}
    (stopped : Expr.parse (used ++ t :: rest) = .stopped cause (t :: rest)) (more : List Token)
    (e : Expr) : ofTokens (used ++ t :: more) ≠ .ok e := by
  intro accepted
  obtain ⟨left, read⟩ := ofTokens_eq_ok.mp accepted
  have split (after : List Token) : used ++ t :: after = used ++ [t] ++ after := by simp
  have both := (parse_local _).same (used ++ [t]) rest more (Nat.le_refl _)
  rw [← split, ← split, stopped, read] at both
  -- Two readings with the token in common stop alike unless they go past it; one stopped at it.
  generalize stoppedAt : Parsed.stopped cause (t :: rest) = p at both
  cases both with
  | done => cases stoppedAt
  | past le =>
    rw [← stoppedAt] at le
    exact absurd le (Nat.not_succ_le_self _)

/-- Where reading stops at the end, what stands before is not accepted with an end after it. -/
theorem ofTokens_ne_of_stopped_at_end {cause : SyntaxError} {used rest : List Token}
    (stopped : Expr.parse (used ++ rest) = .stopped cause rest) (shallow : cause ≠ .nestedTooDeeply)
    (noEnd : ∀ t ∈ used, t.kind ≠ .eof) (atEnd : (current rest).kind = .eof)
    (isEnd : (current us).kind = .eof) (e : Expr) : ofTokens (used ++ us) ≠ .ok e := by
  intro accepted
  obtain ⟨left, read⟩ := ofTokens_eq_ok.mp accepted
  -- Both lists are the same before their ends, so reading the other one comes to its end, too.
  have isExpression : IsExpression used e := beforeEnd_append noEnd isEnd ▸ parse_sound read
  rw [← beforeEnd_append noEnd atEnd] at isExpression
  have takes := parse_takesCalls isExpression
  rw [stopped] at takes
  rcases Nat.lt_or_ge callDepth (6 + openedCalls e) with short | enough
  · obtain ⟨stop, same⟩ := takes.2 short
    exact shallow (Parsed.stopped.inj same).1
  · cases takes.1 enough

theorem Cursor.parse_eq_error {cause : SyntaxError} {c : Cursor}
    (failed : (Cursor.start ts).parse = (.error cause, c)) :
    Expr.parse ts = .stopped cause c.rest ∧ c.position = ts.length - c.rest.length := by
  unfold Cursor.parse Cursor.start at failed
  cases read : Expr.parse ts with
  | done e rest =>
    rw [read] at failed
    cases failed
  | stopped cause' rest =>
    rw [read] at failed
    cases failed
    exact ⟨rfl, Nat.zero_add _⟩

/-- **Reading stops at the first token that nothing can continue.**  If reading a token list fails,
and not for too deep nesting, the tokens before the place where it stopped can be continued to a
list that is accepted.  If there is a token at this place that is not an end, no list that starts
with the tokens up to this one is accepted, and otherwise the tokens before it are not accepted if
the list ends there. -/
theorem parse_stops_first {cause : SyntaxError} {c : Cursor}
    (failed : (Cursor.start ts).parse = (.error cause, c)) (shallow : cause ≠ .nestedTooDeeply) :
    (∃ more e, ofTokens (ts.take c.position ++ more) = .ok e) ∧
      (∀ t, ts[c.position]? = some t → t.kind ≠ .eof →
        ∀ us, ts.take (c.position + 1) <+: us → ∀ e, ofTokens us ≠ .ok e) ∧
      ((∀ t, ts[c.position]? = some t → t.kind = .eof) →
        ∀ us, (current us).kind = .eof → ∀ e, ofTokens (ts.take c.position ++ us) ≠ .ok e) := by
  obtain ⟨stopped, place⟩ := Cursor.parse_eq_error failed
  obtain ⟨rest, position⟩ := c
  dsimp only at stopped place ⊢
  have viable := parse_viable ts
  rw [stopped] at viable
  cases viable with
  | tooDeep => exact absurd rfl shallow
  | @stopped e used more _ _ fits =>
    -- The place is counted from what is left, and so it is the length of what was used.
    obtain rfl : position = used.length := by
      rw [place, List.length_append, Nat.add_sub_cancel]
    rw [List.take_left, List.getElem?_append_right (Nat.le_refl _), Nat.sub_self]
    refine ⟨⟨more, e, ofTokens_of_fits fits⟩, fun t found notEnd us start e => ?_,
      fun isEnd us => ?_⟩
    · obtain ⟨others, rfl⟩ : ∃ others, rest = t :: others := by
        cases rest with
        | nil => cases found
        | cons first others =>
          obtain rfl := Option.some.inj found
          exact ⟨others, rfl⟩
      obtain ⟨after, rfl⟩ := start
      have same : (used ++ t :: others).take (used.length + 1) ++ after = used ++ t :: after := by
        rw [List.take_length_add_append]
        simp
      rw [same]
      exact ofTokens_ne_of_stopped stopped after e
    · have noEnd : ∀ t ∈ used, t.kind ≠ .eof := fun t mem =>
        fits.derives.no_end t (by simp [mem])
      have atEnd : (current rest).kind = .eof := by
        cases rest with
        | nil => rfl
        | cons first others => exact isEnd first rfl
      exact fun isEnd e => ofTokens_ne_of_stopped_at_end stopped shallow noEnd atEnd isEnd e

/-- The arguments of a call may not begin with a comma, although they may be left out or go on. -/
theorem parse_stops_first_comma :
    let ts : List Token := [⟨.operator, "!"⟩, ⟨.identifier, "a"⟩, ⟨.dot, "."⟩,
      ⟨.identifier, "includes"⟩, ⟨.lparen, "("⟩, ⟨.comma, ","⟩, ⟨.rparen, ")"⟩, .eof]
    let c : Cursor := ⟨[⟨.comma, ","⟩, ⟨.rparen, ")"⟩, .eof], 5⟩
    (Cursor.start ts).parse = (.error (.unexpectedToken ","), c) ∧
      (∃ more e, ofTokens (ts.take 5 ++ more) = .ok e) ∧
      ∀ us, ts.take 6 <+: us → ∀ e, ofTokens us ≠ .ok e := by
  intro ts c
  have failed : (Cursor.start ts).parse = (.error (.unexpectedToken ","), c) := by cbv
  obtain ⟨viable, refused, -⟩ := parse_stops_first failed (by decide)
  exact ⟨failed, viable, refused ⟨.comma, ","⟩ rfl (by decide)⟩

end Visibility.Grammar
