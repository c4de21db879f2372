import Mathlib.Data.String.Basic
import Visibility.Proofs.Comparison

/-!
# The laws of the relational operators

The four relational operators make their operands primitive, then decide whether to compare texts or
numbers, and give up where a number is NaN.  What they have in common is one order of two values, if
there is any; each operator only reads that order off.  So their laws are those of two linear orders,
that of texts and that of exact values.

* `relation`, `relate_eq` — the order that all four operators read
* `Compared` — what that order is made of, and `Compared.swap` for the operands in opposite order
* `holds?_cmp_less`, …, `holds?_cmp_greaterEqual` — the operators on a linear order
* `relate_coherent` — the operators mirror and negate each other, and are transitive on values of one
  kind
-/

namespace Visibility

/-! ## §1 Operators on a linear order -/

namespace Operator

/-- The operators that order their operands. -/
def relations : List Operator := [.less, .lessEqual, .greater, .greaterEqual]

section LinearOrders

variable {α : Type} [LinearOrder α] (x y : α)

theorem holds?_cmp_less : less.holds? (cmp x y) = .ok (decide (x < y)) := by
  rcases lt_trichotomy x y with below | rfl | above
  · rw [below.cmp_eq_lt, decide_eq_true below]
    rfl
  · rw [cmp_self_eq_eq, decide_eq_false (lt_irrefl x)]
    rfl
  · rw [above.cmp_eq_gt, decide_eq_false above.asymm]
    rfl

theorem holds?_cmp_lessEqual : lessEqual.holds? (cmp x y) = .ok (decide (x ≤ y)) := by
  rcases lt_trichotomy x y with below | rfl | above
  · rw [below.cmp_eq_lt, decide_eq_true below.le]
    rfl
  · rw [cmp_self_eq_eq, decide_eq_true le_rfl]
    rfl
  · rw [above.cmp_eq_gt, decide_eq_false above.not_ge]
    rfl

variable {x y} {z : α} {operator : Operator}

/-- The two operators that look for the smaller thing on the left are transitive. -/
theorem holds?_cmp_trans (mem : operator ∈ [less, lessEqual])
    (first : operator.holds? (cmp x y) = .ok true) (second : operator.holds? (cmp y z) = .ok true) :
    operator.holds? (cmp x z) = .ok true := by
  rcases List.mem_pair.mp mem with rfl | rfl
  · rw [holds?_cmp_less, Except.ok.injEq, decide_eq_true_eq] at first second ⊢
    exact first.trans second
  · rw [holds?_cmp_lessEqual, Except.ok.injEq, decide_eq_true_eq] at first second ⊢
    exact first.trans second

end LinearOrders

/-- Each operator has a mirror image, which holds for the same things in opposite order. -/
theorem holds?_swap (order : Ordering) :
    greater.holds? order.swap = less.holds? order ∧
      greaterEqual.holds? order.swap = lessEqual.holds? order := by
  cases order <;> exact ⟨rfl, rfl⟩

/-- Each operator has an opposite, which holds where it does not. -/
theorem holds?_not (order : Ordering) :
    (∃ holds, less.holds? order = .ok holds ∧ greaterEqual.holds? order = .ok !holds) ∧
      ∃ holds, lessEqual.holds? order = .ok holds ∧ greater.holds? order = .ok !holds := by
  cases order <;> exact ⟨⟨_, rfl, rfl⟩, ⟨_, rfl, rfl⟩⟩

/-- The relations answer for every order. -/
theorem holds?_of_mem_relations {operator : Operator} (mem : operator ∈ relations)
    (order : Ordering) : ∃ holds, operator.holds? order = .ok holds := by
  simp only [relations, List.mem_cons, List.not_mem_nil, or_false] at mem
  rcases mem with rfl | rfl | rfl | rfl <;> exact ⟨_, rfl⟩

end Operator

/-! ## §2 The order of two numbers -/

namespace Number

variable {x y : Number}

/-- The order of two numbers for the relational operators: a NaN on the left answers before the
number on the right is looked at. -/
def relation (x y : Number) : Except CoercionError (Option Ordering) :=
  x.isNaN >>= fun nan => if nan then pure none else x.order? y

theorem relation_of_value {v w : ExactValue} (hx : x.value? = some v) (hy : y.value? = some w) :
    x.relation y = .ok (some (cmp v w)) := by
  unfold relation
  rw [isNaN_of_value hx, ← order?_of_value hx hy]
  rfl

/-- What a number is that is not NaN. -/
theorem exists_value_of_isNaN (h : x.isNaN = .ok false) : ∃ v, x.value? = some v := by
  -- The test for NaN asks whether the number equals itself.
  obtain ⟨equal, same, notEqual⟩ := Except.map_eq_ok.mp h
  have equals : x.equals x = .ok true := by cases equal <;> first | exact same | cases notEqual
  obtain ⟨v, value, -⟩ := equals_eq_true_iff.mp equals
  exact ⟨v, value⟩

/-- Two numbers that are compared are compared by their values; without an order one of them has
none. -/
theorem relation_eq_ok {order : Option Ordering} (h : x.relation y = .ok order) :
    (∃ v w, x.value? = some v ∧ y.value? = some w ∧ order = some (cmp v w)) ∨
      (x.value? = none ∨ y.value? = none) ∧ order = none := by
  cases hx : x.value? with
  | none =>
    refine .inr ⟨.inl rfl, ?_⟩
    obtain ⟨nan, isNaN, rest⟩ := Except.bind_eq_ok.mp h
    cases nan with
    | true => exact (Except.ok.inj rest).symm
    | false =>
      obtain ⟨v, value⟩ := exists_value_of_isNaN isNaN
      cases hx.symm.trans value
  | some v =>
    cases hy : y.value? with
    | some w =>
      cases h.symm.trans (relation_of_value hx hy)
      exact .inl ⟨v, w, rfl, rfl, rfl⟩
    | none =>
      refine .inr ⟨.inr rfl, ?_⟩
      unfold relation at h
      rw [isNaN_of_value hx] at h
      obtain ⟨-, -, rfl⟩ := order?_eq_ok_iff.mp h
      exact Decimal.order?_of_no_value (.inr hy)

end Number

/-! ## §3 The order of two values -/

namespace Value

variable {a b c : Value} {operator : Operator} {order : Option Ordering}

/-- The order of two primitive values for the relational operators. -/
def primitiveRelation (a b : Value) : Except CoercionError (Option Ordering) :=
  match a, b with
  | .string s, .string t => .ok (some (compare s t))
  | _, _ => a.toNumber >>= fun x => b.toNumber >>= fun y => x.relation y

/-- The order of two values for the relational operators, if there is one. -/
def relation (a b : Value) : Except CoercionError (Option Ordering) :=
  a.toPrimitive >>= fun a => b.toPrimitive >>= fun b => a.primitiveRelation b

/-- What an operator says where there may be no order: then it does not hold. -/
def answer (operator : Operator) (order : Option Ordering) : Except CoercionError Bool :=
  order.elim (.ok false) operator.holds?

/-- All four operators read one order. -/
theorem relate_eq (operator : Operator) (a b : Value) :
    a.relate operator b = a.relation b >>= answer operator := by
  unfold relate relation
  cases a.toPrimitive with
  | error cause => rfl
  | ok a =>
    cases b.toPrimitive with
    | error cause => rfl
    | ok b =>
      show (match a, b with | .string s, .string t => _ | _, _ => _) =
        a.primitiveRelation b >>= answer operator
      unfold primitiveRelation
      split
      · rfl
      · -- The two numbers are read first, and then the left one is tested for NaN.
        cases a.toNumber with
        | error cause => rfl
        | ok x =>
          cases b.toNumber with
          | error cause => rfl
          | ok y =>
            show (x.isNaN >>= _) = (x.isNaN >>= _) >>= _
            cases x.isNaN with
            | error cause => rfl
            | ok nan =>
              cases nan with
              | true => rfl
              | false =>
                show (x.order? y >>= _) = x.order? y >>= _
                cases x.order? y with
                | error cause => rfl
                | ok order => cases order <;> rfl

/-- The value is a string once it is made primitive. -/
def IsText (a : Value) : Prop := ∃ s, a.toPrimitive = .ok (.string s)

/-- The number of a primitive value is that of the value it was made from. -/
theorem toNumber_of_toPrimitive {p : Value} (h : a.toPrimitive = .ok p) :
    p.toNumber = a.toNumber := by
  by_cases object : a.kind = .object
  · rw [toPrimitive_object object] at h
    obtain ⟨s, text, rfl⟩ := Except.map_eq_ok.mp h
    rw [toNumber_object object, text]
    rfl
  · obtain rfl : a = p := Except.ok.inj ((if_neg object).symm.trans h)
    rfl

/-- What has a number can be made primitive. -/
theorem exists_toPrimitive_of_toNumber {x : Number} (h : a.toNumber = .ok x) :
    ∃ p, a.toPrimitive = .ok p := by
  by_cases object : a.kind = .object
  · rw [toNumber_object object] at h
    obtain ⟨s, text, -⟩ := Except.bind_eq_ok.mp h
    exact ⟨.string s, by rw [toPrimitive_object object, text]; rfl⟩
  · exact ⟨a, if_neg object⟩

/-! ## §4 What the order is made of -/

/-- The order of two values: that of their texts if both are texts, else that of the values of their
numbers, and none if a number has no value. -/
inductive Compared (a b : Value) : Option Ordering → Prop where
  | texts {s t : String} :
      a.toPrimitive = .ok (.string s) → b.toPrimitive = .ok (.string t) →
      Compared a b (some (cmp s t))
  | numbers {x y : Number} {v w : ExactValue} :
      ¬(a.IsText ∧ b.IsText) → a.toNumber = .ok x → b.toNumber = .ok y →
      x.value? = some v → y.value? = some w → Compared a b (some (cmp v w))
  | unordered {x y : Number} :
      ¬(a.IsText ∧ b.IsText) → a.toNumber = .ok x → b.toNumber = .ok y →
      x.value? = none ∨ y.value? = none → Compared a b none

/-- Two primitive values that are not both texts are compared as numbers. -/
theorem primitiveRelation_of_not_texts (h : ¬((∃ s, a = .string s) ∧ ∃ t, b = .string t)) :
    a.primitiveRelation b = a.toNumber >>= fun x => b.toNumber >>= fun y => x.relation y := by
  unfold primitiveRelation
  split
  · exact absurd ⟨⟨_, rfl⟩, ⟨_, rfl⟩⟩ h
  · rfl

theorem relation_of_not_texts {p q : Value} (left : a.toPrimitive = .ok p)
    (right : b.toPrimitive = .ok q) (h : ¬(a.IsText ∧ b.IsText)) :
    a.relation b = a.toNumber >>= fun x => b.toNumber >>= fun y => x.relation y := by
  have notBoth : ¬((∃ s, p = .string s) ∧ ∃ t, q = .string t) := by
    rintro ⟨⟨s, rfl⟩, ⟨t, rfl⟩⟩
    exact h ⟨⟨s, left⟩, ⟨t, right⟩⟩
  unfold relation
  rw [left, right]
  show p.primitiveRelation q = _
  rw [primitiveRelation_of_not_texts notBoth, toNumber_of_toPrimitive left,
    toNumber_of_toPrimitive right]

/-- Whatever order the operators read is made in one of the three ways. -/
theorem relation_eq_ok (h : a.relation b = .ok order) : Compared a b order := by
  obtain ⟨p, left, rest⟩ := Except.bind_eq_ok.mp h
  obtain ⟨q, right, rest⟩ := Except.bind_eq_ok.mp rest
  by_cases both : a.IsText ∧ b.IsText
  · obtain ⟨⟨s, textA⟩, ⟨t, textB⟩⟩ := both
    cases left.symm.trans textA
    cases right.symm.trans textB
    -- Strings are compared by the order of the library, which is `cmp` for its `<`.
    obtain rfl : some (compare s t) = order := Except.ok.inj rest
    rw [← cmp_eq_compare]
    exact .texts textA textB
  · rw [relation_of_not_texts left right both] at h
    obtain ⟨x, readA, h⟩ := Except.bind_eq_ok.mp h
    obtain ⟨y, readB, h⟩ := Except.bind_eq_ok.mp h
    rcases Number.relation_eq_ok h with ⟨v, w, hx, hy, rfl⟩ | ⟨noValue, rfl⟩
    · exact .numbers both readA readB hx hy
    · exact .unordered both readA readB noValue

/-- An order that is made in one of these ways is read. -/
theorem Compared.relation {o : Ordering} (h : Compared a b (some o)) :
    a.relation b = .ok (some o) := by
  cases h with
  | texts textA textB =>
    unfold Value.relation
    rw [textA, textB, cmp_eq_compare]
    rfl
  | numbers both readA readB hx hy =>
    obtain ⟨p, left⟩ := exists_toPrimitive_of_toNumber readA
    obtain ⟨q, right⟩ := exists_toPrimitive_of_toNumber readB
    rw [relation_of_not_texts left right both, readA, readB]
    exact Number.relation_of_value hx hy

/-- With its operands in opposite order, a comparison comes out the other way round. -/
theorem Compared.swap (h : Compared a b order) : Compared b a (order.map Ordering.swap) := by
  cases h with
  | texts textA textB =>
    rw [Option.map_some, cmp_swap]
    exact .texts textB textA
  | numbers both readA readB hx hy =>
    rw [Option.map_some, cmp_swap]
    exact .numbers (fun swapped => both swapped.symm) readB readA hy hx
  | unordered both readA readB noValue =>
    exact .unordered (fun swapped => both swapped.symm) readB readA noValue.symm

/-- Two values are compared in one way only. -/
theorem Compared.unique {other : Option Ordering} (h : Compared a b order)
    (h' : Compared a b other) : order = other := by
  -- Whether both are texts, and whether both numbers have values, tells the three ways apart.
  cases h with
  | texts textA textB =>
    cases h' with
    | texts textA' textB' =>
      cases textA.symm.trans textA'
      cases textB.symm.trans textB'
      rfl
    | numbers both | unordered both => exact absurd ⟨⟨_, textA⟩, ⟨_, textB⟩⟩ both
  | numbers both readA readB hx hy =>
    cases h' with
    | texts textA textB => exact absurd ⟨⟨_, textA⟩, ⟨_, textB⟩⟩ both
    | numbers _ readA' readB' hx' hy' =>
      cases readA.symm.trans readA'
      cases readB.symm.trans readB'
      cases hx.symm.trans hx'
      cases hy.symm.trans hy'
      rfl
    | unordered _ readA' readB' noValue =>
      cases readA.symm.trans readA'
      cases readB.symm.trans readB'
      rcases noValue with none | none
      · cases hx.symm.trans none
      · cases hy.symm.trans none
  | unordered both readA readB noValue =>
    cases h' with
    | texts textA textB => exact absurd ⟨⟨_, textA⟩, ⟨_, textB⟩⟩ both
    | unordered => rfl
    | numbers _ readA' readB' hx hy =>
      cases readA.symm.trans readA'
      cases readB.symm.trans readB'
      rcases noValue with none | none
      · cases hx.symm.trans none
      · cases hy.symm.trans none

/-! ## §5 The laws -/

/-- Two values have an order: both are texts, or neither is NaN as a number. -/
inductive Comparable (a b : Value) : Prop where
  | texts : a.IsText → b.IsText → Comparable a b
  | numbers {x y : Number} :
      a.toNumber = .ok x → b.toNumber = .ok y → x.isNaN = .ok false → y.isNaN = .ok false →
      Comparable a b

theorem Comparable.compared (h : Comparable a b) : ∃ o, Compared a b (some o) := by
  by_cases both : a.IsText ∧ b.IsText
  · obtain ⟨⟨s, textA⟩, ⟨t, textB⟩⟩ := both
    exact ⟨_, .texts textA textB⟩
  · cases h with
    | texts textA textB => exact absurd ⟨textA, textB⟩ both
    | numbers readA readB notNaN notNaN' =>
      obtain ⟨v, hx⟩ := Number.exists_value_of_isNaN notNaN
      obtain ⟨w, hy⟩ := Number.exists_value_of_isNaN notNaN'
      exact ⟨_, .numbers both readA readB hx hy⟩

/-- Values that are not comparable have no order. -/
theorem Compared.eq_none (h : Compared a b order) (incomparable : ¬Comparable a b) :
    order = none := by
  cases h with
  | texts textA textB => exact absurd (.texts ⟨_, textA⟩ ⟨_, textB⟩) incomparable
  | numbers _ readA readB hx hy =>
    have numbers : Comparable a b :=
      .numbers readA readB (Number.isNaN_of_value hx) (Number.isNaN_of_value hy)
    exact absurd numbers incomparable
  | unordered => rfl

/-- Each of the values is a text, or none of them is. -/
def OneKind (a b c : Value) : Prop :=
  a.IsText ∧ b.IsText ∧ c.IsText ∨ ¬a.IsText ∧ ¬b.IsText ∧ ¬c.IsText

theorem Compared.relate {o : Ordering} (h : Compared a b (some o)) (operator : Operator) :
    a.relate operator b = operator.holds? o := by
  rw [relate_eq, h.relation]
  rfl

/-- What an operator answers is read off an order that the values have, or have not. -/
theorem relate_eq_ok {holds : Bool} (h : a.relate operator b = .ok holds) :
    ∃ order, Compared a b order ∧ answer operator order = .ok holds := by
  rw [relate_eq] at h
  obtain ⟨order, read, answered⟩ := Except.bind_eq_ok.mp h
  exact ⟨order, relation_eq_ok read, answered⟩

/-- An operator that holds has found an order. -/
theorem relate_eq_true (h : a.relate operator b = .ok true) :
    ∃ o, Compared a b (some o) ∧ operator.holds? o = .ok true := by
  obtain ⟨order, compared, answered⟩ := relate_eq_ok h
  cases order with
  | none => cases answered
  | some o => exact ⟨o, compared, answered⟩

/-- An operator and its mirror image on the operands in opposite order. -/
theorem relate_mirror {mirror : Operator} {p q : Bool}
    (mirrored : ∀ o : Ordering, mirror.holds? o.swap = operator.holds? o)
    (first : a.relate operator b = .ok p) (second : b.relate mirror a = .ok q) : p = q := by
  obtain ⟨order, compared, answered⟩ := relate_eq_ok first
  obtain ⟨order', compared', answered'⟩ := relate_eq_ok second
  -- The second operator reads the order of the first one from the other side.
  obtain rfl := compared'.unique compared.swap
  cases order with
  | none => exact Except.ok.inj (answered.symm.trans answered')
  | some o => exact Except.ok.inj (answered.symm.trans ((mirrored o).symm.trans answered'))

/-- Two operators of which each holds where the other does not. -/
theorem relate_opposite {opposite : Operator}
    (opposed : ∀ o, ∃ holds, operator.holds? o = .ok holds ∧ opposite.holds? o = .ok !holds)
    (comparable : Comparable a b) :
    ∃ holds, a.relate operator b = .ok holds ∧ a.relate opposite b = .ok !holds := by
  obtain ⟨o, compared⟩ := comparable.compared
  rw [compared.relate, compared.relate]
  exact opposed o

theorem relate_trans (mem : operator ∈ [Operator.less, .lessEqual]) (kind : OneKind a b c)
    (first : a.relate operator b = .ok true) (second : b.relate operator c = .ok true) :
    a.relate operator c = .ok true := by
  obtain ⟨o, compared, holds⟩ := relate_eq_true first
  obtain ⟨o', compared', holds'⟩ := relate_eq_true second
  rcases kind with ⟨textA, textB, textC⟩ | ⟨noTextA, noTextB, noTextC⟩
  · -- Two texts are not compared as numbers, so both orders are those of texts.
    cases compared with
    | numbers both => exact absurd ⟨textA, textB⟩ both
    | texts primA primB =>
      cases compared' with
      | numbers both => exact absurd ⟨textB, textC⟩ both
      | texts primB' primC =>
        cases primB.symm.trans primB'
        have both : Compared a c _ := .texts primA primC
        rw [both.relate]
        exact Operator.holds?_cmp_trans mem holds holds'
  · cases compared with
    | texts primA _ => exact absurd ⟨_, primA⟩ noTextA
    | numbers _ readA readB hx hy =>
      cases compared' with
      | texts primB _ => exact absurd ⟨_, primB⟩ noTextB
      | numbers _ readB' readC hy' hz =>
        cases readB.symm.trans readB'
        cases hy.symm.trans hy'
        have both : Compared a c _ := .numbers (fun texts => noTextA texts.1) readA readC hx hz
        rw [both.relate]
        exact Operator.holds?_cmp_trans mem holds holds'

/-- An operator is refused only where the order of the values is. -/
theorem relate_eq_error_iff {cause : CoercionError} (mem : operator ∈ Operator.relations) :
    a.relate operator b = .error cause ↔ a.relation b = .error cause := by
  rw [relate_eq, Except.bind_eq_error]
  constructor
  · rintro (refused | ⟨order, _, refused⟩)
    · exact refused
    · cases order with
      | none => cases refused
      | some o =>
        obtain ⟨holds, answers⟩ := Operator.holds?_of_mem_relations mem o
        cases answers.symm.trans refused
  · exact .inl

/-- **The relational operators form one order.**  On two values all four of them answer or are
refused for one reason.  Where they answer, `<` and `>`, and `<=` and `>=`, are each other's mirror
images.  Comparable values get an answer, and exactly one of `<` and `>=` holds, and exactly one of
`<=` and `>`; for all others none of the four holds.  Among texts, and among values that are no
texts, `<` and `<=` are transitive. -/
theorem relate_coherent (a b c : Value) :
    (∀ operator ∈ Operator.relations, ∀ other ∈ Operator.relations, ∀ cause,
      a.relate operator b = .error cause → a.relate other b = .error cause) ∧
    (∀ p q, a.relate .less b = .ok p → b.relate .greater a = .ok q → p = q) ∧
    (∀ p q, a.relate .lessEqual b = .ok p → b.relate .greaterEqual a = .ok q → p = q) ∧
    (Comparable a b →
      (∃ p, a.relate .less b = .ok p ∧ a.relate .greaterEqual b = .ok !p) ∧
      ∃ p, a.relate .lessEqual b = .ok p ∧ a.relate .greater b = .ok !p) ∧
    (¬Comparable a b → ∀ operator ∈ Operator.relations, ∀ p,
      a.relate operator b = .ok p → p = false) ∧
    (OneKind a b c → ∀ operator ∈ [Operator.less, .lessEqual],
      a.relate operator b = .ok true → b.relate operator c = .ok true →
        a.relate operator c = .ok true) := by
  refine ⟨?_, ?_, ?_, ?_, ?_, ?_⟩
  · intro operator mem other memOther cause refused
    rw [relate_eq_error_iff mem] at refused
    exact (relate_eq_error_iff memOther).mpr refused
  · intro p q first second
    exact relate_mirror (fun o => (Operator.holds?_swap o).1) first second
  · intro p q first second
    exact relate_mirror (fun o => (Operator.holds?_swap o).2) first second
  · intro comparable
    exact ⟨relate_opposite (fun o => (Operator.holds?_not o).1) comparable,
      relate_opposite (fun o => (Operator.holds?_not o).2) comparable⟩
  · intro incomparable operator _ p answered
    obtain ⟨order, compared, read⟩ := relate_eq_ok answered
    obtain rfl := compared.eq_none incomparable
    exact (Except.ok.inj read).symm
  · intro kind operator mem first second
    exact relate_trans mem kind first second

/-- Null counts as zero and true as one, and half of one is between them; an absent value is not
comparable with a text. -/
theorem relate_coherent_mixed :
    Value.null.relate .less (.bool true) = .ok true ∧
      Value.null.relate .greaterEqual (.bool true) = .ok false ∧
      ∀ p, (string "2").relate .lessEqual .undefined = .ok p → p = false := by
  let half := Value.number (.decimal (.finite ⟨false, 5, -1⟩))
  have notText {v : Value} (plain : v.toPrimitive = .ok v) (noString : v.kind ≠ .string) :
      ¬v.IsText := by
    rintro ⟨s, text⟩
    cases plain.symm.trans text
    exact noString rfl
  have kind : OneKind .null half (.bool true) :=
    .inr ⟨notText rfl (by decide), notText rfl (by decide), notText rfl (by decide)⟩
  have comparable : Comparable .null (.bool true) :=
    .numbers rfl rfl (Number.isNaN_of_value (Number.value?_int 0))
      (Number.isNaN_of_value (Number.value?_int 1))
  have incomparable : ¬Comparable (string "2") .undefined := by
    rintro (⟨-, text⟩ | ⟨-, read, -, number⟩)
    · exact notText rfl (by decide) text
    · cases read
      cases number
  obtain ⟨-, -, -, -, -, transitive⟩ := relate_coherent .null half (.bool true)
  obtain ⟨-, -, -, opposites, -, -⟩ := relate_coherent .null (.bool true) .null
  obtain ⟨-, -, -, -, unordered, -⟩ := relate_coherent (string "2") .undefined .null
  have below : Value.null.relate .less half = .ok true := rfl
  have above : half.relate .less (.bool true) = .ok true := by decide +kernel
  have less : Value.null.relate .less (.bool true) = .ok true :=
    transitive kind .less (List.mem_cons_self ..) below above
  obtain ⟨⟨p, first, second⟩, -⟩ := opposites comparable
  obtain rfl : p = true := Except.ok.inj (first.symm.trans less)
  exact ⟨less, second, unordered incomparable .lessEqual (by simp [Operator.relations])⟩

end Value

end Visibility
