import Visibility.Proofs.StrictEquality

/-!
# The steps of loose equality

Loose equality looks at its operands in order and converts one of them at a time.  Nevertheless the
order of the operands does not matter, and no comparison is long: a boolean and an object are
converted once each, and numbers and strings not at all.

* `MirroredStep` — what one step does with two values, and with the same values in opposite order
* `mirroredStep` — every pair of values has such a step; none is left over
* `Decides` — a comparison without a limit on its steps, with the number of its conversions
* `looseEquals_symmetric` — loose equality is symmetric, ends after two conversions at most, and is
  strict equality on values of one type
-/

namespace Visibility

namespace Value

variable {a b c : Value}

/-! ## §1 One step -/

/-- How many conversions a value takes until it is a number or a string. -/
def conversions (a : Value) : Nat :=
  match a.kind with
  | .boolean | .object => 1
  | _ => 0

/-- What one step does with two values, and with the same values in opposite order: either both give
one answer, or both convert the same value. -/
inductive MirroredStep (a b : Value) : Prop where
  | answer {x : Except CoercionError Bool} :
      a.looseStep b = (x >>= fun equal => pure (.answer equal)) →
      b.looseStep a = (x >>= fun equal => pure (.answer equal)) → MirroredStep a b
  | convertLeft {x : Except CoercionError Value} :
      a.looseStep b = (x >>= fun c => pure (.convert c b)) →
      b.looseStep a = (x >>= fun c => pure (.convert b c)) →
      (∀ c, x = .ok c → c.conversions < a.conversions) → MirroredStep a b
  | convertRight {x : Except CoercionError Value} :
      a.looseStep b = (x >>= fun c => pure (.convert a c)) →
      b.looseStep a = (x >>= fun c => pure (.convert c a)) →
      (∀ c, x = .ok c → c.conversions < b.conversions) → MirroredStep a b

theorem MirroredStep.symm (h : MirroredStep a b) : MirroredStep b a := by
  cases h with
  | answer there back => exact .answer back there
  | convertLeft there back fewer => exact .convertRight back there fewer
  | convertRight there back fewer => exact .convertLeft back there fewer

theorem looseStep_of_kind (same : a.kind = b.kind) :
    a.looseStep b = (a.strictEquals b >>= fun equal => pure (.answer equal)) := by
  unfold looseStep
  rw [if_pos same]

/-- Values of one type are compared strictly, which is symmetric. -/
theorem mirroredStep_of_kind (same : a.kind = b.kind) : MirroredStep a b := by
  refine .answer (looseStep_of_kind same) ?_
  rw [looseStep_of_kind same.symm, strictEquals_comm]

theorem looseStep_of_absent (other : a.kind ≠ b.kind) (absent : (a.isAbsent || b.isAbsent) = true) :
    a.looseStep b = pure (.answer (a.isAbsent && b.isAbsent)) := by
  unfold looseStep
  rw [if_neg other, if_pos absent]

/-- An absent value equals the other absent one only. -/
theorem mirroredStep_of_absent (other : a.kind ≠ b.kind)
    (absent : (a.isAbsent || b.isAbsent) = true) : MirroredStep a b := by
  refine .answer (x := .ok (a.isAbsent && b.isAbsent)) (looseStep_of_absent other absent) ?_
  rw [looseStep_of_absent other.symm (by rwa [Bool.or_comm]), Bool.and_comm]
  rfl

/-- A number and a string are compared as numbers. -/
theorem mirroredStep_number_string (x : Number) (s : String) :
    MirroredStep (.number x) (.string s) := by
  have back := looseStep_string_number s x
  simp only [fun y => Number.equals_comm y x] at back
  exact .answer (looseStep_number_string x s) back

theorem conversions_object (object : a.kind = .object) : a.conversions = 1 := by
  unfold conversions
  rw [object]

/-- A boolean becomes a number before the other value is looked at. -/
theorem mirroredStep_bool (t : Bool) (other : b.IsPlain ∨ b.kind = .object) :
    MirroredStep (.bool t) b := by
  have there : looseStep (.bool t) b = .ok (.convert (boolNumber t) b) := by
    rcases other with plain | object
    · cases plain <;> rfl
    · cases b <;> first | rfl | cases object
  have back : b.looseStep (.bool t) = .ok (.convert b (boolNumber t)) := by
    rcases other with plain | object
    · cases plain <;> rfl
    · cases b <;> first | rfl | cases object
  refine .convertLeft (x := .ok (boolNumber t)) there back fun c same => ?_
  cases same
  exact Nat.zero_lt_one

/-- An object becomes a text before it is compared with a number or a string. -/
theorem mirroredStep_object (object : a.kind = .object) (plain : b.IsPlain) : MirroredStep a b := by
  have there : a.looseStep b = (a.toPrimitive >>= fun c => pure (.convert c b)) := by
    cases plain <;> cases a <;> first | rfl | cases object
  have back : b.looseStep a = (a.toPrimitive >>= fun c => pure (.convert b c)) := by
    cases plain <;> cases a <;> first | rfl | cases object
  refine .convertLeft there back fun c converted => ?_
  rw [toPrimitive_object object] at converted
  obtain ⟨s, -, rfl⟩ := Except.map_eq_ok.mp converted
  rw [conversions_object object]
  exact Nat.zero_lt_one

/-- Every pair of values has a step, so no pair is left to the end of the rules. -/
theorem mirroredStep (a b : Value) : MirroredStep a b := by
  -- Past the first two questions a value is a boolean, a number or string, or an object, and each
  -- pair of these is one of the cases above or its mirror image.
  by_cases same : a.kind = b.kind
  · exact mirroredStep_of_kind same
  by_cases absent : (a.isAbsent || b.isAbsent) = true
  · exact mirroredStep_of_absent same absent
  obtain ⟨presentA, presentB⟩ := Bool.or_eq_false_iff.mp (Bool.eq_false_iff.mpr absent)
  rcases present_cases presentA with ⟨t, rfl⟩ | plainA | objectA
  · rcases present_cases presentB with ⟨u, rfl⟩ | other
    · exact absurd rfl same
    · exact mirroredStep_bool t other
  · rcases present_cases presentB with ⟨u, rfl⟩ | plainB | objectB
    · exact (mirroredStep_bool u (.inl plainA)).symm
    · cases plainA with
      | number x =>
        cases plainB with
        | number y => exact absurd rfl same
        | string t => exact mirroredStep_number_string x t
      | string s =>
        cases plainB with
        | number y => exact (mirroredStep_number_string y s).symm
        | string t => exact absurd rfl same
    · exact (mirroredStep_object objectB plainA).symm
  · rcases present_cases presentB with ⟨u, rfl⟩ | plainB | objectB
    · exact (mirroredStep_bool u (.inr objectA)).symm
    · exact mirroredStep_object objectA plainB
    · exact absurd (objectA.trans objectB.symm) same

/-! ## §2 What a step gives -/

theorem looseStep_ne_unrelated (a b : Value) : a.looseStep b ≠ .ok .unrelated := by
  intro unrelated
  cases mirroredStep a b with
  | answer there _ =>
    obtain ⟨_, -, impossible⟩ := Except.bind_eq_ok.mp (there.symm.trans unrelated)
    cases impossible
  | convertLeft there _ _ =>
    obtain ⟨_, -, impossible⟩ := Except.bind_eq_ok.mp (there.symm.trans unrelated)
    cases impossible
  | convertRight there _ _ =>
    obtain ⟨_, -, impossible⟩ := Except.bind_eq_ok.mp (there.symm.trans unrelated)
    cases impossible

/-- Each conversion leaves fewer of them to do. -/
theorem conversions_lt {a' b' : Value} (h : a.looseStep b = .ok (.convert a' b')) :
    a'.conversions + b'.conversions < a.conversions + b.conversions := by
  cases mirroredStep a b with
  | answer there _ =>
    obtain ⟨_, -, impossible⟩ := Except.bind_eq_ok.mp (there.symm.trans h)
    cases impossible
  | convertLeft there _ fewer =>
    obtain ⟨c, converted, same⟩ := Except.bind_eq_ok.mp (there.symm.trans h)
    cases same
    exact Nat.add_lt_add_right (fewer _ converted) _
  | convertRight there _ fewer =>
    obtain ⟨c, converted, same⟩ := Except.bind_eq_ok.mp (there.symm.trans h)
    cases same
    exact Nat.add_lt_add_left (fewer _ converted) _

theorem conversions_le_one (a : Value) : a.conversions ≤ 1 := by
  unfold conversions
  split
  · exact Nat.le_refl 1
  · exact Nat.le_refl 1
  · exact Nat.zero_le 1

/-! ## §3 Whole comparisons -/

/-- However many steps it may take, a comparison does not depend on the order of its operands. -/
theorem looseEqualsWithin_comm (steps : Nat) (a b : Value) :
    looseEqualsWithin steps a b = looseEqualsWithin steps b a := by
  induction steps generalizing a b with
  | zero => rfl
  | succ steps ih =>
    cases mirroredStep a b with
    | answer there back =>
      rw [looseEqualsWithin_answer there, looseEqualsWithin_answer back]
    | convertLeft there back _ =>
      rw [looseEqualsWithin_convert_left there, looseEqualsWithin_convert_right back]
      simp only [ih _ b]
    | convertRight there back _ =>
      rw [looseEqualsWithin_convert_right there, looseEqualsWithin_convert_left back]
      simp only [ih a]

/-- A comparison without a limit on its steps: it makes some conversions, one within the other, and
then ends.  There is no rule for values that are unrelated. -/
inductive Decides : Value → Value → Nat → Except CoercionError Bool → Prop where
  | answer {a b : Value} {equal : Bool} :
      a.looseStep b = .ok (.answer equal) → Decides a b 0 (.ok equal)
  | refuse {a b : Value} {cause : CoercionError} :
      a.looseStep b = .error cause → Decides a b 0 (.error cause)
  | convert {a b a' b' : Value} {n : Nat} {result : Except CoercionError Bool} :
      a.looseStep b = .ok (.convert a' b') → Decides a' b' n result → Decides a b (n + 1) result

/-- With more steps than conversions, a comparison ends as it does without a limit. -/
theorem decides_looseEqualsWithin {steps : Nat} (enough : a.conversions + b.conversions < steps) :
    ∃ n ≤ a.conversions + b.conversions, Decides a b n (looseEqualsWithin steps a b) := by
  induction steps generalizing a b with
  | zero => exact absurd enough (Nat.not_lt_zero _)
  | succ steps ih =>
    rw [looseEqualsWithin]
    cases stepped : a.looseStep b with
    | error cause => exact ⟨0, Nat.zero_le _, .refuse stepped⟩
    | ok step =>
      cases step with
      | answer equal => exact ⟨0, Nat.zero_le _, .answer stepped⟩
      | unrelated => exact absurd stepped (looseStep_ne_unrelated a b)
      | convert a' b' =>
        -- A step is used up, and so is a conversion.
        have fewer := conversions_lt stepped
        obtain ⟨n, le, decides⟩ := @ih a' b' (by omega)
        exact ⟨n + 1, by omega, .convert stepped decides⟩

/-- There is one way only to carry a comparison out. -/
theorem Decides.unique {m n : Nat} {x y : Except CoercionError Bool} (h : Decides a b m x)
    (h' : Decides a b n y) : m = n ∧ x = y := by
  -- A step has one outcome, so both ways agree on whether there is a next step.
  induction h generalizing n y with
  | answer stepped =>
    cases h' with
    | answer stepped' =>
      cases stepped.symm.trans stepped'
      exact ⟨rfl, rfl⟩
    | refuse stepped' | convert stepped' _ => cases stepped.symm.trans stepped'
  | refuse stepped =>
    cases h' with
    | refuse stepped' =>
      cases stepped.symm.trans stepped'
      exact ⟨rfl, rfl⟩
    | answer stepped' | convert stepped' _ => cases stepped.symm.trans stepped'
  | convert stepped _ ih =>
    cases h' with
    | convert stepped' rest =>
      cases stepped.symm.trans stepped'
      obtain ⟨rfl, rfl⟩ := ih rest
      exact ⟨rfl, rfl⟩
    | answer stepped' | refuse stepped' => cases stepped.symm.trans stepped'

theorem looseEquals_of_kind (same : a.kind = b.kind) : a.looseEquals b = a.strictEquals b :=
  looseEqualsWithin_answer (looseStep_of_kind same) 2

theorem looseEquals_of_absent (other : a.kind ≠ b.kind) (absent : (a.isAbsent || b.isAbsent) = true) :
    a.looseEquals b = .ok (a.isAbsent && b.isAbsent) :=
  looseEqualsWithin_answer (looseStep_of_absent other absent) 2

/-- Values of different types are never strictly equal. -/
theorem Same.kind (same : Same a b) : a.kind = b.kind := by
  cases same with
  | object left right =>
    have object {v : Value} {id : Identity} (h : v.identity? = some id) : v.kind = .object := by
      cases v <;> first | rfl | cases h
    rw [object left, object right]
  | _ => rfl

/-- **Loose equality is symmetric, ends soon and leaves no pair of values out.**  In both orders two
values compare with the same answer or are refused for the same reason.  Carried out without any
limit, a comparison makes two conversions at most, one within the other, before it ends, and at no
step it meets a pair of values that no rule applies to.  Values of one type are compared strictly,
so what is strictly equal is also loosely equal. -/
theorem looseEquals_symmetric (a b : Value) :
    a.looseEquals b = b.looseEquals a ∧
    (∃ n, n ≤ 2 ∧ ∀ m result, Decides a b m result ↔ m = n ∧ result = a.looseEquals b) ∧
    a.looseStep b ≠ .ok .unrelated ∧
    (a.strictEquals b = .ok true → a.looseEquals b = .ok true) ∧
    (a.kind = b.kind → a.looseEquals b = a.strictEquals b) := by
  have short : a.conversions + b.conversions ≤ 2 :=
    Nat.add_le_add (conversions_le_one a) (conversions_le_one b)
  obtain ⟨n, le, decides⟩ := decides_looseEqualsWithin (Nat.lt_succ_of_le short)
  refine ⟨looseEqualsWithin_comm 3 a b, ⟨n, Nat.le_trans le short, fun m result => ?_⟩,
    looseStep_ne_unrelated a b, fun equal => ?_, looseEquals_of_kind⟩
  · constructor
    · exact fun h => h.unique decides
    · rintro ⟨rfl, rfl⟩
      exact decides
  · rw [looseEquals_of_kind (strictEquals_eq_true_iff.mp equal).kind, equal]

/-- An array of `null` has an empty text, which is the number of `false`: two conversions. -/
theorem looseEquals_symmetric_null_item :
    let a := Value.list (.given 0) [.null]
    Decides a (.bool false) 2 (.ok true) ∧ a.looseEquals (.bool false) = .ok true ∧
      looseEquals (.bool false) a = .ok true ∧ a.looseEquals a = .ok true := by
  intro a
  have written : a.looseStep (.number (.int 0)) =
      .ok (.convert (.string "") (.number (.int 0))) := by cbv
  have read : (string "").toNumber = .ok (.double (.zero false)) := by cbv
  have zero : (Number.double (.zero false)).equals (.int 0) = .ok true := by decide +kernel
  have asNumbers : ((string "").toNumber >>= fun x => x.equals (.int 0)) = .ok true := by
    rw [read]
    exact zero
  have compared : looseStep (.string "") (.number (.int 0)) = .ok (.answer true) := by
    rw [looseStep_string_number, asNumbers]
    rfl
  -- The boolean is converted first, and then the array.
  have two : Decides a (.bool false) 2 (.ok true) :=
    .convert rfl (.convert written (.answer compared))
  obtain ⟨symmetric, ⟨n, -, decides⟩, -⟩ := looseEquals_symmetric a (.bool false)
  have equal : a.looseEquals (.bool false) = .ok true := ((decides 2 _).mp two).2.symm
  obtain ⟨-, -, -, ofStrict, -⟩ := looseEquals_symmetric a a
  exact ⟨two, equal, symmetric ▸ equal, ofStrict rfl⟩

end Value

end Visibility
