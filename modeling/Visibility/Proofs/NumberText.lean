import Mathlib.Data.List.Basic
import Visibility.Proofs.ExactValue

/-!
# The parts of a number text

A layout puts the digits of a number in place or behind an exponent, with zeros on either side where
digits are missing, and the reader of numerals takes a text apart by the point and the exponent.
Both go through the same parts: the digits before the point, those after it, and the exponent.

* `Numeral.decimal?_chars` — a text is read back into the parts it was made of
* `Layout.positive_eq_chars` — what a layout writes, part by part
* `Layout.laid_parts` — of the four ways to write a number, three to lay out its digits
* `Layout.Laid.size` — the parts denote the number that was written, zeros and all
* `Layout.Laid.canonical` — no needless zeros at either end of the digits
* `Layout.exponent_condition` — which numbers are written with an exponent
-/

namespace Visibility

/-! ## §1 Digits -/

/-- Digits denote the same number for every reader. -/
theorem ofDigits_eq_ofDigitChars {cs : List Char} (digits : ∀ c ∈ cs, isDigit c = true) :
    ofDigits 10 cs = Nat.ofDigitChars 10 cs 0 := by
  unfold ofDigits Nat.ofDigitChars
  generalize 0 = start
  -- Both are folds from the left, so the number that was read so far is any.
  induction cs generalizing start with
  | nil => rfl
  | cons c cs ih =>
    obtain ⟨first, others⟩ := List.forall_mem_cons.mp digits
    rw [List.foldl_cons, List.foldl_cons, digitValue_of_isDigit first, Nat.mul_comm start]
    exact ih others _

theorem isDigit_digitsOf (n : Nat) : ∀ c ∈ digitsOf n, isDigit c = true :=
  fun _ mem => Nat.isDigit_of_mem_toDigits (by decide) (by decide) mem

theorem isDigit_replicate (n : Nat) : ∀ c ∈ List.replicate n '0', isDigit c = true := by
  intro c mem
  rw [List.eq_of_mem_replicate mem]
  rfl

theorem ofDigits_digitsOf (n : Nat) : ofDigits 10 (digitsOf n) = n :=
  (ofDigits_eq_ofDigitChars (isDigit_digitsOf n)).trans Nat.ofDigitChars_ten_toDigits

/-- Zeros in front of digits count nothing. -/
theorem ofDigits_zeros_append {base : Nat} (n : Nat) (cs : List Char) :
    ofDigits base (List.replicate n '0' ++ cs) = ofDigits base cs := by
  unfold ofDigits
  induction n with
  | zero => rfl
  | succ n ih =>
    have first : 0 * base + digitValue '0' = 0 := Nat.zero_mul base
    rw [List.replicate_succ, List.cons_append, List.foldl_cons, first, ih]

/-- Each zero after digits counts a factor ten. -/
theorem ofDigits_append_zeros {cs : List Char} (digits : ∀ c ∈ cs, isDigit c = true) (n : Nat) :
    ofDigits 10 (cs ++ List.replicate n '0') = ofDigits 10 cs * tenPow n := by
  have all : ∀ c ∈ cs ++ List.replicate n '0', isDigit c = true :=
    List.forall_mem_append.mpr ⟨digits, isDigit_replicate n⟩
  rw [ofDigits_eq_ofDigitChars all, Nat.ofDigitChars_append, Nat.ofDigitChars_replicate_zero,
    ofDigits_eq_ofDigitChars digits, Nat.mul_comm]
  rfl

theorem length_digitsOf (n : Nat) : (digitsOf n).length = digitCount n := by
  unfold digitsOf
  fun_induction digitCount n with
  | case1 n small => rw [Nat.toDigits_of_lt_base small, List.length_singleton]
  | case2 n large ih =>
    rw [Nat.toDigits_eq_if (by decide), if_neg large, List.length_append, List.length_singleton, ih]

theorem digitsOf_ne_nil (n : Nat) : digitsOf n ≠ [] := Nat.toDigits_ne_nil

theorem digitChar_ne_zero {d : Nat} (nonzero : d ≠ 0) : Nat.digitChar d ≠ '0' :=
  fun same => nonzero (Nat.digitChar_eq_zero.mp same)

/-- A number that is not zero has no zero in front. -/
theorem head?_digitsOf {n : Nat} (nonzero : n ≠ 0) : (digitsOf n).head? ≠ some '0' := by
  induction n using Nat.strongRecOn with
  | ind n ih =>
    unfold digitsOf at ih ⊢
    rw [Nat.toDigits_eq_if (by decide)]
    split
    · exact fun same => digitChar_ne_zero nonzero (Option.some.inj same)
    · rw [List.head?_append_of_ne_nil _ Nat.toDigits_ne_nil]
      exact ih (n / 10) (by omega) (by omega)

/-- A number that is no multiple of ten has no zero at the end. -/
theorem getLast?_digitsOf {n : Nat} (ends : n % 10 ≠ 0) : (digitsOf n).getLast? ≠ some '0' := by
  unfold digitsOf
  rw [Nat.toDigits_eq_if (by decide)]
  split
  · rename_i small
    rw [Nat.mod_eq_of_lt small] at ends
    exact fun same => digitChar_ne_zero ends (Option.some.inj same)
  · rw [List.getLast?_append, List.getLast?_singleton]
    exact fun same => digitChar_ne_zero ends (Option.some.inj same)

/-- A scan of characters of a class stops where they do. -/
theorem scan_run {p : Char → Bool} {run rest : List Char} (all : ∀ c ∈ run, p c = true)
    (stop : rest.takeWhile p = []) :
    (run ++ rest).takeWhile p = run ∧ (run ++ rest).dropWhile p = rest := by
  have left : rest.dropWhile p = rest := by
    conv_rhs => rw [← List.takeWhile_append_dropWhile (p := p) (l := rest), stop]
    rfl
  rw [List.takeWhile_append_of_pos all, List.dropWhile_append_of_pos all, stop, left,
    List.append_nil]
  exact ⟨rfl, rfl⟩

/-! ## §2 Reading the parts of a text -/

namespace Numeral

/-- The digits before the point, those after it, and the exponent. -/
structure Parts where
  whole : List Char
  places : List Char
  exponent : Option Int
  deriving DecidableEq, Repr

namespace Parts

/-- The digits after the point, with the point if there are any. -/
def pointChars (p : Parts) : List Char :=
  if p.places = [] then [] else '.' :: p.places

/-- The exponent, of at least `width` digits. -/
def exponentChars (width : Nat) (p : Parts) : List Char :=
  match p.exponent with
  | none => []
  | some e => 'e' :: signedExponent width e

/-- The text of the parts. -/
def chars (width : Nat) (p : Parts) : List Char :=
  p.whole ++ (p.pointChars ++ p.exponentChars width)

/-- Digits on both sides of the point, and at least one before it. -/
structure Proper (p : Parts) : Prop where
  whole_ne_nil : p.whole ≠ []
  whole : ∀ c ∈ p.whole, isDigit c = true
  places : ∀ c ∈ p.places, isDigit c = true

/-- No zero in front but a single one before the point, and none at the end of the places. -/
structure Canonical (p : Parts) : Prop extends p.Proper where
  leading : p.whole = ['0'] ∨ p.whole.head? ≠ some '0'
  trailing : p.places.getLast? ≠ some '0'

/-- The number that the parts denote. -/
def value (negative : Bool) (p : Parts) : Scientific :=
  ⟨negative, ofDigits 10 (p.whole ++ p.places), p.exponent.getD 0 - p.places.length⟩

end Parts

theorem exponent?_signedExponent (width : Nat) (e : Int) :
    exponent? ('e' :: signedExponent width e) = some e := by
  set digits := List.replicate (width - (digitsOf e.natAbs).length) '0' ++ digitsOf e.natAbs
    with defDigits
  have split : sign (signedExponent width e) = (decide (e < 0), digits) := by
    unfold signedExponent
    by_cases negative : e < 0
    · simp only [negative, if_true, decide_true]
      rfl
    · simp only [negative, if_false, decide_false]
      rfl
  have nonempty : digits ≠ [] := List.append_ne_nil_of_right_ne_nil _ (digitsOf_ne_nil _)
  have all : digits.all isDigit = true :=
    List.all_eq_true.mpr (List.forall_mem_append.mpr ⟨isDigit_replicate _, isDigit_digitsOf _⟩)
  -- The zeros that fill up the width do not count.
  have value : ofDigits 10 digits = e.natAbs := by
    rw [defDigits, ofDigits_zeros_append, ofDigits_digitsOf]
  unfold exponent?
  simp only [split, nonempty, all, value, ne_eq, not_false_eq_true, true_or, true_and, if_true,
    decide_eq_true_eq, Option.some.injEq]
  split_ifs <;> omega

theorem sign_signChars {c : Char} {cs : List Char} (first : isDigit c = true) (negative : Bool) :
    sign (signChars negative ++ c :: cs) = (negative, c :: cs) := by
  cases negative with
  | true => rfl
  | false =>
    show sign (c :: cs) = _
    unfold sign
    split
    · rename_i same
      obtain ⟨rfl, -⟩ := List.cons.inj same
      cases first
    · rename_i same
      obtain ⟨rfl, -⟩ := List.cons.inj same
      cases first
    · rfl

namespace Parts

variable {p : Parts} (width : Nat)

/-- No digit follows the digits after the point. -/
theorem takeWhile_exponentChars : (p.exponentChars width).takeWhile isDigit = [] := by
  unfold exponentChars
  cases p.exponent <;> rfl

theorem fraction_chars (proper : p.Proper) :
    fraction (p.pointChars ++ p.exponentChars width) = (p.places, p.exponentChars width) := by
  unfold pointChars
  split
  · rename_i none
    rw [none, List.nil_append]
    unfold exponentChars
    cases p.exponent <;> rfl
  · obtain ⟨digits, rest⟩ := scan_run proper.places (takeWhile_exponentChars width)
    exact Prod.ext digits rest

/-- No digit follows the digits before the point. -/
theorem takeWhile_rest :
    (p.pointChars ++ p.exponentChars width).takeWhile isDigit = [] := by
  unfold pointChars
  split
  · exact takeWhile_exponentChars width
  · rfl

theorem exponent?_chars : exponent? (p.exponentChars width) = some (p.exponent.getD 0) := by
  unfold exponentChars
  cases p.exponent with
  | none => rfl
  | some e => exact exponent?_signedExponent width e

end Parts

/-- A text is read back into the parts it was made of. -/
theorem decimal?_chars {p : Parts} (proper : p.Proper) (negative : Bool) (width : Nat) :
    decimal? (signChars negative ++ p.chars width) = some (p.value negative) := by
  obtain ⟨c, cs, same⟩ := List.exists_cons_of_ne_nil proper.whole_ne_nil
  have first : isDigit c = true := proper.whole c (by rw [same]; exact List.mem_cons_self)
  have split : sign (signChars negative ++ p.chars width) = (negative, p.chars width) := by
    unfold Parts.chars
    rw [same]
    exact sign_signChars first negative
  obtain ⟨whole, rest⟩ := scan_run proper.whole (Parts.takeWhile_rest (p := p) width)
  unfold Parts.chars at split ⊢
  unfold decimal?
  simp only [split, whole, rest, Parts.fraction_chars width proper, proper.whole_ne_nil, false_and,
    if_false, Parts.exponent?_chars width]
  rfl

end Numeral

/-! ## §3 What a layout writes -/

namespace Layout

open Numeral (Parts)

/-- The parts of the text of the positive number `coefficient * 10 ^ exponent`. -/
def parts (layout : Layout) (x : Scientific) : Parts :=
  let digits := digitsOf x.coefficient
  if layout.lowestPoint ≤ x.magnitude ∧ x.magnitude ≤ layout.highestPoint then
    if x.magnitude ≤ 0 then
      ⟨['0'], List.replicate x.magnitude.natAbs '0' ++ digits, none⟩
    else if digits.length ≤ x.magnitude then
      ⟨digits ++ List.replicate x.exponent.toNat '0', layout.wholeSuffix.tail, none⟩
    else
      ⟨digits.take x.magnitude.toNat, digits.drop x.magnitude.toNat, none⟩
  else
    ⟨digits.take 1, digits.drop 1, some (x.magnitude - 1)⟩

/-- After a whole number stand `m` zeros behind a point, and no point if there are none. -/
def ZeroSuffix (layout : Layout) (m : Nat) : Prop :=
  layout.wholeSuffix = if m = 0 then [] else '.' :: List.replicate m '0'

theorem zeroSuffix_condition : ZeroSuffix condition 0 := rfl

theorem zeroSuffix_json : ZeroSuffix json 1 := rfl

variable {layout : Layout} {m : Nat} {x : Scientific} {p : Parts}

theorem ZeroSuffix.tail (suffix : layout.ZeroSuffix m) :
    layout.wholeSuffix.tail = List.replicate m '0' := by
  rw [suffix]
  cases m <;> rfl

theorem leadingPoint_eq (digits : List Char) :
    leadingPoint digits =
      digits.take 1 ++ if digits.drop 1 = [] then [] else '.' :: digits.drop 1 := by
  match digits with
  | [] => rfl
  | [_] => rfl
  | _ :: _ :: _ => rfl

/-- The point stands after as many digits as the magnitude says. -/
theorem point_eq_magnitude (x : Scientific) :
    ((digitsOf x.coefficient).length : Int) + x.exponent = x.magnitude := by
  rw [length_digitsOf]
  rfl

/-- What a layout writes, part by part. -/
theorem positive_eq_chars (suffix : layout.ZeroSuffix m) (x : Scientific) :
    layout.positive x = (layout.parts x).chars layout.exponentWidth := by
  have point := point_eq_magnitude x
  have nonempty : digitsOf x.coefficient ≠ [] := digitsOf_ne_nil _
  have someDigit := List.length_pos_iff.mpr nonempty
  unfold positive parts Parts.chars Parts.pointChars Parts.exponentChars
  dsimp only
  rw [point]
  generalize digitsOf x.coefficient = digits at *
  split
  · -- In place, both sides ask where the point stands, one after the other.
    unfold placePoint
    split
    · -- A point before the digits leaves no room for what follows a whole number.
      have before : ¬(digits.length : Int) ≤ x.magnitude := by omega
      have places : List.replicate x.magnitude.natAbs '0' ++ digits ≠ [] :=
        List.append_ne_nil_of_right_ne_nil _ nonempty
      simp only [before, places, if_false, List.append_nil, List.cons_append, List.nil_append]
    · rename_i positive
      by_cases whole : (digits.length : Int) ≤ x.magnitude
      · have after : digits.length ≤ x.magnitude.toNat := by omega
        have zeros : x.magnitude.toNat - digits.length = x.exponent.toNat := by omega
        simp only [whole, after, zeros, if_true, suffix.tail, List.append_nil]
        rw [suffix]
        cases m <;> rfl
      · have among : ¬digits.length ≤ x.magnitude.toNat := by omega
        have places : digits.drop x.magnitude.toNat ≠ [] := by
          rw [ne_eq, List.drop_eq_nil_iff]
          exact among
        simp only [whole, among, places, if_false, List.append_nil]
  · rw [leadingPoint_eq, List.append_assoc]

/-- How the digits of a number are laid out: behind a zero and the point, in front of it with zeros
for missing digits and `m` zeros behind, or on both sides. -/
inductive Laid (m : Nat) (x : Scientific) : Parts → Prop where
  | behind (n : Nat) : x.exponent = -(n + digitCount x.coefficient : Int) →
      Laid m x ⟨['0'], List.replicate n '0' ++ digitsOf x.coefficient, none⟩
  | front (n : Nat) : x.exponent = n →
      Laid m x ⟨digitsOf x.coefficient ++ List.replicate n '0', List.replicate m '0', none⟩
  | split (n : Nat) (e : Option Int) : 0 < n → n ≤ digitCount x.coefficient →
      x.exponent = e.getD 0 - (digitCount x.coefficient - n : Int) →
      Laid m x ⟨(digitsOf x.coefficient).take n, (digitsOf x.coefficient).drop n, e⟩

/-- A layout chooses one of them; in place or before an exponent, a split is the same. -/
theorem laid_parts (suffix : layout.ZeroSuffix m) (x : Scientific) : Laid m x (layout.parts x) := by
  have digits := digitCount_pos x.coefficient
  have magnitude : x.magnitude = digitCount x.coefficient + x.exponent := rfl
  unfold parts
  dsimp only
  rw [length_digitsOf, suffix.tail]
  split_ifs with inPlace before whole
  · exact .behind _ (by omega)
  · exact .front _ (by omega)
  · exact .split _ none (by omega) (by omega) (by rw [Option.getD_none]; omega)
  · exact .split 1 (some _) Nat.one_pos digits (by rw [Option.getD_some]; omega)

theorem Laid.proper (laid : Laid m x p) : p.Proper := by
  have nonempty : digitsOf x.coefficient ≠ [] := digitsOf_ne_nil _
  have digits : ∀ c ∈ digitsOf x.coefficient, isDigit c = true := isDigit_digitsOf _
  cases laid with
  | behind n _ =>
    exact ⟨List.cons_ne_nil _ _, List.forall_mem_singleton.mpr rfl,
      List.forall_mem_append.mpr ⟨isDigit_replicate n, digits⟩⟩
  | front n _ =>
    exact ⟨List.append_ne_nil_of_left_ne_nil nonempty _,
      List.forall_mem_append.mpr ⟨digits, isDigit_replicate n⟩, isDigit_replicate m⟩
  | split n e positive _ _ =>
    refine ⟨?_, fun c mem => digits c (List.mem_of_mem_take mem),
      fun c mem => digits c (List.mem_of_mem_drop mem)⟩
    rw [ne_eq, List.take_eq_nil_iff]
    exact not_or.mpr ⟨positive.ne', nonempty⟩

/-- A coefficient with zeros at its end, and as many more places. -/
theorem size_mul_tenPow (negative sign : Bool) (c n : Nat) (e : Int) :
    (⟨negative, c * tenPow n, e - n⟩ : Scientific).size = (⟨sign, c, e⟩ : Scientific).size := by
  unfold Scientific.size
  dsimp only
  rw [Nat.cast_mul, cast_tenPow, zpow_sub₀ (by norm_num), zpow_natCast, mul_assoc, ← mul_div_assoc,
    mul_div_cancel_left₀ _ (pow_ne_zero n (by norm_num))]

/-- The parts denote the number that was written, zeros and all. -/
theorem Laid.size (laid : Laid m x p) (negative : Bool) : (p.value negative).size = x.size := by
  have written : ofDigits 10 (digitsOf x.coefficient) = x.coefficient := ofDigits_digitsOf _
  unfold Parts.value
  cases laid with
  -- Zeros in front of the digits do not count, zeros behind them are powers of ten, and a point
  -- between them moves the exponent.
  | behind n places =>
    have digits : ofDigits 10 ('0' :: (List.replicate n '0' ++ digitsOf x.coefficient)) =
        x.coefficient := (ofDigits_zeros_append (n + 1) _).trans written
    have exponent : x.exponent = 0 - ((n + digitCount x.coefficient : Nat) : Int) := by omega
    dsimp only [List.cons_append, List.nil_append, Option.getD_none]
    rw [digits, List.length_append, List.length_replicate, length_digitsOf, ← exponent]
    rfl
  | front n places =>
    have exponent : 0 - (m : Int) = x.exponent - ((n + m : Nat) : Int) := by omega
    dsimp only [Option.getD_none]
    rw [List.append_assoc, List.replicate_append_replicate,
      ofDigits_append_zeros (isDigit_digitsOf _), written, List.length_replicate, exponent]
    exact size_mul_tenPow ..
  | split n e positive fits places =>
    have exponent : x.exponent = e.getD 0 - ((digitCount x.coefficient - n : Nat) : Int) := by omega
    dsimp only
    rw [List.take_append_drop, written, List.length_drop, length_digitsOf, ← exponent]
    rfl

/-! ## §4 The layout of condition code -/

/-- No number is written with a needless zero in front. -/
theorem Laid.leading (laid : Laid m x p) (nonzero : x.coefficient ≠ 0) :
    p.whole = ['0'] ∨ p.whole.head? ≠ some '0' := by
  have front : (digitsOf x.coefficient).head? ≠ some '0' := head?_digitsOf nonzero
  cases laid with
  | behind n _ => exact .inl rfl
  | front n _ =>
    refine .inr ?_
    rw [List.head?_append_of_ne_nil _ (digitsOf_ne_nil _)]
    exact front
  | split n e positive _ _ =>
    refine .inr ?_
    rw [List.head?_take, if_neg positive.ne']
    exact front

/-- A number that is no multiple of ten is written without needless zeros at all. -/
theorem Laid.canonical (laid : Laid 0 x p) (ends : x.coefficient % 10 ≠ 0) : p.Canonical := by
  have nonzero : x.coefficient ≠ 0 := by
    intro zero
    rw [zero] at ends
    exact ends rfl
  have back : (digitsOf x.coefficient).getLast? ≠ some '0' := getLast?_digitsOf ends
  refine ⟨laid.proper, laid.leading nonzero, ?_⟩
  cases laid with
  | behind n _ =>
    rw [List.getLast?_append_of_ne_nil _ (digitsOf_ne_nil _)]
    exact back
  | front n _ => exact Option.some_ne_none _ |>.symm
  | split n e _ _ _ =>
    rw [List.getLast?_drop]
    split_ifs
    · exact (Option.some_ne_none _).symm
    · exact back

/-- The letter of the exponent stands nowhere else. -/
theorem e_mem_chars_iff (proper : p.Proper) (width : Nat) :
    'e' ∈ p.chars width ↔ p.exponent.isSome = true := by
  have whole : 'e' ∉ p.whole := fun mem => Bool.false_ne_true (proper.whole _ mem)
  have places : 'e' ∉ p.pointChars := by
    unfold Parts.pointChars
    split
    · exact List.not_mem_nil
    · intro mem
      rcases List.mem_cons.mp mem with point | place
      · exact absurd point (by decide)
      · exact Bool.false_ne_true (proper.places _ place)
  unfold Parts.chars Parts.exponentChars
  simp only [List.mem_append, whole, places, false_or]
  cases p.exponent <;> simp

/-- An exponent is written for numbers below a millionth and from `10 ^ 21` on. -/
theorem exponent_condition (nonzero : x.coefficient ≠ 0) :
    (condition.parts x).exponent.isSome = true ↔
      x.size < 10 ^ (-6 : Int) ∨ 10 ^ (21 : Int) ≤ x.size := by
  have large : (1 : ℚ) < 10 := by norm_num
  -- A number lies between the powers of ten around its magnitude, where the layout changes.
  have below : x.size < 10 ^ x.magnitude := Scientific.size_lt x
  have above : (10 : ℚ) ^ (x.magnitude - 1) ≤ x.size := Scientific.le_size nonzero
  have outside : (condition.parts x).exponent.isSome = true ↔
      x.magnitude < -5 ∨ 21 < x.magnitude := by
    unfold parts condition
    dsimp only
    split_ifs <;> simp <;> omega
  rw [outside]
  apply or_congr
  · constructor
    · intro small
      exact below.trans_le ((zpow_le_zpow_iff_right₀ large).mpr (by omega))
    · intro small
      have := (zpow_lt_zpow_iff_right₀ large).mp (above.trans_lt small)
      omega
  · constructor
    · intro reached
      exact ((zpow_le_zpow_iff_right₀ large).mpr (by omega)).trans above
    · intro reached
      exact (zpow_lt_zpow_iff_right₀ large).mp (reached.trans_lt below)

end Layout

end Visibility
