import Visibility.Proofs.CorrectRounding
import Visibility.Proofs.NumberRoundTrip

/-!
# The numerals of strings

Which strings have a number, and which number it is.  The numerals are stated as rules over
characters, without any reader, and their numbers as correctly rounded doubles, without any
rounding:

* a decimal numeral := sign? mantissa exponent?
* a mantissa := digits | digits? `.` digits?, with one digit at least
* an exponent := `e` sign? digits
* a radix numeral := `0` letter digits, the letter and the digits of base sixteen, eight or two

Beside them stand the empty text and the word `Infinity` with an optional sign.

* `decimal?_eq_some`, `radixNumeral?_eq_some_iff` — the readers accept what the rules derive
* `Denotes` — the number that a text has by these rules
* `denotes_iff` — the conversion gives this number, and NaN exactly where there is none
* `toNumber_string` — all of it, for every string
-/

namespace Visibility

/-! ## §1 Spaces around a text -/

/-- Trimming takes away what satisfies the predicate at both ends, and no more. -/
theorem Text.trim_spec (p : Char → Bool) (cs : List Char) :
    (∃ front back, cs = front ++ (trim p cs ++ back) ∧ (∀ c ∈ front ++ back, p c = true)) ∧
      (∀ c, (trim p cs).head? = some c → p c = false) ∧
      ∀ c, (trim p cs).getLast? = some c → p c = false := by
  have stop (ds : List Char) {c : Char} (first : (ds.dropWhile p).head? = some c) :
      p c = false := by
    have := List.head?_dropWhile_not p ds
    rwa [first] at this
  -- What is dropped at the end is the run that was taken from the reversed text.
  have back : trim p cs ++ ((cs.dropWhile p).reverse.takeWhile p).reverse = cs.dropWhile p := by
    unfold trim
    rw [← List.reverse_append, List.takeWhile_append_dropWhile, List.reverse_reverse]
  refine ⟨⟨cs.takeWhile p, ((cs.dropWhile p).reverse.takeWhile p).reverse, ?_, ?_⟩,
    fun c first => ?_, fun c last => ?_⟩
  · rw [back, List.takeWhile_append_dropWhile]
  · refine List.forall_mem_append.mpr ⟨List.all_eq_true.mp List.all_takeWhile, fun c mem => ?_⟩
    exact List.all_eq_true.mp List.all_takeWhile c (List.mem_reverse.mp mem)
  · refine stop cs ?_
    rw [← back, List.head?_append, first]
    rfl
  · unfold trim at last
    rw [List.getLast?_reverse] at last
    exact stop _ last

namespace Numeral

/-! ## §2 The rules -/

/-- A sign that may be missing; true is minus. -/
inductive SignText : List Char → Bool → Prop where
  | none : SignText [] false
  | plus : SignText ['+'] false
  | minus : SignText ['-'] true

/-- Digits with at most one point, and one digit at least: the text, the digits before the point and
those after it. -/
inductive Mantissa : List Char → List Char → List Char → Prop where
  | whole {whole : List Char} :
      whole ≠ [] → (∀ c ∈ whole, isDigit c = true) → Mantissa whole whole []
  | point {whole places : List Char} :
      whole ++ places ≠ [] → (∀ c ∈ whole, isDigit c = true) → (∀ c ∈ places, isDigit c = true) →
      Mantissa (whole ++ '.' :: places) whole places

/-- An exponent that may be missing. -/
inductive ExponentText : List Char → Int → Prop where
  | none : ExponentText [] 0
  | digits {e : Char} {signText digits : List Char} {negative : Bool} :
      e = 'e' ∨ e = 'E' → SignText signText negative →
      digits ≠ [] → (∀ c ∈ digits, isDigit c = true) →
      ExponentText (e :: (signText ++ digits))
        (if negative then -(ofDigits 10 digits : Int) else ofDigits 10 digits)

/-- A decimal numeral and the number that it denotes: the digits without the point, with a place
less for each digit behind it. -/
inductive DecimalNumeral : List Char → Scientific → Prop where
  | parts {signText mantissa whole places exponentText : List Char} {negative : Bool}
      {exponent : Int} :
      SignText signText negative → Mantissa mantissa whole places →
      ExponentText exponentText exponent →
      DecimalNumeral (signText ++ (mantissa ++ exponentText))
        ⟨negative, ofDigits 10 (whole ++ places), exponent - places.length⟩

/-- The letter of a base, in either case, and its digits. -/
inductive BaseLetter : Char → Nat → (Char → Bool) → Prop where
  | hexadecimal {letter : Char} : letter = 'x' ∨ letter = 'X' → BaseLetter letter 16 isHexDigit
  | octal {letter : Char} : letter = 'o' ∨ letter = 'O' → BaseLetter letter 8 isOctalDigit
  | binary {letter : Char} : letter = 'b' ∨ letter = 'B' → BaseLetter letter 2 isBinaryDigit

/-- A radix numeral and the number that it denotes. -/
inductive RadixNumeral : List Char → Nat → Prop where
  | digits {letter : Char} {base : Nat} {isBaseDigit : Char → Bool} {digits : List Char} :
      BaseLetter letter base isBaseDigit → digits ≠ [] → (∀ c ∈ digits, isBaseDigit c = true) →
      RadixNumeral ('0' :: letter :: digits) (ofDigits base digits)

/-- The number that a text without spaces around it has, or how it fails to have one. -/
inductive Denotes : List Char → Except CoercionError Double → Prop where
  | empty : Denotes [] (.ok (.zero false))
  | infinity {signText : List Char} {negative : Bool} :
      SignText signText negative →
      Denotes (signText ++ "Infinity".toList) (.ok (.infinite negative))
  | radix {cs : List Char} {n : Nat} {x : Double} :
      RadixNumeral cs n → n < Double.overflowStart → Double.Nearest false n x → Denotes cs (.ok x)
  | tooLarge {cs : List Char} {n : Nat} :
      RadixNumeral cs n → Double.overflowStart ≤ n → Denotes cs (.error .integerTooLarge)
  | decimal {cs : List Char} {value : Scientific} {x : Double} :
      DecimalNumeral cs value → Double.Nearest value.negative value.size x → Denotes cs (.ok x)

/-! ## §3 Decimal numerals -/

variable {cs : List Char}

theorem exists_signText (cs : List Char) :
    ∃ signText, SignText signText (sign cs).1 ∧ cs = signText ++ (sign cs).2 := by
  unfold sign
  split
  · exact ⟨['+'], .plus, rfl⟩
  · exact ⟨['-'], .minus, rfl⟩
  · exact ⟨[], .none, rfl⟩

theorem sign_of_ne {c : Char} (notPlus : c ≠ '+') (notMinus : c ≠ '-') (cs : List Char) :
    sign (c :: cs) = (false, c :: cs) := by
  unfold sign
  split
  · rename_i same
    exact absurd (List.cons.inj same).1 notPlus
  · rename_i same
    exact absurd (List.cons.inj same).1 notMinus
  · rfl

/-- A sign is split off if no other one follows it. -/
theorem SignText.sign_append {signText : List Char} {negative : Bool} {c : Char}
    (h : SignText signText negative) (notPlus : c ≠ '+') (notMinus : c ≠ '-') (cs : List Char) :
    sign (signText ++ c :: cs) = (negative, c :: cs) := by
  cases h with
  | none => exact sign_of_ne notPlus notMinus cs
  | plus | minus => rfl

theorem isDigit_ne {c d : Char} (digit : isDigit c = true) (other : isDigit d = false) : c ≠ d := by
  rintro rfl
  rw [digit] at other
  cases other

/-- The reader of exponents accepts what the rule derives. -/
theorem exponent?_eq_some {exponent : Int} :
    exponent? cs = some exponent ↔ ExponentText cs exponent := by
  constructor
  · intro read
    cases cs with
    | nil =>
      cases read
      exact .none
    | cons e cs =>
      obtain ⟨signText, isSign, split⟩ := exists_signText cs
      unfold exponent? at read
      dsimp only at read
      split at read
      · rename_i accepted
        obtain ⟨letter, nonempty, digits⟩ := accepted
        cases read
        conv => enter [1]; rw [split]
        exact .digits letter isSign nonempty (List.all_eq_true.mp digits)
      · cases read
  · intro text
    cases text with
    | none => rfl
    | @digits e signText digits negative letter isSign nonempty all =>
      obtain ⟨c, cs, rfl⟩ := List.exists_cons_of_ne_nil nonempty
      have first : isDigit c = true := all c List.mem_cons_self
      have split := isSign.sign_append (isDigit_ne first rfl) (isDigit_ne first rfl) cs
      unfold exponent?
      simp only [split, letter, nonempty, List.all_eq_true.mpr all, ne_eq, not_false_eq_true,
        and_self, if_true]

/-- No digit and no point follows where an exponent starts. -/
theorem ExponentText.start {exponent : Int} (h : ExponentText cs exponent) :
    cs.takeWhile isDigit = [] ∧ fraction cs = ([], cs) := by
  cases h with
  | none => exact ⟨rfl, rfl⟩
  | digits letter _ _ _ => rcases letter with rfl | rfl <;> exact ⟨rfl, rfl⟩

theorem Mantissa.head {mantissa whole places : List Char} (h : Mantissa mantissa whole places) :
    ∃ c cs, mantissa = c :: cs ∧ (isDigit c = true ∨ c = '.') := by
  cases h with
  | whole nonempty digits =>
    obtain ⟨c, cs, rfl⟩ := List.exists_cons_of_ne_nil nonempty
    exact ⟨c, cs, rfl, .inl (digits c List.mem_cons_self)⟩
  | @point _ places _ digits _ =>
    cases whole with
    | nil => exact ⟨'.', places, rfl, .inr rfl⟩
    | cons c cs => exact ⟨c, _, rfl, .inl (digits c List.mem_cons_self)⟩

/-- A sign before a mantissa is split off. -/
theorem Mantissa.sign_append {mantissa whole places signText : List Char} {negative : Bool}
    (h : Mantissa mantissa whole places) (isSign : SignText signText negative) (rest : List Char) :
    sign (signText ++ (mantissa ++ rest)) = (negative, mantissa ++ rest) := by
  obtain ⟨c, cs, rfl, first⟩ := h.head
  rcases first with digit | rfl
  · exact isSign.sign_append (isDigit_ne digit rfl) (isDigit_ne digit rfl) _
  · exact isSign.sign_append (by decide) (by decide) _

/-- A mantissa is cut at its point, and what follows it is left. -/
theorem Mantissa.cut {mantissa whole places rest : List Char} (h : Mantissa mantissa whole places)
    (noDigit : rest.takeWhile isDigit = []) (noPoint : fraction rest = ([], rest)) :
    (mantissa ++ rest).takeWhile isDigit = whole ∧
      fraction ((mantissa ++ rest).dropWhile isDigit) = (places, rest) ∧ whole ++ places ≠ [] := by
  cases h with
  | whole nonempty digits =>
    obtain ⟨taken, left⟩ := scan_run digits noDigit
    exact ⟨taken, by rw [left, noPoint], List.append_ne_nil_of_left_ne_nil nonempty _⟩
  | point nonempty digits more =>
    have stop : ('.' :: (places ++ rest)).takeWhile isDigit = [] := rfl
    obtain ⟨taken, left⟩ := scan_run digits stop
    obtain ⟨takenPlaces, leftRest⟩ := scan_run more noDigit
    rw [List.append_assoc, List.cons_append, left]
    exact ⟨taken, Prod.ext takenPlaces leftRest, nonempty⟩

/-- What the reader takes before the exponent is a mantissa, if it has a digit. -/
theorem exists_mantissa (cs : List Char) :
    let whole := cs.takeWhile isDigit
    let after := fraction (cs.dropWhile isDigit)
    whole ++ after.1 ≠ [] →
      ∃ mantissa, Mantissa mantissa whole after.1 ∧ cs = mantissa ++ after.2 := by
  intro whole after nonempty
  have digits : ∀ c ∈ whole, isDigit c = true := List.all_eq_true.mp List.all_takeWhile
  have split : whole ++ cs.dropWhile isDigit = cs := List.takeWhile_append_dropWhile
  have cases : (∃ rest, cs.dropWhile isDigit = '.' :: rest ∧
      after = (rest.takeWhile isDigit, rest.dropWhile isDigit)) ∨
      after = ([], cs.dropWhile isDigit) := by
    show (∃ rest, cs.dropWhile isDigit = '.' :: rest ∧ fraction _ = _) ∨ fraction _ = _
    generalize cs.dropWhile isDigit = ds
    unfold fraction
    split
    · exact .inl ⟨_, rfl, rfl⟩
    · exact .inr rfl
  rcases cases with ⟨rest, point, same⟩ | same
  · rw [same] at nonempty ⊢
    refine ⟨_, .point nonempty digits (List.all_eq_true.mp List.all_takeWhile), ?_⟩
    rw [List.append_assoc, List.cons_append, List.takeWhile_append_dropWhile, ← point, split]
  · rw [same] at nonempty ⊢
    rw [List.append_nil] at nonempty
    exact ⟨_, .whole nonempty digits, split.symm⟩

/-- The reader of decimal numerals accepts what the rule derives. -/
theorem decimal?_eq_some {x : Scientific} : decimal? cs = some x ↔ DecimalNumeral cs x := by
  constructor
  · intro read
    obtain ⟨signText, isSign, split⟩ := exists_signText cs
    unfold decimal? at read
    dsimp only at read
    split at read
    · cases read
    · rename_i someDigit
      obtain ⟨exponent, readExponent, rfl⟩ := Option.map_eq_some_iff.mp read
      have nonempty : ((sign cs).2.takeWhile isDigit) ++
          (fraction ((sign cs).2.dropWhile isDigit)).1 ≠ [] := by
        rwa [ne_eq, List.append_eq_nil_iff]
      obtain ⟨mantissa, isMantissa, rest⟩ := exists_mantissa (sign cs).2 nonempty
      conv => enter [1]; rw [split, rest]
      exact .parts isSign isMantissa (exponent?_eq_some.mp readExponent)
  · intro numeral
    cases numeral with
    | parts isSign isMantissa isExponent =>
      obtain ⟨noDigit, noPoint⟩ := isExponent.start
      obtain ⟨taken, left, nonempty⟩ := isMantissa.cut noDigit noPoint
      unfold decimal?
      simp only [isMantissa.sign_append isSign, taken, left]
      rw [if_neg (by rwa [← List.append_eq_nil_iff]), exponent?_eq_some.mpr isExponent]
      rfl

/-! ## §4 Radix numerals -/

theorem radix?_eq_some {letter : Char} {base : Nat} {isBaseDigit : Char → Bool} :
    radix? letter = some (base, isBaseDigit) ↔ BaseLetter letter base isBaseDigit := by
  constructor
  · intro known
    unfold radix? at known
    split at known
    · cases known
      exact .hexadecimal (.inl rfl)
    · cases known
      exact .hexadecimal (.inr rfl)
    · cases known
      exact .octal (.inl rfl)
    · cases known
      exact .octal (.inr rfl)
    · cases known
      exact .binary (.inl rfl)
    · cases known
      exact .binary (.inr rfl)
    · cases known
  · intro known
    cases known with
    | hexadecimal same | octal same | binary same => rcases same with rfl | rfl <;> rfl

/-- The reader of radix numerals accepts what the rule derives. -/
theorem radixNumeral?_eq_some_iff {n : Nat} : radixNumeral? cs = some n ↔ RadixNumeral cs n := by
  constructor
  · intro read
    unfold radixNumeral? at read
    split at read
    · rename_i letter digits
      obtain ⟨⟨base, isBaseDigit⟩, known, accepted⟩ := Option.bind_eq_some_iff.mp read
      obtain ⟨⟨nonempty, all⟩, same⟩ := Option.ite_none_right_eq_some.mp accepted
      cases same
      exact .digits (radix?_eq_some.mp known) nonempty (List.all_eq_true.mp all)
    · cases read
  · intro numeral
    cases numeral with
    | digits known nonempty all =>
      unfold radixNumeral?
      simp only [radix?_eq_some.mpr known, Option.bind_some, ne_eq, nonempty, not_false_eq_true,
        List.all_eq_true.mpr all, and_self, if_true]

/-- A radix numeral is no decimal one, with or without a sign before it. -/
theorem RadixNumeral.decimal?_eq_none {n : Nat} (h : RadixNumeral cs n) {signText : List Char}
    {negative : Bool} (isSign : SignText signText negative) : decimal? (signText ++ cs) = none := by
  cases h with
  | digits known _ _ =>
    cases isSign <;>
      cases known with
      | hexadecimal same | octal same | binary same => rcases same with rfl | rfl <;> rfl

/-! ## §5 The number of a text -/

theorem trimmedValue_nil : trimmedValue [] = .ok (.zero false) :=
  if_pos rfl

/-- The word for infinity, with a sign. -/
theorem trimmedValue_infinity {signText : List Char} {negative : Bool}
    (h : SignText signText negative) :
    trimmedValue (signText ++ "Infinity".toList) = .ok (.infinite negative) := by
  cases h <;> rfl

/-- The texts that are neither empty nor a word. -/
structure NoWord (cs : List Char) : Prop where
  nonempty : cs ≠ []
  no_infinity : ∀ signText negative, SignText signText negative → cs ≠ signText ++ "Infinity".toList

/-- They have the number that the readers find. -/
theorem NoWord.trimmedValue_eq (h : NoWord cs) :
    (∀ n : Nat, radixNumeral? cs = some n →
      trimmedValue cs = (Double.ofInt n).refuseInfinite .integerTooLarge) ∧
    (radixNumeral? cs = none → ∀ x, decimal? cs = some x →
      trimmedValue cs = .ok (.ofScientific x)) ∧
    (radixNumeral? cs = none → decimal? cs = none → trimmedValue cs = .ok .nan) := by
  have plain : cs ≠ "Infinity".toList := h.no_infinity [] _ .none
  have plus : cs ≠ "+Infinity".toList := h.no_infinity ['+'] _ .plus
  have minus : cs ≠ "-Infinity".toList := h.no_infinity ['-'] _ .minus
  unfold trimmedValue
  rw [if_neg h.nonempty, if_neg (not_or.mpr ⟨plain, plus⟩), if_neg minus]
  refine ⟨fun n radix => ?_, fun none x decimal => ?_, fun none noDecimal => ?_⟩
  · simp only [radix]
  · simp only [none, decimal]
    rfl
  · simp only [none, noDecimal]
    rfl

theorem RadixNumeral.noWord {n : Nat} (h : RadixNumeral cs n) : NoWord cs := by
  constructor
  · rintro rfl
    cases h
  · rintro signText negative isSign rfl
    cases isSign <;> cases h

theorem DecimalNumeral.noWord {x : Scientific} (h : DecimalNumeral cs x) : NoWord cs := by
  have read := decimal?_eq_some.mpr h
  constructor
  · rintro rfl
    cases read
  · rintro signText negative isSign rfl
    cases isSign <;> cases read

theorem trimmedValue_radix {n : Nat} (h : RadixNumeral cs n) :
    trimmedValue cs = (Double.ofInt n).refuseInfinite .integerTooLarge :=
  h.noWord.trimmedValue_eq.1 n (radixNumeral?_eq_some_iff.mpr h)

theorem trimmedValue_radix_of_lt {n : Nat} (h : RadixNumeral cs n)
    (small : n < Double.overflowStart) : trimmedValue cs = .ok (.ofInt n) := by
  have finite : ¬(Double.ofInt n).isInfinite = true := by
    rw [Double.isInfinite_ofInt, Int.natAbs_natCast]
    exact small.not_ge
  rw [trimmedValue_radix h, Double.refuseInfinite, if_neg finite]

theorem trimmedValue_radix_of_ge {n : Nat} (h : RadixNumeral cs n)
    (large : Double.overflowStart ≤ n) : trimmedValue cs = .error .integerTooLarge := by
  rw [trimmedValue_radix h, Double.refuseInfinite_eq_error, Double.isInfinite_ofInt]
  exact ⟨large, rfl⟩

theorem trimmedValue_decimal {x : Scientific} (h : DecimalNumeral cs x) :
    trimmedValue cs = .ok (.ofScientific x) := by
  have read := decimal?_eq_some.mpr h
  have noRadix : radixNumeral? cs = none := by
    by_contra radix
    obtain ⟨n, radix⟩ := Option.ne_none_iff_exists'.mp radix
    have none : decimal? cs = none :=
      (radixNumeral?_eq_some_iff.mp radix).decimal?_eq_none .none
    rw [none] at read
    cases read
  exact h.noWord.trimmedValue_eq.2.1 noRadix x read

theorem ok_ne_nan {negative : Bool} {size : ℚ} {x : Double}
    (h : Double.Nearest negative size x) : (.ok x : Except CoercionError Double) ≠ .ok .nan := by
  intro same
  rw [Except.ok.inj same] at h
  cases h

/-- The conversion gives the number that the rules do. -/
theorem Denotes.trimmedValue_eq {result : Except CoercionError Double} (h : Denotes cs result) :
    trimmedValue cs = result ∧ result ≠ .ok .nan := by
  cases h with
  | empty => exact ⟨trimmedValue_nil, ok_ne_nan (Double.nearest_zero false)⟩
  | infinity isSign => exact ⟨trimmedValue_infinity isSign, by simp⟩
  | @radix _ n _ numeral small nearest =>
    rw [nearest.unique (Double.nearest_ofNat n)]
    exact ⟨trimmedValue_radix_of_lt numeral small, ok_ne_nan (Double.nearest_ofNat n)⟩
  | tooLarge numeral large => exact ⟨trimmedValue_radix_of_ge numeral large, by simp⟩
  | @decimal _ value _ numeral nearest =>
    rw [nearest.unique (Double.nearest_ofScientific value)]
    exact ⟨trimmedValue_decimal numeral, ok_ne_nan (Double.nearest_ofScientific value)⟩

/-- Where it does not give NaN, the rules give a number. -/
theorem denotes_trimmedValue (number : trimmedValue cs ≠ .ok .nan) :
    Denotes cs (trimmedValue cs) := by
  by_cases empty : cs = []
  · subst empty
    rw [trimmedValue_nil]
    exact .empty
  by_cases word : ∃ signText negative, SignText signText negative ∧
      cs = signText ++ "Infinity".toList
  · obtain ⟨signText, negative, isSign, rfl⟩ := word
    rw [trimmedValue_infinity isSign]
    exact .infinity isSign
  cases radix : radixNumeral? cs with
  | some n =>
    have numeral := radixNumeral?_eq_some_iff.mp radix
    rcases Nat.lt_or_ge n Double.overflowStart with small | large
    · rw [trimmedValue_radix_of_lt numeral small]
      exact .radix numeral small (Double.nearest_ofNat n)
    · rw [trimmedValue_radix_of_ge numeral large]
      exact .tooLarge numeral large
  | none =>
    cases decimal : decimal? cs with
    | some value =>
      have numeral := decimal?_eq_some.mp decimal
      rw [trimmedValue_decimal numeral]
      exact .decimal numeral (Double.nearest_ofScientific value)
    | none =>
      have noWord : NoWord cs := ⟨empty, fun signText negative isSign same =>
        word ⟨signText, negative, isSign, same⟩⟩
      exact absurd (noWord.trimmedValue_eq.2.2 radix decimal) number

/-- A text has the number that the rules give it, and NaN exactly if they give it none. -/
theorem denotes_iff {result : Except CoercionError Double} :
    Denotes cs result ↔ trimmedValue cs = result ∧ result ≠ .ok .nan :=
  ⟨Denotes.trimmedValue_eq, fun ⟨same, number⟩ => same ▸ denotes_trimmedValue (same ▸ number)⟩

theorem exists_denotes_iff : (∃ result, Denotes cs result) ↔ cs = [] ∨
    (∃ signText negative, SignText signText negative ∧ cs = signText ++ "Infinity".toList) ∨
    (∃ n, RadixNumeral cs n) ∨ ∃ value, DecimalNumeral cs value := by
  constructor
  · rintro ⟨result, denotes⟩
    cases denotes with
    | empty => exact .inl rfl
    | infinity isSign => exact .inr (.inl ⟨_, _, isSign, rfl⟩)
    | radix numeral _ _ | tooLarge numeral _ => exact .inr (.inr (.inl ⟨_, numeral⟩))
    | decimal numeral _ => exact .inr (.inr (.inr ⟨_, numeral⟩))
  · rintro (rfl | ⟨signText, negative, isSign, rfl⟩ | ⟨n, numeral⟩ | ⟨value, numeral⟩)
    · exact ⟨_, .empty⟩
    · exact ⟨_, .infinity isSign⟩
    · rcases Nat.lt_or_ge n Double.overflowStart with small | large
      · exact ⟨_, .radix numeral small (Double.nearest_ofNat n)⟩
      · exact ⟨_, .tooLarge numeral large⟩
    · exact ⟨_, .decimal numeral (Double.nearest_ofScientific value)⟩

/-- Only radix numerals are refused. -/
theorem Denotes.refused {cause : CoercionError} (h : Denotes cs (.error cause)) :
    cause = .integerTooLarge ∧ ∃ n, RadixNumeral cs n ∧ Double.overflowStart ≤ n := by
  cases h with
  | tooLarge numeral large => exact ⟨rfl, _, numeral, large⟩

/-! ## §6 What is no numeral -/

/-- The characters of numerals: ASCII, and no underscore. -/
def IsPlain (c : Char) : Prop := c.toNat < 128 ∧ c ≠ '_'

theorem isPlain_of_isHexDigit {c : Char} (digit : isHexDigit c = true) : IsPlain c := by
  have bounds : c.toNat < 128 ∧ c.toNat ≠ 95 := by
    simp only [isHexDigit, isDigit, Bool.or_eq_true, Bool.and_eq_true, decide_eq_true_eq,
      Char.le_def, UInt32.le_iff_toNat_le] at digit
    change (48 ≤ c.toNat ∧ c.toNat ≤ 57 ∨ 97 ≤ c.toNat ∧ c.toNat ≤ 102) ∨
      65 ≤ c.toNat ∧ c.toNat ≤ 70 at digit
    omega
  exact ⟨bounds.1, fun same => bounds.2 (congrArg Char.toNat same)⟩

theorem isPlain_of_isDigit {c : Char} (digit : isDigit c = true) : IsPlain c :=
  isPlain_of_isHexDigit (by simp [isHexDigit, digit])

theorem BaseLetter.isHexDigit {letter : Char} {base : Nat} {isBaseDigit : Char → Bool}
    (h : BaseLetter letter base isBaseDigit) {c : Char} (digit : isBaseDigit c = true) :
    isHexDigit c = true := by
  cases h with
  | hexadecimal _ => exact digit
  | octal _ =>
    have decimal : isDigit c = true := by
      simp only [isOctalDigit, isDigit, Bool.and_eq_true, decide_eq_true_eq] at digit ⊢
      exact ⟨digit.1, Char.le_trans digit.2 (by decide)⟩
    simp [Visibility.isHexDigit, decimal]
  | binary _ =>
    rcases (Bool.or_eq_true ..).mp digit with zero | one
    · rw [beq_iff_eq.mp zero]
      rfl
    · rw [beq_iff_eq.mp one]
      rfl

/-- Every character of a numeral is ASCII and no underscore. -/
theorem Denotes.isPlain {result : Except CoercionError Double} (h : Denotes cs result) :
    ∀ c ∈ cs, IsPlain c := by
  have ofSign {signText : List Char} {negative : Bool} (isSign : SignText signText negative) :
      ∀ c ∈ signText, IsPlain c := by
    cases isSign <;> simp [IsPlain]
  have ofDigits {digits : List Char} (all : ∀ c ∈ digits, isDigit c = true) :
      ∀ c ∈ digits, IsPlain c := fun c mem => isPlain_of_isDigit (all c mem)
  have ofRadix {n : Nat} (numeral : RadixNumeral cs n) : ∀ c ∈ cs, IsPlain c := by
    cases numeral with
    | digits known _ all =>
      simp only [List.forall_mem_cons]
      refine ⟨by simp [IsPlain], ?_,
        fun c mem => isPlain_of_isHexDigit (known.isHexDigit (all c mem))⟩
      cases known with
      | hexadecimal same | octal same | binary same => rcases same with rfl | rfl <;> simp [IsPlain]
  cases h with
  | empty => exact List.forall_mem_nil _
  | infinity isSign => exact List.forall_mem_append.mpr ⟨ofSign isSign, by simp [IsPlain]⟩
  | radix numeral _ _ | tooLarge numeral _ => exact ofRadix numeral
  | decimal numeral _ =>
    cases numeral with
    | parts isSign isMantissa isExponent =>
      refine List.forall_mem_append.mpr ⟨ofSign isSign, List.forall_mem_append.mpr ⟨?_, ?_⟩⟩
      · cases isMantissa with
        | whole _ digits => exact ofDigits digits
        | point _ digits more =>
          exact List.forall_mem_append.mpr
            ⟨ofDigits digits, List.forall_mem_cons.mpr ⟨by simp [IsPlain], ofDigits more⟩⟩
      · cases isExponent with
        | none => exact List.forall_mem_nil _
        | digits letter isSign _ all =>
          refine List.forall_mem_cons.mpr
            ⟨?_, List.forall_mem_append.mpr ⟨ofSign isSign, ofDigits all⟩⟩
          rcases letter with rfl | rfl <;> simp [IsPlain]

/-- Behind its sign, a numeral is the word for infinity, or a digit or a point comes first. -/
theorem Denotes.unsigned {result : Except CoercionError Double} (h : Denotes cs result) :
    cs = [] ∨ (sign cs).2 = "Infinity".toList ∨
      ∃ c ds, (sign cs).2 = c :: ds ∧ (isDigit c = true ∨ c = '.') := by
  have ofRadix {n : Nat} (numeral : RadixNumeral cs n) :
      ∃ c ds, (sign cs).2 = c :: ds ∧ (isDigit c = true ∨ c = '.') := by
    cases numeral
    exact ⟨'0', _, rfl, .inl rfl⟩
  cases h with
  | empty => exact .inl rfl
  | infinity isSign => exact .inr (.inl (by cases isSign <;> rfl))
  | radix numeral _ _ | tooLarge numeral _ => exact .inr (.inr (ofRadix numeral))
  | decimal numeral _ =>
    cases numeral with
    | parts isSign isMantissa _ =>
      obtain ⟨c, ds, same, first⟩ := isMantissa.head
      rw [isMantissa.sign_append isSign, same]
      exact .inr (.inr ⟨c, _, rfl, first⟩)

/-- A letter is lower-case, or its lower-case form is 32 characters behind it. -/
theorem toLower_cases {c d : Char} (same : c.toLower = d) : c = d ∨ c.toNat + 32 = d.toNat := by
  unfold Char.toLower at same
  split at same
  · rename_i capital
    have high : c.toNat ≤ 90 := UInt32.le_iff_toNat_le.mp capital.2
    subst same
    refine .inr ?_
    show c.val.toNat + 32 = (c.val + 32).toNat
    rw [UInt32.toNat_add, Nat.mod_eq_of_lt]
    · rfl
    · show c.toNat + 32 < _
      omega
  · exact .inl same

/-- What is the word for infinity or for NaN in any case starts with one of two letters. -/
theorem head?_of_word {word : List Char}
    (known : word.map Char.toLower ∈ ["inf".toList, "infinity".toList, "nan".toList]) :
    ∃ c, word.head? = some c ∧ c ∈ ['i', 'I', 'n', 'N'] := by
  have table : ∀ lower ∈ ["inf".toList, "infinity".toList, "nan".toList],
      lower.head? = some 'i' ∨ lower.head? = some 'n' := by decide
  have first := table _ known
  rw [List.head?_map] at first
  have letter {c lower : Char} (capital : Char) (same : c.toLower = lower)
      (behind : capital.toNat + 32 = lower.toNat) : c = lower ∨ c = capital :=
    (toLower_cases same).imp_right fun other => Char.toNat_inj.mp (by omega)
  rcases first with i | n
  · obtain ⟨c, first, same⟩ := Option.map_eq_some_iff.mp i
    refine ⟨c, first, ?_⟩
    rcases letter 'I' same rfl with rfl | rfl <;> decide
  · obtain ⟨c, first, same⟩ := Option.map_eq_some_iff.mp n
    refine ⟨c, first, ?_⟩
    rcases letter 'N' same rfl with rfl | rfl <;> decide

/-- A word that starts with one of these letters is no numeral, but for the one for infinity. -/
theorem not_denotes_word {signText word : List Char} {negative : Bool} {c : Char}
    {result : Except CoercionError Double} (isSign : SignText signText negative)
    (first : word.head? = some c) (letter : c ∈ ['i', 'I', 'n', 'N'])
    (other : word ≠ "Infinity".toList) : ¬Denotes (signText ++ word) result := by
  intro denotes
  obtain ⟨ds, rfl⟩ : ∃ ds, word = c :: ds := List.head?_eq_some_iff.mp first
  obtain ⟨notPlus, notMinus, noDigit, noPoint⟩ :
      c ≠ '+' ∧ c ≠ '-' ∧ isDigit c = false ∧ c ≠ '.' := by
    simp only [List.mem_cons, List.not_mem_nil, or_false] at letter
    rcases letter with rfl | rfl | rfl | rfl <;> decide
  have split : (sign (signText ++ c :: ds)).2 = c :: ds := by
    rw [isSign.sign_append notPlus notMinus]
  rcases denotes.unsigned with empty | same | ⟨d, others, same, start⟩
  · exact absurd (List.append_eq_nil_iff.mp empty).2 (List.cons_ne_nil c ds)
  · exact other (split.symm.trans same)
  · obtain ⟨rfl, -⟩ := List.cons.inj (split.symm.trans same)
    rcases start with digit | point
    · rw [noDigit] at digit
      cases digit
    · exact noPoint point

/-- A radix numeral with a sign is no numeral. -/
theorem not_denotes_signed_radix {signText radix : List Char} {negative : Bool} {n : Nat}
    {result : Except CoercionError Double} (isSign : SignText signText negative)
    (someSign : signText ≠ []) (numeral : RadixNumeral radix n) :
    ¬Denotes (signText ++ radix) result := by
  intro denotes
  have noDecimal := numeral.decimal?_eq_none isSign
  -- A sign is neither the zero of a radix numeral nor before a word that starts with one.
  have noWord : NoWord (signText ++ radix) ∧ radixNumeral? (signText ++ radix) = none := by
    cases numeral
    cases isSign with
    | none => exact absurd rfl someSign
    | plus | minus =>
      refine ⟨⟨List.cons_ne_nil _ _, fun other _ isSign same => ?_⟩, rfl⟩
      cases isSign <;> cases same
  exact denotes.trimmedValue_eq.2
    (denotes.trimmedValue_eq.1.symm.trans (noWord.1.trimmedValue_eq.2.2 noWord.2 noDecimal))

end Numeral

/-! ## §7 The numbers of strings -/

open Numeral in
/-- **The numerals of strings.**  Of a string, the text without the spaces around it counts.  The
string has a number, or is refused, exactly if this text is empty, the word for infinity, a radix
numeral or a decimal numeral.  Its number is then zero, that infinity, or the number that the
numeral denotes, correctly rounded; a decimal numeral that is too large gives an infinity, and a
radix numeral that is too large is all that is refused.  Underscores, characters beyond ASCII, other
words for infinity or for NaN and a sign before a radix numeral give NaN. -/
theorem Value.toNumber_string (s : String) :
    let result : Except CoercionError Number := Value.toNumber (.string s)
    let notNumber : Except CoercionError Number := .ok (.double .nan)
    let t : List Char := Text.trimSpaces s.toList
    ((∃ front back, s.toList = front ++ (t ++ back) ∧ ∀ c ∈ front ++ back, Text.isSpace c = true) ∧
      (∀ c, t.head? = some c → Text.isSpace c = false) ∧
      ∀ c, t.getLast? = some c → Text.isSpace c = false) ∧
    (result ≠ notNumber ↔ t = [] ∨
      (∃ signText negative, SignText signText negative ∧ t = signText ++ "Infinity".toList) ∨
      (∃ n, RadixNumeral t n) ∨ ∃ value, DecimalNumeral t value) ∧
    (t = [] → result = .ok (.double (.zero false))) ∧
    (∀ signText negative, SignText signText negative → t = signText ++ "Infinity".toList →
      result = .ok (.double (.infinite negative))) ∧
    (∀ n, RadixNumeral t n →
      (n < Double.overflowStart → ∃ x, result = .ok (.double x) ∧ Double.Nearest false n x ∧
        x.isInfinite = false) ∧
      (Double.overflowStart ≤ n → result = .error .integerTooLarge)) ∧
    (∀ value, DecimalNumeral t value → ∃ x, result = .ok (.double x) ∧
      Double.Nearest value.negative value.size x ∧
      (Double.overflowStart ≤ value.size → x = .infinite value.negative)) ∧
    (∀ cause, result = .error cause →
      cause = .integerTooLarge ∧ ∃ n, RadixNumeral t n ∧ Double.overflowStart ≤ n) ∧
    ((∃ c ∈ t, c = '_' ∨ 128 ≤ c.toNat) → result = notNumber) ∧
    (∀ signText negative word, SignText signText negative → t = signText ++ word →
      word.map Char.toLower ∈ ["inf".toList, "infinity".toList, "nan".toList] →
      word ≠ "Infinity".toList → result = notNumber) ∧
    ∀ signText negative radix n, SignText signText negative → signText ≠ [] →
      RadixNumeral radix n → t = signText ++ radix → result = notNumber := by
  intro result notNumber t
  have spec := Text.trim_spec Text.isSpace s.toList
  have read : result = (trimmedValue t).map Number.double := rfl
  have value {value : Except CoercionError Double} (denotes : Denotes t value) :
      result = value.map Number.double := by rw [read, denotes.trimmedValue_eq.1]
  have notNan {y : Except CoercionError Double} :
      y.map Number.double = notNumber ↔ y = .ok .nan := by
    cases y <;> simp [notNumber, Except.map]
  have none (not : ∀ value, ¬Denotes t value) : result = notNumber := by
    rw [read, notNan]
    by_contra number
    exact not _ (denotes_trimmedValue number)
  refine ⟨spec, ?_, fun empty => ?_, fun signText negative isSign same => ?_,
    fun n numeral => ⟨fun small => ?_, fun large => ?_⟩, fun x numeral => ?_,
    fun cause failed => ?_, fun ⟨c, mem, strange⟩ => none fun x denotes => ?_,
    fun signText negative word isSign same known other => none fun x denotes => ?_,
    fun signText negative radix n isSign someSign numeral same => none fun x denotes => ?_⟩
  · rw [← exists_denotes_iff, read, ne_eq, notNan]
    simp only [denotes_iff, exists_eq_left', ne_eq]
  · have denotes : Denotes t (.ok (.zero false)) := by
      rw [empty]
      exact .empty
    exact value denotes
  · have denotes : Denotes t (.ok (.infinite negative)) := by
      rw [same]
      exact .infinity isSign
    exact value denotes
  · have nearest := Double.nearest_ofNat n
    refine ⟨_, value (.radix numeral small nearest), nearest, ?_⟩
    rw [Bool.eq_false_iff, ne_eq, Double.isInfinite_ofInt, Int.natAbs_natCast]
    exact small.not_ge
  · exact value (.tooLarge numeral large)
  · have nearest := Double.nearest_ofScientific x
    exact ⟨_, value (.decimal numeral nearest), nearest,
      fun large => nearest.unique (.infinite large)⟩
  · have failed : trimmedValue t = .error cause := Except.map_eq_error.mp failed
    have denotes : Denotes t (trimmedValue t) := denotes_trimmedValue (by simp [failed])
    rw [failed] at denotes
    exact denotes.refused
  · have plain := denotes.isPlain c mem
    exact strange.elim plain.2 fun wide => absurd wide plain.1.not_ge
  · obtain ⟨c, first, letter⟩ := head?_of_word known
    exact not_denotes_word isSign first letter other (same ▸ denotes)
  · exact not_denotes_signed_radix isSign someSign numeral (same ▸ denotes)

open Numeral in
/-- Spaces around a numeral do not count, and of too large numerals only those with a radix are
refused. -/
theorem Value.toNumber_string_half :
    let large := '0' :: 'x' :: List.replicate 256 'f'
    (∃ x, Value.toNumber (.string " -5.e-1\n") = .ok (.double x) ∧
        Double.Nearest true (Scientific.size ⟨true, 5, -1⟩) x) ∧
      Value.toNumber (.string (String.ofList large)) = .error .integerTooLarge := by
  intro large
  have five : ∀ c ∈ ['5'], isDigit c = true := List.forall_mem_singleton.mpr rfl
  have one : ∀ c ∈ ['1'], isDigit c = true := List.forall_mem_singleton.mpr rfl
  have mantissa : Mantissa ['5', '.'] ['5'] [] :=
    .point (List.cons_ne_nil _ _) five (List.forall_mem_nil _)
  have half : DecimalNumeral "-5.e-1".toList ⟨true, 5, -1⟩ :=
    .parts .minus mantissa (.digits (.inl rfl) .minus (List.cons_ne_nil _ _) one)
  have radix : RadixNumeral large (2 ^ 1024 - 1) := by
    have value : ofDigits 16 (List.replicate 256 'f') = 2 ^ 1024 - 1 := by decide +kernel
    have digits : ∀ c ∈ List.replicate 256 'f', isHexDigit c = true := by
      intro c mem
      rw [List.eq_of_mem_replicate mem]
      rfl
    exact value ▸ .digits (.hexadecimal (.inl rfl)) (List.cons_ne_nil _ _) digits
  have trimmed : Text.trimSpaces (String.ofList large).toList = large := by
    rw [String.toList_ofList]
    decide +kernel
  obtain ⟨-, -, -, -, -, decimal, -⟩ := toNumber_string " -5.e-1\n"
  obtain ⟨x, read, nearest, -⟩ := decimal _ half
  obtain ⟨-, -, -, -, ofRadix, -⟩ := toNumber_string (String.ofList large)
  rw [trimmed] at ofRadix
  exact ⟨⟨x, read, nearest⟩, (ofRadix _ radix).2 (by decide +kernel)⟩

end Visibility
