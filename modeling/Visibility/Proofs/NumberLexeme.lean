import Visibility.Proofs.Evaluation
import Visibility.Proofs.RoundTrip
import Visibility.Proofs.StringNumeral

/-!
# Numbers in code and in strings

The number of a number token and the number of a string are read by two readers of their own.  One
knows grouping underscores, digits of every script and words, the other spaces, radix numerals, the
empty text and other words.  A number token has a digit first and then digits and points, and of
such a text both readers see the decimal numeral only: there is one if there is at most one point.

* `exists_decimalNumeral_iff` — when a number token is a decimal numeral
* `lexeme?_of_number`, `stringValue_of_number`, `lexemeValue_eq_nan` — what both readers make of it
* `compareWith_same` — a number compared with a string that has this number
* `compile_compared` — the texts in which both stand beside an operator
* `number_as_text` — all of it, for every number token
-/

namespace Visibility

/-! ## §1 Texts of digits and points -/

/-- The numbers among the words. -/
theorem isLexeme_number_iff {lexeme : List Char} : IsLexeme .number lexeme ↔
    ∃ c cs, lexeme = c :: cs ∧ isDigit c = true ∧ ∀ d ∈ cs, isNumberPart d = true := by
  constructor
  · intro word
    rcases word.form with mem | ⟨c, cs, rfl, -, digit, parts⟩ | ⟨c, cs, rfl, kind, -, -⟩
    · have table : ∀ entry ∈ fixedTokens, entry.2 ≠ .number := by decide
      exact absurd rfl (table _ mem)
    · exact ⟨c, cs, rfl, digit, parts⟩
    · rcases keywordKind_cases (String.ofList (c :: cs)) with ⟨other, -⟩ | ⟨other, -⟩ | other
      all_goals
        rw [other] at kind
        cases kind
  · rintro ⟨c, cs, rfl, digit, parts⟩
    exact .number digit parts

section NumberText

variable {lexeme : List Char}

theorem IsLexeme.isNumberPart (number : IsLexeme .number lexeme) :
    ∀ c ∈ lexeme, isNumberPart c = true := by
  obtain ⟨c, cs, rfl, digit, parts⟩ := isLexeme_number_iff.mp number
  exact List.forall_mem_cons.mpr ⟨by simp [Visibility.isNumberPart, digit], parts⟩

theorem isNumeric_of_isNumberPart {c : Char} (part : isNumberPart c = true) : IsNumeric c := by
  rcases Bool.or_eq_true_iff.mp part with digit | point
  · exact .inl digit
  · rw [beq_iff_eq.mp point]
    exact .inr (by decide)

namespace Numeral

theorem point_notMem {cs : List Char} (digits : ∀ c ∈ cs, isDigit c = true) : '.' ∉ cs :=
  fun mem => isDigit_ne (digits _ mem) (rfl : isDigit '.' = false) rfl

/-- A mantissa has one point at most. -/
theorem Mantissa.count_point_le {mantissa whole places : List Char}
    (h : Mantissa mantissa whole places) : mantissa.count '.' ≤ 1 := by
  cases h with
  | whole _ digits => simp [List.count_eq_zero.mpr (point_notMem digits)]
  | point _ digits more =>
    simp [List.count_append, List.count_eq_zero.mpr (point_notMem digits),
      List.count_eq_zero.mpr (point_notMem more)]

/-- Digits and points with one point at most are a mantissa, if a digit comes first. -/
theorem exists_mantissa_of_count (number : IsLexeme .number lexeme)
    (points : lexeme.count '.' ≤ 1) : ∃ whole places, Mantissa lexeme whole places := by
  obtain ⟨c, cs, rfl, digit, -⟩ := isLexeme_number_iff.mp number
  have parts := number.isNumberPart
  have nonempty : (c :: cs).takeWhile isDigit ≠ [] := by
    simp [List.takeWhile_cons_of_pos digit]
  have digits : ∀ d ∈ (c :: cs).takeWhile isDigit, isDigit d = true :=
    List.all_eq_true.mp List.all_takeWhile
  have split := List.takeWhile_append_dropWhile (p := isDigit) (l := c :: cs)
  generalize (c :: cs).takeWhile isDigit = whole at nonempty digits split
  cases rest : (c :: cs).dropWhile isDigit with
  | nil =>
    rw [rest, List.append_nil] at split
    rw [← split]
    exact ⟨_, _, .whole nonempty digits⟩
  | cons d places =>
    have noDigit : isDigit d = false := by
      have := List.head?_dropWhile_not isDigit (c :: cs)
      rwa [rest] at this
    rw [rest] at split
    rw [← split, List.forall_mem_append, List.forall_mem_cons] at parts
    obtain rfl : d = '.' := by simpa [isNumberPart, noDigit] using parts.2.1
    -- This is the only point, so digits follow it.
    rw [← split, List.count_append, List.count_cons_self] at points
    have noPoint : '.' ∉ places := List.count_eq_zero.mp (by omega)
    have more : ∀ d ∈ places, isDigit d = true := fun d mem =>
      (Bool.or_eq_true_iff.mp (parts.2.2 d mem)).resolve_right fun point =>
        noPoint (beq_iff_eq.mp point ▸ mem)
    rw [← split]
    exact ⟨_, _, .point (List.append_ne_nil_of_left_ne_nil nonempty _) digits more⟩

/-- A number token is a decimal numeral exactly if it has one point at most. -/
theorem exists_decimalNumeral_iff (number : IsLexeme .number lexeme) :
    (∃ x, DecimalNumeral lexeme x) ↔ lexeme.count '.' ≤ 1 := by
  have parts := number.isNumberPart
  constructor
  · rintro ⟨x, numeral⟩
    -- No character of a sign or of an exponent is among those of the token.
    cases numeral with
    | @parts signText mantissa _ _ exponentText _ _ isSign isMantissa isExponent =>
      rw [List.forall_mem_append, List.forall_mem_append] at parts
      obtain rfl : signText = [] := by
        cases isSign with
        | none => rfl
        | plus | minus => exact absurd (parts.1 _ List.mem_cons_self) (by decide)
      obtain rfl : exponentText = [] := by
        cases isExponent with
        | none => rfl
        | digits letter _ _ _ =>
          have part := parts.2.2 _ List.mem_cons_self
          rcases letter with rfl | rfl <;> exact absurd part (by decide)
      rw [List.nil_append, List.append_nil]
      exact isMantissa.count_point_le
  · intro points
    obtain ⟨whole, places, isMantissa⟩ := exists_mantissa_of_count number points
    have numeral := DecimalNumeral.parts .none isMantissa .none
    rw [List.nil_append, List.append_nil] at numeral
    exact ⟨_, numeral⟩

/-! ## §2 Two readers -/

theorem dropUnderscores?_eq_self {cs : List Char} (none : '_' ∉ cs) (afterDigit : Bool) :
    dropUnderscores? afterDigit cs = some cs := by
  fun_induction dropUnderscores? afterDigit cs with
  | case1 => rfl
  | case2 | case3 | case4 => exact absurd List.mem_cons_self none
  | case5 _ c cs _ _ ih =>
    rw [ih (fun mem => none (List.mem_cons_of_mem c mem))]
    rfl

/-- In the text of a number token nothing is rewritten. -/
theorem toPlain_of_number (number : IsLexeme .number lexeme) : toPlain lexeme = lexeme := by
  have ascii : lexeme.map toASCII = lexeme := by
    conv_rhs => rw [← List.map_id lexeme]
    refine List.map_congr_left fun c mem => if_pos ?_
    have := number.toNat_of_mem c mem
    omega
  unfold toPlain
  rw [ascii]
  refine Text.trim_eq_self fun c mem => ?_
  have := number.toNat_of_mem c mem
  have noBlank : c ≠ ' ' := by
    rintro rfl
    exact absurd this.1 (by decide)
  simp only [isOuterBlank, Bool.or_eq_false_iff, Bool.and_eq_false_iff, decide_eq_false_iff_not,
    beq_eq_false_iff_ne]
  exact ⟨.inr (by omega), noBlank⟩

/-- A digit starts no word. -/
theorem wordValue?_of_number (number : IsLexeme .number lexeme) : wordValue? lexeme = none := by
  obtain ⟨c, cs, rfl, digit, -⟩ := isLexeme_number_iff.mp number
  have noWord : (c :: cs).map Char.toLower ∉ ["inf".toList, "infinity".toList, "nan".toList] := by
    intro known
    obtain ⟨d, first, letter⟩ := head?_of_word known
    obtain rfl : c = d := Option.some.inj first
    simp only [List.mem_cons, List.not_mem_nil, or_false] at letter
    rcases letter with rfl | rfl | rfl | rfl <;> cases digit
  unfold wordValue?
  rw [sign_of_ne (isDigit_ne digit rfl) (isDigit_ne digit rfl)]
  dsimp only
  split
  all_goals first
    | rfl
    | rename_i same
      rw [← String.toList_inj, String.toList_ofList] at same
      rw [same] at noWord
      exact absurd noWord (by decide)

/-- The reader of number tokens sees a decimal numeral or nothing. -/
theorem lexeme?_of_number (number : IsLexeme .number lexeme) :
    lexeme? lexeme = (decimal? lexeme).map .ofScientific := by
  have noUnderscore : '_' ∉ lexeme := fun mem =>
    absurd (number.isNumberPart _ mem) (by decide)
  unfold lexeme?
  rw [toPlain_of_number number, dropUnderscores?_eq_self noUnderscore]
  simp only [wordValue?_of_number number, Option.none_or]

theorem noWord_of_number (number : IsLexeme .number lexeme) : NoWord lexeme where
  nonempty := by
    obtain ⟨c, cs, rfl, -⟩ := isLexeme_number_iff.mp number
    exact List.cons_ne_nil c cs
  no_infinity signText negative _ same := by
    have part := number.isNumberPart 'I' (by simp [same])
    exact absurd part (by decide)

/-- The string with the same characters has the same number. -/
theorem stringValue_of_number (number : IsLexeme .number lexeme) :
    stringValue (String.ofList lexeme) = .ok (lexemeValue (String.ofList lexeme)) := by
  have numeric : ∀ c ∈ lexeme, IsNumeric c := fun c mem =>
    isNumeric_of_isNumberPart (number.isNumberPart c mem)
  have noSpace : Text.trimSpaces lexeme = lexeme :=
    Text.trim_eq_self fun c mem => (numeric c mem).not_space
  -- Both readers are left with the reader of decimal numerals.
  have noRadix := radixNumeral?_of_noRadix fun c mem => (numeric c mem).noRadix
  unfold stringValue lexemeValue
  rw [String.toList_ofList, noSpace, lexeme?_of_number number]
  cases read : decimal? lexeme with
  | some x => exact (noWord_of_number number).trimmedValue_eq.2.1 noRadix x read
  | none => exact (noWord_of_number number).trimmedValue_eq.2.2 noRadix read

/-- It is NaN exactly if there are two points. -/
theorem lexemeValue_eq_nan (number : IsLexeme .number lexeme) :
    lexemeValue (String.ofList lexeme) = .nan ↔ 2 ≤ lexeme.count '.' := by
  have numeral := exists_decimalNumeral_iff number
  unfold lexemeValue
  rw [String.toList_ofList, lexeme?_of_number number]
  cases read : decimal? lexeme with
  | some x =>
    have points := numeral.mp ⟨x, decimal?_eq_some.mp read⟩
    refine iff_of_false (fun same => ?_) (by omega)
    -- What is nearest to a number is not NaN.
    have nearest := Double.nearest_ofScientific x
    rw [show Double.ofScientific x = .nan from same] at nearest
    cases nearest
  | none =>
    refine iff_of_true rfl ?_
    by_contra few
    obtain ⟨x, isNumeral⟩ := numeral.mpr (by omega)
    rw [decimal?_eq_some.mpr isNumeral] at read
    cases read

end Numeral

end NumberText

/-! ## §3 A number beside a string that has it -/

/-- A double is in order with itself, unless it is NaN. -/
theorem Number.order?_self (x : Double) :
    (double x).order? (.double x) = .ok (if x = .nan then none else some .eq) := by
  have ofValue {v : ExactValue} (value : (double x).value? = some v) (number : x ≠ .nan) :
      (double x).order? (.double x) = .ok (if x = .nan then none else some .eq) := by
    rw [order?_of_value value value, cmp_self_eq_eq, if_neg number]
  cases x with
  | nan => rfl
  | infinite negative => cases negative <;> exact ofValue rfl (by simp)
  | finite negative units representable => exact ofValue rfl (by simp)

/-- The operators that hold for equal things and convert them first. -/
def Operator.reflexive : List Operator := [.looseEqual, .greaterEqual, .lessEqual]

theorem Operator.mem_reflexive {operator : Operator} : operator ∈ reflexive ↔
    operator = .looseEqual ∨ operator = .greaterEqual ∨ operator = .lessEqual := by
  simp [reflexive]

open Evaluation in
/-- A number is equal to a string that has it, and each is at most the other, unless it is NaN. -/
theorem compareWith_same {x : Double} {s : String}
    (read : (Value.string s).toNumber = .ok (.double x)) {operator : Operator}
    (mem : operator ∈ Operator.reflexive) :
    compareWith operator (.double x) (.string s) = pure !decide (x = .nan) := by
  -- All three operators read one order, and here that is the order of a double with itself.
  have plain : (Value.double x).IsPlain := .number _
  have ordered : (Value.double x).coercedOrder (.string s) =
      .ok (if x = .nan then none else some .eq) := by
    rw [Value.coercedOrder_plain plain (.string s)]
    show (Value.string s).toNumber >>= _ = _
    rw [read]
    exact Number.order?_self x
  have equal : (Value.double x).looseEquals (.string s) = .ok !decide (x = .nan) := by
    rw [Value.looseEquals_eq_coercedOrder rfl rfl (fun both => by cases both.1), ordered]
    by_cases nan : x = .nan
    · simp [nan, Value.isEqual, Except.map]
    · simp [nan, Value.isEqual, Except.map]
  have related {operator : Operator} (holds : operator.holds? .eq = .ok true) :
      (Value.double x).relate operator (.string s) = .ok !decide (x = .nan) := by
    rw [Value.relate_of_coercedOrder ordered]
    by_cases nan : x = .nan
    · simp [nan]
    · simp [nan, holds]
  rcases Operator.mem_reflexive.mp mem with rfl | rfl | rfl
  · show Step.lift _ = _
    rw [equal]
    rfl
  · show Step.lift _ = _
    rw [related rfl]
    rfl
  · show Step.lift _ = _
    rw [related rfl]
    rfl

/-- An operator between two literals compares their values, whatever the context is. -/
theorem Expr.evaluate_literals {operator : Operator} {a b : Value} {result : Bool}
    (notAnd : operator ≠ .and) (notOr : operator ≠ .or)
    (compared : Evaluation.compareWith operator a b = pure result) (context : Context) :
    (Expr.binary operator (.literal a) (.literal b)).evaluate context =
      (.ok (.bool result), .empty) := by
  -- The comparison is one level of the depth, and its operands are another.
  show evaluateWithin context (478 + 1 + 1) _ _ = _
  rw [evaluateWithin_binary notAnd notOr, evaluateWithin_literal, evaluateWithin_literal,
    pure_bind, pure_bind, compared, pure_bind]
  rfl

/-! ## §4 The text of the comparison -/

section Texts

variable {lexeme text : List Char}

/-- A number is the longest word where no digit and no point follows. -/
theorem isLongest_number (number : IsLexeme .number lexeme)
    (stop : text.takeWhile isNumberPart = []) : IsLongest lexeme text := by
  obtain ⟨c, cs, rfl, digit, parts⟩ := isLexeme_number_iff.mp number
  -- A word that starts with a digit goes on with digits and points.
  have longest := isLongest_run (cs ++ text)
    fun kind ds (word : IsLexeme kind (c :: ds)) => (word.of_isDigit digit).2
  obtain ⟨taken, left⟩ := scan_run parts stop
  rwa [taken, left] at longest

/-- These operators are the longest words unless an equals sign follows. -/
theorem isLongest_reflexive {operator : Operator} (mem : operator ∈ Operator.reflexive) {c : Char}
    (other : c ≠ '=') : IsLongest operator.text.toList (c :: text) := by
  have found : fixedToken? (operator.text.toList ++ c :: text) =
      some (operator.text.toList, .operator) := by
    rcases Operator.mem_reflexive.mp mem with rfl | rfl | rfl
    all_goals
      simp [fixedToken?, fixedTokens, Operator.text, List.find?, List.isPrefixOf, other.symm]
  exact isLongest_fixed found

/-- Blanks may come in between. -/
theorem IsLongest.blanks {blanks : List Char} (longest : IsLongest lexeme text)
    (space : ∀ c ∈ blanks, Text.isBlank c = true) : IsLongest lexeme (blanks ++ text) := by
  cases blanks with
  | nil => exact longest
  | cons blank blanks =>
    refine isLongest_of_blank fun c head => ?_
    obtain rfl : blank = c := Option.some.inj head
    exact space blank List.mem_cons_self

/-- Without quotes and escapes, the content of a string is written as it is. -/
theorem quotedBody_self {quote : Char} (plain : ∀ c ∈ text, c ≠ quote ∧ c ≠ '\\') :
    QuotedBody quote text text := by
  induction text with
  | nil => exact .nil
  | cons c cs ih =>
    rw [List.forall_mem_cons] at plain
    exact .plain plain.1.1 plain.1.2 (ih plain.2)

theorem isString_of_number (number : IsLexeme .number lexeme) {quote : Char}
    (isQuote : isQuote quote = true) : IsString (quote :: (lexeme ++ [quote])) lexeme := by
  refine .closed isQuote (quotedBody_self fun c mem => ?_)
  rcases Bool.or_eq_true_iff.mp (number.isNumberPart c mem) with digit | point
  · refine ⟨?_, Numeral.isDigit_ne digit rfl⟩
    rintro rfl
    have := toNat_of_isDigit digit
    have := toNat_of_isQuote isQuote
    omega
  · rw [beq_iff_eq.mp point]
    refine ⟨?_, by decide⟩
    rintro rfl
    cases isQuote

/-- One of these operators is a word before a string. -/
theorem firstWord_reflexive {operator : Operator} (mem : operator ∈ Operator.reflexive)
    {quote : Char} (isQuote : isQuote quote = true) {blanks : List Char}
    (space : ∀ c ∈ blanks, Text.isBlank c = true) :
    FirstWord ⟨.operator, operator.text⟩ (operator.text.toList ++ (blanks ++ quote :: text))
      (blanks ++ quote :: text) := by
  have known : ∀ text, operator ≠ .other text := by
    rintro text rfl
    simp [Operator.reflexive] at mem
  have notEqual : quote ≠ '=' := by
    rintro rfl
    cases isQuote
  have longest : IsLongest operator.text.toList (quote :: text) := isLongest_reflexive mem notEqual
  have first := FirstWord.lexeme (.operator operator known) (longest.blanks space)
  rwa [String.ofList_toList] at first

/-- A number is a word before one of these operators. -/
theorem firstWord_number (number : IsLexeme .number lexeme) {operator : Operator}
    (mem : operator ∈ Operator.reflexive) {blanks : List Char}
    (space : ∀ c ∈ blanks, Text.isBlank c = true) :
    FirstWord ⟨.number, String.ofList lexeme⟩
      (lexeme ++ (blanks ++ (operator.text.toList ++ text)))
      (blanks ++ (operator.text.toList ++ text)) := by
  have stop : (operator.text.toList ++ text).takeWhile isNumberPart = [] := by
    rcases Operator.mem_reflexive.mp mem with rfl | rfl | rfl <;> rfl
  exact .lexeme number ((isLongest_number number stop).blanks space)

/-- A number, one of these operators, and the number between quotes are three words. -/
theorem segmentation_compared (number : IsLexeme .number lexeme) {operator : Operator}
    (mem : operator ∈ Operator.reflexive) {quote : Char} (isQuote : isQuote quote = true)
    {front before behind back : List Char}
    (space : ∀ c ∈ front ++ before ++ behind ++ back, Text.isBlank c = true) :
    Segmentation [⟨.number, String.ofList lexeme⟩, ⟨.operator, operator.text⟩,
        ⟨.string, String.ofList lexeme⟩]
      (front ++ lexeme ++ before ++ operator.text.toList ++ behind ++ [quote] ++ lexeme ++
        [quote] ++ back) := by
  simp only [List.forall_mem_append] at space
  obtain ⟨⟨⟨frontSpace, beforeSpace⟩, behindSpace⟩, backSpace⟩ := space
  -- The words are put together from the last one, since each needs what follows it.
  have string : FirstWord _ (quote :: (lexeme ++ [quote]) ++ (back ++ [])) _ :=
    .string (isString_of_number number isQuote)
  rw [List.cons_append] at string
  have cut := Segments.word frontSpace (firstWord_number number mem beforeSpace)
    (.word beforeSpace (firstWord_reflexive mem isQuote behindSpace)
      (.word behindSpace string (.blanks backSpace)))
  refine .closed ?_
  simpa only [List.append_assoc, List.cons_append, List.nil_append, List.append_nil] using cut

end Texts

/-! ## §5 Numbers as texts -/

open Visibility.Grammar

theorem tokenize_ofList {cs : List Char} {ts : List Token} (cut : Segmentation ts cs) :
    tokenize (String.ofList cs) = .ok (ts ++ [.eof]) :=
  tokenize_of_segmentation (by rwa [String.toList_ofList])

section NumberText

variable {lexeme : List Char}

theorem writesLiteral_number (number : IsLexeme .number lexeme) :
    WritesLiteral ⟨.number, String.ofList lexeme⟩
      (.double (Numeral.lexemeValue (String.ofList lexeme))) :=
  .number (by rwa [String.toList_ofList])

/-- The text of a number token is compiled to its number. -/
theorem compile_number (number : IsLexeme .number lexeme) :
    Condition.compile (String.ofList lexeme) = .ok ⟨String.ofList lexeme,
      .literal (.double (Numeral.lexemeValue (String.ofList lexeme)))⟩ := by
  have alone : IsLongest lexeme [] := isLongest_number number rfl
  have last : Segments [] ([] ++ []) [] := .blanks (List.forall_mem_nil _)
  have cut := Segments.word (List.forall_mem_nil _) (.lexeme number alone) last
  rw [List.nil_append, List.append_nil] at cut
  have written := writesLiteral_number number
  have layered := Layered.conjunction (.comparison (.negation (.postfixed (.primary
    (.literal written)))))
  exact compile_of_flat (tokenize_ofList (.closed cut)) layered ⟨_, written, rfl⟩ rfl

/-- Its comparison with a string is compiled to that of the two literals. -/
theorem compile_compared (number : IsLexeme .number lexeme) {operator : Operator}
    (mem : operator ∈ Operator.reflexive) {source : String}
    (read : tokenize source = .ok ([⟨.number, String.ofList lexeme⟩, ⟨.operator, operator.text⟩,
        ⟨.string, String.ofList lexeme⟩] ++ [.eof])) :
    Condition.compile source = .ok ⟨source,
      .binary operator (.literal (.double (Numeral.lexemeValue (String.ofList lexeme))))
        (.literal (.string (String.ofList lexeme)))⟩ := by
  have known : operator ∈ comparisonOperators := by
    rcases Operator.mem_reflexive.mp mem with rfl | rfl | rfl <;> decide
  have written := writesLiteral_number number
  have left : Layered .postfixed _ := .primary (.literal written)
  have right : Layered .postfixed _ := .primary (.literal (.string (String.ofList lexeme)))
  have layered := Layered.conjunction (.comparison
    (.compare known (.negation (.postfixed left)) (.postfixed right)))
  exact compile_of_flat read layered ⟨_, _, ⟨_, written, rfl⟩, ⟨_, .string _, rfl⟩, rfl⟩ rfl

/-- **A number in code and the same characters in a string are one number.**  The number of a number
token is that of the string with the same characters, and it is NaN exactly if the token has two
points or more.  So the number is equal to the string, and each is at most the other, in every
context, however the comparison is spaced and quoted, unless there are two points; then it is none
of them. -/
theorem number_as_text (number : IsLexeme .number lexeme) :
    let text : String := String.ofList lexeme
    let value : Double := Numeral.lexemeValue text
    Condition.compile text = .ok ⟨text, .literal (.double value)⟩ ∧
      (Value.string text).toNumber = .ok (.double value) ∧
      (value = .nan ↔ 2 ≤ lexeme.count '.') ∧
      ∀ operator ∈ [Operator.looseEqual, .greaterEqual, .lessEqual], ∀ quote, isQuote quote = true →
        ∀ front before behind back : List Char,
          (∀ c ∈ front ++ before ++ behind ++ back, Text.isBlank c = true) →
          let source : String := String.ofList (front ++ lexeme ++ before ++
            operator.text.toList ++ behind ++ [quote] ++ lexeme ++ [quote] ++ back)
          ∃ c, Condition.compile source = .ok c ∧ ∀ context,
            c.evaluate context = (.ok (.bool (decide (lexeme.count '.' ≤ 1))), .empty) := by
  intro text value
  have converted : (Value.string text).toNumber = .ok (.double value) := by
    show (Numeral.stringValue text).map Number.double = _
    rw [Numeral.stringValue_of_number number]
    rfl
  have nan := Numeral.lexemeValue_eq_nan number
  refine ⟨compile_number number, converted, nan,
    fun operator mem quote isQuote front before behind back space => ?_⟩
  have read := tokenize_ofList (segmentation_compared number mem isQuote space)
  refine ⟨_, compile_compared number mem read, fun context => ?_⟩
  -- Each of the three operators holds between a value and its own text, unless this is NaN.
  have compared := compareWith_same converted mem
  have points : (!decide (value = .nan)) = decide (lexeme.count '.' ≤ 1) := by
    rw [← decide_not, decide_eq_decide, nan]
    omega
  rw [points] at compared
  refine Expr.evaluate_literals ?_ ?_ compared context
  · rintro rfl
    simp at mem
  · rintro rfl
    simp at mem

/-- A second point makes the difference. -/
theorem number_as_text_points :
    Numeral.lexemeValue "1.2.3" = .nan ∧
      (∃ c, Condition.compile "1.50 == '1.50'" = .ok c ∧
        ∀ context, c.evaluate context = (.ok (.bool true), .empty)) ∧
      ∃ c, Condition.compile "1.2.3>='1.2.3'" = .ok c ∧
        ∀ context, c.evaluate context = (.ok (.bool false), .empty) := by
  have one : IsLexeme .number "1.50".toList := .number rfl (List.all_eq_true.mp rfl)
  have two : IsLexeme .number "1.2.3".toList := .number rfl (List.all_eq_true.mp rfl)
  exact ⟨(number_as_text two).2.2.1.mpr (by decide),
    (number_as_text one).2.2.2 .looseEqual (by simp) '\'' rfl [] [' '] [' '] []
      (by simp [Text.isBlank]),
    (number_as_text two).2.2.2 .greaterEqual (by simp) '\'' rfl [] [] [] [] (by simp)⟩

end NumberText

end Visibility
