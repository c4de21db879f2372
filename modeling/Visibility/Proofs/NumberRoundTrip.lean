import Visibility.Proofs.Comparison
import Visibility.Proofs.NumberText
import Visibility.Proofs.ShortestDecimal

/-!
# Numbers survive their texts

A double is written as a text and a text is read as a double, each by rules of its own.  Reading what
was written gives the same double back, so a number is loosely equal to its own text, and no two
numbers share one.

A text has an exponent if its decimal is below a millionth or reaches `10 ^ 21`.  The decimal is that
of the double nearest to it, so the lower end of the range without exponents is the double nearest to
a millionth, which is a little less than a millionth.

* `Numeral.stringValue_of_decimal?` — a decimal numeral has no other reading as a string
* `decimal?_write` — every layout writes a numeral of the shortest decimal
* `exists_stringValue_write` — a text is read as a number equal to the one it was written for
* `e_mem_write_iff`, `e_mem_write_iff_size` — which doubles are written with an exponent
* `Number.text_readsBack` — all of it, for every double
-/

namespace Visibility

/-! ## §1 Reading a numeral -/

namespace Text

theorem trim_eq_self {p : Char → Bool} {cs : List Char} (kept : ∀ c ∈ cs, p c = false) :
    trim p cs = cs := by
  have keeps {ds : List Char} (kept : ∀ c ∈ ds, p c = false) : ds.dropWhile p = ds := by
    cases ds with
    | nil => rfl
    | cons c ds => exact List.dropWhile_cons_of_neg (by simp [kept c List.mem_cons_self])
  unfold trim
  rw [keeps kept, keeps fun c mem => kept c (List.mem_reverse.mp mem), List.reverse_reverse]

end Text

/-- No character of a number text is a space. -/
theorem IsNumeric.not_space {c : Char} (numeric : IsNumeric c) : Text.isSpace c = false := by
  rcases numeric with digit | sign
  · have ⟨low, high⟩ := toNat_of_isDigit (c := c) digit
    simp only [Text.isSpace, Bool.or_eq_false_iff, Bool.and_eq_false_iff, decide_eq_false_iff_not,
      beq_eq_false_iff_ne]
    omega
  · have table : ∀ c ∈ "+-.eINafinty".toList, Text.isSpace c = false := by
      simp [Text.isSpace]
    exact table c sign

namespace Numeral

theorem radixNumeral?_of_noRadix {cs : List Char} (plain : ∀ c ∈ cs, NoRadix c) :
    radixNumeral? cs = none := by
  by_contra numeral
  obtain ⟨n, radix⟩ := Option.ne_none_iff_exists'.mp numeral
  obtain ⟨letter, digits, base, isBaseDigit, rfl, known, -⟩ := radixNumeral?_eq_some radix
  have none : radix? letter = none := plain letter (by simp)
  rw [none] at known
  cases known

/-- A decimal numeral made of the characters of number texts is read as such. -/
theorem stringValue_of_decimal? {cs : List Char} {x : Scientific}
    (numeric : ∀ c ∈ cs, IsNumeric c) (read : decimal? cs = some x) :
    stringValue (String.ofList cs) = .ok (.ofScientific x) := by
  have noSpace : Text.trimSpaces cs = cs := Text.trim_eq_self fun c mem => (numeric c mem).not_space
  have noRadix := radixNumeral?_of_noRadix fun c mem => (numeric c mem).noRadix
  -- The empty text and the words are no decimal numerals.
  have other {word : List Char} (none : decimal? word = none) : cs ≠ word := by
    rintro rfl
    rw [none] at read
    cases read
  unfold stringValue trimmedValue
  rw [String.toList_ofList, noSpace, if_neg (other rfl),
    if_neg (not_or.mpr ⟨other (by decide), other (by decide)⟩), if_neg (other (by decide)), noRadix,
    read]
  rfl

end Numeral

/-! ## §2 The text of a double -/

section Finite

variable (negative : Bool) {units : Nat} (representable : Double.Representable units)

/-- A finite double that is not zero is written by the parts of its shortest decimal. -/
theorem toList_write {layout : Layout} {m : Nat} (suffix : layout.ZeroSuffix m)
    (nonzero : units ≠ 0) :
    (layout.write (.finite negative units representable)).toList = signChars negative ++
      (layout.parts (Double.shortest units)).chars layout.exponentWidth := by
  unfold Layout.write
  dsimp only
  rw [String.toList_ofList, if_neg nonzero, Layout.positive_eq_chars suffix]

/-- Every layout writes a numeral of the shortest decimal. -/
theorem decimal?_write {layout : Layout} {m : Nat} (suffix : layout.ZeroSuffix m)
    (nonzero : units ≠ 0) :
    ∃ x, Numeral.decimal? (layout.write (.finite negative units representable)).toList = some x ∧
      x.negative = negative ∧ x.size = (Double.shortest units).size := by
  have laid := Layout.laid_parts suffix (Double.shortest units)
  rw [toList_write negative representable suffix nonzero]
  exact ⟨_, Numeral.decimal?_chars laid.proper negative _, rfl, laid.size negative⟩

/-- It is read back exactly. -/
theorem stringValue_write (nonzero : units ≠ 0) :
    Numeral.stringValue (Layout.condition.write (.finite negative units representable)) =
      .ok (.finite negative units representable) := by
  obtain ⟨x, read, rfl, size⟩ :=
    decimal?_write negative representable Layout.zeroSuffix_condition nonzero
  have numeric := isNumeric_condition (.finite x.negative units representable)
  rw [← String.ofList_toList (s := Layout.condition.write _),
    Numeral.stringValue_of_decimal? numeric read,
    Double.ofScientific_of_size representable nonzero size]

end Finite

theorem Number.value?_finite (negative : Bool) (units : Nat)
    (representable : Double.Representable units) :
    (Number.double (.finite negative units representable)).value? =
      some (.ofRat (Double.unitsValue negative units).toRat) := rfl

/-- Every double but NaN has a text that is read as a number equal to it. -/
theorem exists_stringValue_write {x : Double} (notNaN : x ≠ .nan) :
    ∃ y, Numeral.stringValue (Layout.condition.write x) = .ok y ∧
      (Number.double y).equals (.double x) = .ok true := by
  cases x with
  | nan => exact absurd rfl notNaN
  | infinite negative => cases negative <;> exact ⟨_, rfl, rfl⟩
  | finite negative units representable =>
    by_cases zero : units = 0
    · subst zero
      -- The text of a zero has no sign, so it may be read as the other zero.
      have read : Numeral.stringValue "0" = .ok (.zero false) := rfl
      refine ⟨.zero false, read, Number.equals_of_value (v := .ofRat 0) ?_ ?_⟩
      · rw [Double.zero, Number.value?_finite, Double.toRat_unitsValue_zero]
      · rw [Number.value?_finite, Double.toRat_unitsValue_zero]
    · have value := Number.value?_finite negative units representable
      have same := Number.equals_of_value value value
      exact ⟨_, stringValue_write negative representable zero, same⟩

namespace Value

/-- A number and a string are loosely equal, either way round, as the number of the string is. -/
theorem looseEquals_number_string {x y : Number} {s : String} (read : (string s).toNumber = .ok y) :
    (number x).looseEquals (.string s) = x.equals y ∧
      (string s).looseEquals (.number x) = y.equals x := by
  unfold looseEquals
  rw [looseEqualsWithin_plain (.number x) (.string s),
    looseEqualsWithin_plain (.string s) (.number x)]
  unfold primitiveOrder
  rw [read]
  exact ⟨rfl, rfl⟩

end Value

/-! ## §3 The ends of the range without exponents -/

namespace Double

/-- The absolute value of a finite double. -/
def size : Double → ℚ
  | .finite negative units _ => (unitsValue negative units).size
  | _ => 0

section Finite

variable (negative : Bool) {units : Nat} (representable : Representable units)

theorem size_finite : (finite negative units representable).size = units / (unitsPerOne : Nat) :=
  (Scientific.abs_toRat _).symm.trans (abs_toRat_unitsValue negative units)

theorem size_lt_size_iff (s : Bool) {limit : Nat} (representableL : Representable limit) :
    (finite negative units representable).size < (finite s limit representableL).size ↔
      units < limit := by
  rw [size_finite, size_finite, div_lt_div_iff_of_pos_right (Nat.cast_pos.mpr (twoPow_pos _)),
    Nat.cast_lt]

end Finite

/-- The units of the double nearest to a millionth, which lies below it. -/
def millionthUnits : Nat := 0x10c6f7a0b5ed8d * twoPow 1002

theorem representable_millionth : Representable millionthUnits :=
  ⟨by decide +kernel, 0x10c6f7a0b5ed8d, 1002, by decide +kernel, rfl⟩

theorem shortest_millionth : shortest millionthUnits = ⟨false, 1, -6⟩ := by
  have digits : digitCount (millionthUnits * unitDigits) = 1068 :=
    digitCount_eq (by decide +kernel) (by decide +kernel)
  have found : gridPoint? millionthUnits 1067 = some ⟨false, 10, -7⟩ := by decide +kernel
  rw [shortest_of_gridPoint? digits found]
  cbv

theorem ofScientific_millionth :
    ofScientific ⟨false, 1, -6⟩ = .finite false millionthUnits representable_millionth :=
  ofScientific_of_size representable_millionth (by decide +kernel) (by rw [shortest_millionth])

/-- The units of `10 ^ 21`, which is a double. -/
def sextillionUnits : Nat := tenPow 21 * unitsPerOne

theorem representable_sextillion : Representable sextillionUnits :=
  ⟨by decide +kernel, Nat.pow 5 21, 21 + unitPlaces, by decide +kernel, by decide +kernel⟩

theorem shortest_sextillion : shortest sextillionUnits = ⟨false, 1, 21⟩ := by
  have digits : digitCount (sextillionUnits * unitDigits) = 1096 :=
    digitCount_eq (by decide +kernel) (by decide +kernel)
  have found : gridPoint? sextillionUnits 1095 = some ⟨false, 1, 21⟩ := by decide +kernel
  rw [shortest_of_gridPoint? digits found]
  cbv

section Finite

variable (negative : Bool) {units : Nat} (representable : Representable units)

/-- The shortest decimal is below a millionth if the double is below the one nearest to it. -/
theorem size_shortest_lt_millionth (nonzero : units ≠ 0) :
    (shortest units).size < 10 ^ (-6 : Int) ↔
      (finite negative units representable).size < (ofScientific ⟨false, 1, -6⟩).size := by
  have decimal : (shortest millionthUnits).size = 10 ^ (-6 : Int) := by
    rw [shortest_millionth]
    exact one_mul _
  rw [← decimal, size_shortest_lt_iff representable nonzero representable_millionth
    (by decide +kernel), ofScientific_millionth, size_lt_size_iff]

/-- The shortest decimal reaches `10 ^ 21` if the double does. -/
theorem le_size_shortest_sextillion (nonzero : units ≠ 0) :
    10 ^ (21 : Int) ≤ (shortest units).size ↔
      10 ^ (21 : Int) ≤ (finite negative units representable).size := by
  have decimal : (shortest sextillionUnits).size = 10 ^ (21 : Int) := by
    rw [shortest_sextillion]
    exact one_mul _
  have exact : (finite false sextillionUnits representable_sextillion).size = 10 ^ (21 : Int) := by
    have positive : ((unitsPerOne : Nat) : ℚ) ≠ 0 := Nat.cast_ne_zero.mpr (twoPow_pos _).ne'
    rw [size_finite, sextillionUnits, Nat.cast_mul, mul_div_cancel_right₀ _ positive, cast_tenPow]
    rfl
  -- As the end is a double with itself as its decimal, both are comparisons of units.
  rw [← not_lt, ← not_lt, ← exact, size_lt_size_iff, exact, ← decimal,
    size_shortest_lt_iff representable nonzero representable_sextillion (by decide +kernel)]

end Finite

end Double

/-! ## §4 Every double -/

section Finite

variable (negative : Bool) {units : Nat} (representable : Double.Representable units)

/-- The letter of an exponent is in the text if the shortest decimal is out of the range that is
written in place. -/
theorem e_mem_write_iff (nonzero : units ≠ 0) :
    'e' ∈ (Layout.condition.write (.finite negative units representable)).toList ↔
      (Double.shortest units).size < 10 ^ (-6 : Int) ∨
        10 ^ (21 : Int) ≤ (Double.shortest units).size := by
  have laid := Layout.laid_parts Layout.zeroSuffix_condition (Double.shortest units)
  have sign : 'e' ∉ signChars negative := by cases negative <;> decide
  rw [toList_write negative representable Layout.zeroSuffix_condition nonzero, List.mem_append,
    or_iff_right sign, Layout.e_mem_chars_iff laid.proper,
    Layout.exponent_condition (Double.shortest_ne_zero representable nonzero)]

/-- In doubles, the range goes from the one nearest to a millionth up to `10 ^ 21`. -/
theorem e_mem_write_iff_size (nonzero : units ≠ 0) :
    'e' ∈ (Layout.condition.write (.finite negative units representable)).toList ↔
      (Double.finite negative units representable).size <
          (Double.ofScientific ⟨false, 1, -6⟩).size ∨
        10 ^ (21 : Int) ≤ (Double.finite negative units representable).size := by
  rw [e_mem_write_iff negative representable nonzero,
    Double.size_shortest_lt_millionth negative representable nonzero,
    Double.le_size_shortest_sextillion negative representable nonzero]

end Finite

namespace Number

/-- Only NaN has the text of NaN. -/
theorem write_ne_of_ne_nan {x : Double} (notNaN : x ≠ .nan) :
    Layout.condition.write x ≠ Layout.condition.write .nan := by
  intro same
  obtain ⟨y, read, equal⟩ := exists_stringValue_write notNaN
  rw [same] at read
  cases read
  obtain ⟨v, none, -⟩ := equals_eq_true_iff.mp equal
  cases none

/-- Doubles of one text are equal, or both NaN. -/
theorem equals_of_write_eq {x y : Double}
    (same : Layout.condition.write x = Layout.condition.write y) :
    (double x).equals (.double y) = .ok true ∨ x = .nan ∧ y = .nan := by
  by_cases nanX : x = .nan
  · by_cases nanY : y = .nan
    · exact .inr ⟨nanX, nanY⟩
    · rw [nanX] at same
      exact absurd same.symm (write_ne_of_ne_nan nanY)
  · by_cases nanY : y = .nan
    · rw [nanY] at same
      exact absurd same (write_ne_of_ne_nan nanX)
    · -- Both are equal to what the text is read as.
      obtain ⟨z, readX, equalX⟩ := exists_stringValue_write nanX
      obtain ⟨z', readY, equalY⟩ := exists_stringValue_write nanY
      rw [← same, readX] at readY
      cases readY
      exact .inl (equals_of_equals equalX equalY)

/-- Every double but NaN is read back from its text and loosely equal to it; doubles of one text are
equal or both NaN; and the text of a finite double that is not zero is the numeral of its shortest
decimal without needless zeros, with an exponent only outside of the range from the double nearest to
a millionth to `10 ^ 21`. -/
theorem text_readsBack (x : Double) :
    (x ≠ .nan → ∃ s y, (Value.number (.double x)).text = .ok s ∧
      (Value.string s).toNumber = .ok y ∧ y.equals (.double x) = .ok true ∧
      (Value.number (.double x)).looseEquals (.string s) = .ok true ∧
      (Value.string s).looseEquals (.number (.double x)) = .ok true) ∧
    (∀ y : Double, (Value.number (.double x)).text = (Value.number (.double y)).text →
      (Number.double x).equals (.double y) = .ok true ∨ x = .nan ∧ y = .nan) ∧
    (∀ negative units representable, x = .finite negative units representable → units ≠ 0 →
      ∃ (s : String) (p : Numeral.Parts) (c d : Scientific),
        (Value.number (.double x)).text = .ok s ∧
        s.toList = signChars negative ++ p.chars 1 ∧ p.Canonical ∧
        Numeral.decimal? s.toList = some c ∧ c.negative = negative ∧
        c.size = (Double.shortest units).size ∧
        Numeral.decimal? (Layout.json.write x).toList = some d ∧ d.toRat = c.toRat ∧
        ('e' ∈ s.toList ↔ c.size < 10 ^ (-6 : Int) ∨ 10 ^ (21 : Int) ≤ c.size) ∧
        ('e' ∈ s.toList ↔ x.size < (Double.ofScientific ⟨false, 1, -6⟩).size ∨
          10 ^ (21 : Int) ≤ x.size)) := by
  refine ⟨fun notNaN => ?_, fun y same => ?_, ?_⟩
  · obtain ⟨y, read, equal⟩ := exists_stringValue_write notNaN
    have number : (Value.string (Layout.condition.write x)).toNumber = .ok (.double y) :=
      congrArg (Except.map double) read
    obtain ⟨there, back⟩ := Value.looseEquals_number_string (x := .double x) number
    rw [equals_comm] at there
    exact ⟨_, _, rfl, number, equal, there.trans equal, back.trans equal⟩
  · exact equals_of_write_eq (Except.ok.inj same)
  · rintro negative units representable rfl nonzero
    have laid := Layout.laid_parts Layout.zeroSuffix_condition (Double.shortest units)
    have canonical := laid.canonical (Double.shortest_coefficient representable nonzero)
    obtain ⟨c, readC, signC, sizeC⟩ :=
      decimal?_write negative representable Layout.zeroSuffix_condition nonzero
    obtain ⟨d, readD, signD, sizeD⟩ :=
      decimal?_write negative representable Layout.zeroSuffix_json nonzero
    -- The layouts differ in their zeros, but not in what they denote.
    have same : d.toRat = c.toRat := by
      unfold Scientific.toRat
      rw [signC, signD, sizeC, sizeD]
    have decimals := e_mem_write_iff negative representable nonzero
    rw [← sizeC] at decimals
    exact ⟨_, _, c, d, rfl, toList_write negative representable Layout.zeroSuffix_condition nonzero,
      canonical, readC, signC, sizeC, readD, same, decimals,
      e_mem_write_iff_size negative representable nonzero⟩

/-- The text of `-10 ^ 21` has an exponent, and is read back. -/
theorem text_readsBack_sextillion :
    let x := Double.finite true Double.sextillionUnits Double.representable_sextillion
    ∃ s y, (Value.number (.double x)).text = .ok s ∧ 'e' ∈ s.toList ∧
      (Value.string s).toNumber = .ok y ∧ y.equals (.double x) = .ok true := by
  intro x
  have nonzero : Double.sextillionUnits ≠ 0 := by decide +kernel
  have size : x.size = 10 ^ (21 : Int) := by
    have positive : (0 : ℚ) < (Double.unitsPerOne : Nat) := Nat.cast_pos.mpr (twoPow_pos _)
    have units : Double.sextillionUnits = 10 ^ 21 * Double.unitsPerOne := by decide +kernel
    rw [Double.size_finite, units, Nat.cast_mul, mul_div_cancel_right₀ _ positive.ne']
    norm_num
  obtain ⟨readBack, -, layout⟩ := text_readsBack x
  obtain ⟨s, y, text, read, equal, -⟩ := readBack nofun
  obtain ⟨s', -, -, -, text', -, -, -, -, -, -, -, -, exponent⟩ := layout _ _ _ rfl nonzero
  obtain rfl : s' = s := Except.ok.inj (text'.symm.trans text)
  exact ⟨s', y, text, exponent.mpr (.inr size.ge), read, equal⟩

/-- The double nearest to a millionth is below it and is written in place. -/
theorem text_millionth :
    (Double.finite false Double.millionthUnits Double.representable_millionth).size <
        10 ^ (-6 : Int) ∧
      (Value.number (.double
        (.finite false Double.millionthUnits Double.representable_millionth))).text =
          .ok "0.000001" ∧
      'e' ∉ "0.000001".toList := by
  have units : Double.millionthUnits * 10 ^ 6 < Double.unitsPerOne := by decide +kernel
  have nonzero : Double.millionthUnits ≠ 0 := by decide +kernel
  refine ⟨?_, ?_, by decide⟩
  · -- The value is below a millionth by a comparison of whole numbers, its count of units with the
    -- units of one.
    have positive : (0 : ℚ) < (Double.unitsPerOne : Nat) := Nat.cast_pos.mpr (twoPow_pos _)
    rw [Double.size_finite, div_lt_iff₀ positive, zpow_neg, inv_mul_eq_div,
      lt_div_iff₀ (by norm_num)]
    exact_mod_cast units
  · show Except.ok (Layout.condition.write _) = _
    unfold Layout.write
    dsimp only
    rw [if_neg nonzero, Double.shortest_millionth]
    rfl

end Number

end Visibility
