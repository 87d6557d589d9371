import RecursiveDescent.Proofs.Takes
import RecursiveDescent.Text.Grammar

/-!
# The language of decimal literals

A decimal literal is an optional sign, digits, an optional fraction and an optional exponent.  The
grammar of literals reads as much as it can, so it reads a given literal only where nothing follows
that would go on with it: no digit, no point and no exponent mark.
-/

namespace RecursiveDescent

namespace Text

/-! ### The language -/

/-- White space, or nothing. -/
def IsBlank (text : List Char) : Prop :=
  ∀ character ∈ text, isWhitespace character

def IsDigits (text : List Char) : Prop :=
  text ≠ [] ∧ ∀ character ∈ text, Decimal.isDigit character

/-- A sign, or nothing. -/
def IsSign (text : List Char) : Prop :=
  text = [] ∨ text = ['+'] ∨ text = ['-']

/-- A point with digits behind it, or nothing. -/
def IsFraction (text : List Char) : Prop :=
  text = [] ∨ ∃ run, IsDigits run ∧ text = '.' :: run

/-- An exponent mark with an optional sign and digits behind it, or nothing. -/
def IsExponent (text : List Char) : Prop :=
  text = [] ∨ ∃ mark sign run, (mark = 'e' ∨ mark = 'E') ∧ IsSign sign ∧ IsDigits run ∧
    text = mark :: (sign ++ run)

def IsNumeral (text : List Char) : Prop :=
  ∃ sign run fraction exponent, IsSign sign ∧ IsDigits run ∧ IsFraction fraction ∧
    IsExponent exponent ∧ text = sign ++ run ++ fraction ++ exponent

/-- Whether a character behind a decimal literal that has no exponent yet might belong to its digits
or to its fraction. -/
def isDigitOrPoint (character : Char) : Bool :=
  Decimal.isDigit character || character = '.'

/-- Whether a character behind a decimal literal might belong to it. -/
def extendsNumeral (character : Char) : Bool :=
  isDigitOrPoint character || character = 'e' || character = 'E'

theorem IsDigits.exists_cons {run : List Char} (digits : IsDigits run) :
    ∃ first others, run = first :: others ∧ Decimal.isDigit first := by
  obtain ⟨nonempty, members⟩ := digits
  obtain ⟨first, others, rfl⟩ := List.exists_cons_of_ne_nil nonempty
  exact ⟨first, others, rfl, members first List.mem_cons_self⟩

/-- A digit is none of the characters that a text may compare it with. -/
theorem ne_of_isDigit {character other : Char} (digit : Decimal.isDigit character)
    (different : Decimal.isDigit other = false) : character ≠ other := by
  rintro rfl
  rw [digit] at different
  cases different

theorem IsDigits.not_mem {run : List Char} {mark : Char} (digits : IsDigits run)
    (different : Decimal.isDigit mark = false) : mark ∉ run :=
  fun found => ne_of_isDigit (digits.2 mark found) different rfl

theorem isWhitespace_of_isDigit {character : Char} (digit : Decimal.isDigit character) :
    isWhitespace character = false := by
  have bounds : 48 ≤ character.toNat ∧ character.toNat ≤ 57 := by
    simpa [Decimal.isDigit, Char.le_def, UInt32.le_iff_toNat_le] using digit
  simp only [isWhitespace, decide_eq_false_iff_not]
  omega

/-! ### Single characters, white space and digits -/

variable {rules : Rules Char Value} {source : Array Char} {start : Nat}
  {text rest : List Char} {value : Value}

theorem takes_character {mark : Char} (begins : remaining source start = mark :: rest) :
    (character mark).Takes rules source start [mark] (.char mark) :=
  Grammar.takes_element begins (decide_eq_true rfl)

theorem eq_of_takes_character {mark : Char}
    (takes : (character mark).Takes rules source start text value) : text = [mark] := by
  obtain ⟨found, rfl, same, _⟩ := takes.of_element
  rw [of_decide_eq_true same]

theorem character_fails {mark : Char}
    (avoids : Avoids (fun found => found = mark) (remaining source start)) :
    (character mark).Yields rules source start .failure :=
  Grammar.element_fails avoids

theorem takes_spaces (rules : Rules Char Value) (blank : IsBlank text)
    (begins : remaining source start = text ++ rest) (maximal : Avoids isWhitespace rest) :
    ∃ value, spaces.Takes rules source start text value :=
  ⟨_, Grammar.takes_repeated_element rfl (Nat.zero_le _) blank begins maximal⟩

theorem isBlank_of_takes_spaces (takes : spaces.Takes rules source start text value) :
    IsBlank text :=
  (Grammar.Takes.of_repeated_element takes rfl).1

theorem takes_digits (rules : Rules Char Value) (run : IsDigits text)
    (begins : remaining source start = text ++ rest) (maximal : Avoids Decimal.isDigit rest) :
    ∃ value, digits.Takes rules source start text value := by
  have enough : 1 ≤ text.length := List.length_pos_iff.mpr run.1
  exact ⟨_, Grammar.takes_repeated_element rfl enough run.2 begins maximal⟩

theorem isDigits_of_takes_digits (takes : digits.Takes rules source start text value) :
    IsDigits text := by
  obtain ⟨members, enough, _⟩ := Grammar.Takes.of_repeated_element takes rfl
  exact ⟨List.length_pos_iff.mp enough, members⟩

/-! ### The parts of a literal -/

theorem contains_signs (character : Char) :
    "+-".toList.contains character ↔ character = '+' ∨ character = '-' := by
  simp

theorem contains_marks (character : Char) :
    "eE".toList.contains character ↔ character = 'e' ∨ character = 'E' := by
  simp

theorem isDigitOrPoint_of_isDigit (character : Char) (digit : Decimal.isDigit character) :
    isDigitOrPoint character := by
  simp [isDigitOrPoint, digit]

theorem extendsNumeral_of_isDigitOrPoint (character : Char) (member : isDigitOrPoint character) :
    extendsNumeral character := by
  simp [extendsNumeral, member]

theorem extendsNumeral_of_mark (character : Char) (mark : character = 'e' ∨ character = 'E') :
    extendsNumeral character := by
  rcases mark with rfl | rfl <;> decide

theorem takes_sign (rules : Rules Char Value) (sign : IsSign text)
    (begins : remaining source start = text ++ rest) (digitsFollow : LedBy Decimal.isDigit rest) :
    ∃ value, Text.sign.Takes rules source start text value := by
  rcases sign with rfl | rfl | rfl
  · refine ⟨_, Grammar.takes_optional_nothing (Grammar.map_fails (Grammar.element_fails ?_))⟩
    rw [begins]
    refine digitsFollow.avoids fun first digit => ?_
    simp [ne_of_isDigit digit (by decide : Decimal.isDigit '+' = false),
      ne_of_isDigit digit (by decide : Decimal.isDigit '-' = false)]
  · exact ⟨_, .optional (.map (Grammar.takes_element begins (by decide)))⟩
  · exact ⟨_, .optional (.map (Grammar.takes_element begins (by decide)))⟩

theorem isSign_of_takes_sign (takes : Text.sign.Takes rules source start text value) :
    IsSign text := by
  rcases takes.of_optional with inside | ⟨nothing, _⟩
  · obtain ⟨_, inner, _⟩ := inside.of_map
    obtain ⟨found, rfl, member, _⟩ := inner.of_element
    rcases (contains_signs found).mp member with rfl | rfl
    · exact .inr (.inl rfl)
    · exact .inr (.inr rfl)
  · exact .inl nothing

theorem takes_fraction (rules : Rules Char Value) (fraction : IsFraction text)
    (begins : remaining source start = text ++ rest) (maximal : Avoids isDigitOrPoint rest) :
    ∃ value, Text.fraction.Takes rules source start text value := by
  rcases fraction with rfl | ⟨run, digits, rfl⟩
  · refine ⟨_, Grammar.takes_optional_nothing (Grammar.map_fails
      (Grammar.sequence_fails_first (character_fails ?_)))⟩
    rw [begins]
    refine maximal.mono fun character point => ?_
    simp only [decide_eq_true_eq] at point
    simp [isDigitOrPoint, point]
  · have point : (character '.').Takes rules source start ['.'] _ := takes_character begins
    have beginsRun : remaining source (start + ['.'].length) = run ++ rest :=
      remaining_of_eq_append begins
    obtain ⟨_, run⟩ := takes_digits rules digits beginsRun
      (maximal.mono isDigitOrPoint_of_isDigit)
    exact ⟨_, .optional (.map (point.sequence run))⟩

theorem isFraction_of_takes_fraction (takes : Text.fraction.Takes rules source start text value) :
    IsFraction text := by
  rcases takes.of_optional with inside | ⟨nothing, _⟩
  · obtain ⟨_, inner, _⟩ := inside.of_map
    obtain ⟨_, run, _, _, rfl, point, digits, _⟩ := inner.of_sequence
    obtain rfl := eq_of_takes_character point
    exact .inr ⟨run, isDigits_of_takes_digits digits, rfl⟩
  · exact .inl nothing

theorem takes_exponent (rules : Rules Char Value) (exponent : IsExponent text)
    (begins : remaining source start = text ++ rest) (maximal : Avoids extendsNumeral rest) :
    ∃ value, Text.exponent.Takes rules source start text value := by
  rcases exponent with rfl | ⟨mark, sign, run, isMark, isSign, digits, rfl⟩
  · refine ⟨_, Grammar.takes_optional_nothing (Grammar.map_fails
      (Grammar.sequence_fails_first (Grammar.sequence_fails_first (Grammar.element_fails ?_))))⟩
    rw [begins]
    refine maximal.mono fun character member => ?_
    exact extendsNumeral_of_mark character ((contains_marks character).mp member)
  · have marks : (oneOf "eE").Takes rules source start [mark] (.char mark) :=
      Grammar.takes_element begins ((contains_marks mark).mpr isMark)
    have beginsSign : remaining source (start + [mark].length) = sign ++ (run ++ rest) := by
      rw [← List.append_assoc]
      exact remaining_of_eq_append begins
    obtain ⟨first, others, rfl, digit⟩ := digits.exists_cons
    obtain ⟨_, signs⟩ := takes_sign rules isSign beginsSign (ledBy_cons.mpr digit)
    have beginsRun : remaining source (start + ([mark] ++ sign).length) =
        (first :: others) ++ rest := by
      refine remaining_of_eq_append ?_
      simpa using begins
    obtain ⟨_, run⟩ := takes_digits rules digits beginsRun
      ((maximal.mono extendsNumeral_of_isDigitOrPoint).mono isDigitOrPoint_of_isDigit)
    have front : (Grammar.sequence (oneOf "eE") Text.sign .pair).Takes rules source start
        ([mark] ++ sign) _ := marks.sequence signs
    exact ⟨_, .optional (.map (front.sequence run))⟩

theorem isExponent_of_takes_exponent (takes : Text.exponent.Takes rules source start text value) :
    IsExponent text := by
  rcases takes.of_optional with inside | ⟨nothing, _⟩
  · obtain ⟨_, inner, _⟩ := inside.of_map
    obtain ⟨_, run, _, _, rfl, front, digits, _⟩ := inner.of_sequence
    obtain ⟨_, sign, _, _, rfl, marks, signs, _⟩ := front.of_sequence
    obtain ⟨mark, rfl, member, _⟩ := marks.of_element
    exact .inr ⟨mark, sign, run, (contains_marks mark).mp member, isSign_of_takes_sign signs,
      isDigits_of_takes_digits digits, by simp⟩
  · exact .inl nothing

/-! ### Whole literals -/

theorem avoids_exponent {exponent : List Char} (isExponent : IsExponent exponent)
    (avoids : Avoids extendsNumeral rest) : Avoids isDigitOrPoint (exponent ++ rest) := by
  rcases isExponent with rfl | ⟨mark, sign, run, isMark, _, _, rfl⟩
  · exact avoids.mono extendsNumeral_of_isDigitOrPoint
  · rcases isMark with rfl | rfl <;> exact avoids_cons.mpr (by decide)

theorem avoids_fraction {fraction : List Char} (isFraction : IsFraction fraction)
    (avoids : Avoids isDigitOrPoint rest) : Avoids Decimal.isDigit (fraction ++ rest) := by
  rcases isFraction with rfl | ⟨run, _, rfl⟩
  · exact avoids.mono isDigitOrPoint_of_isDigit
  · exact avoids_cons.mpr (by decide)

theorem IsNumeral.ne_nil (numeral : IsNumeral text) : text ≠ [] := by
  obtain ⟨sign, run, fraction, exponent, _, ⟨nonempty, _⟩, _, _, rfl⟩ := numeral
  simp [nonempty]

theorem takes_decimalText (rules : Rules Char Value) (numeral : IsNumeral text)
    (begins : remaining source start = text ++ rest) (maximal : Avoids extendsNumeral rest)
    (spanned : source.size < lastPosition) :
    decimalText.Takes rules source start text (Value.ofCharacters text) := by
  have inside : start ≤ source.size := by
    rcases Nat.le_total start source.size with inside | beyond
    · exact inside
    · rw [(remaining_eq_nil_iff source start).mpr beyond] at begins
      exact absurd (List.append_eq_nil_iff.mp begins.symm).1 numeral.ne_nil
  obtain ⟨sign, run, fraction, exponent, isSign, isRun, isFraction, isExponent, rfl⟩ := numeral
  -- Each part is followed by what the next part begins with, or else by the rest.
  have maximalFraction := avoids_exponent isExponent maximal
  have maximalRun := avoids_fraction isFraction maximalFraction
  have beginsSign : remaining source start =
      sign ++ (run ++ (fraction ++ (exponent ++ rest))) := by
    simpa using begins
  have beginsRun := remaining_of_eq_append beginsSign
  have beginsFraction : remaining source (start + (sign ++ run).length) =
      fraction ++ (exponent ++ rest) := by
    refine remaining_of_eq_append ?_
    simpa using begins
  have beginsExponent : remaining source (start + (sign ++ run ++ fraction).length) =
      exponent ++ rest := by
    refine remaining_of_eq_append ?_
    simpa using begins
  have digitsFollow : LedBy Decimal.isDigit (run ++ (fraction ++ (exponent ++ rest))) := by
    obtain ⟨first, others, rfl, digit⟩ := isRun.exists_cons
    exact ledBy_cons.mpr digit
  obtain ⟨_, signs⟩ := takes_sign rules isSign beginsSign digitsFollow
  obtain ⟨_, runs⟩ := takes_digits rules isRun beginsRun maximalRun
  obtain ⟨_, fractions⟩ := takes_fraction rules isFraction beginsFraction maximalFraction
  obtain ⟨_, exponents⟩ := takes_exponent rules isExponent beginsExponent maximal
  have front : (Grammar.sequence Text.sign digits .pair).Takes rules source start (sign ++ run)
      _ := signs.sequence runs
  have more : (Grammar.sequence (.sequence Text.sign digits .pair) Text.fraction .pair).Takes
      rules source start (sign ++ run ++ fraction) _ := front.sequence fractions
  exact .recognize (more.sequence exponents) spanned inside

theorem of_takes_decimalText (takes : decimalText.Takes rules source start text value)
    (spanned : source.size < lastPosition) :
    IsNumeral text ∧ value = Value.ofCharacters text := by
  obtain ⟨_, inside, rfl⟩ := takes.of_recognize spanned
  obtain ⟨_, exponent, _, _, rfl, more, exponents, _⟩ := inside.of_sequence
  obtain ⟨_, fraction, _, _, rfl, front, fractions, _⟩ := more.of_sequence
  obtain ⟨sign, run, _, _, rfl, signs, runs, _⟩ := front.of_sequence
  exact ⟨⟨sign, run, fraction, exponent, isSign_of_takes_sign signs,
    isDigits_of_takes_digits runs, isFraction_of_takes_fraction fractions,
    isExponent_of_takes_exponent exponents, rfl⟩, rfl⟩

theorem decimalValue?_ofCharacters (text : List Char) :
    decimalValue? (Value.ofCharacters text) = some (.float (Decimal.value text)) := by
  simp [decimalValue?, Value.ofCharacters]

/-- The grammar of literals matches a literal with a finite value unless it goes on. -/
theorem takes_decimal (rules : Rules Char Value) (numeral : IsNumeral text)
    (finite : (Decimal.value text).isFinite) (begins : remaining source start = text ++ rest)
    (maximal : Avoids extendsNumeral rest) (spanned : source.size < lastPosition) :
    decimal.Takes rules source start text (.float (Decimal.value text)) := by
  have literals := takes_decimalText rules numeral begins maximal spanned
  exact .filter (literals.tryMap (decimalValue?_ofCharacters text)) finite

theorem of_takes_decimal (takes : decimal.Takes rules source start text value)
    (spanned : source.size < lastPosition) :
    IsNumeral text ∧ (Decimal.value text).isFinite ∧ value = .float (Decimal.value text) := by
  obtain ⟨inside, finite⟩ := takes.of_filter
  obtain ⟨_, literal, defined⟩ := inside.of_tryMap
  obtain ⟨numeral, rfl⟩ := of_takes_decimalText literal spanned
  rw [decimalValue?_ofCharacters] at defined
  cases defined
  exact ⟨numeral, finite, rfl⟩

end Text

/-! ### Signed literals -/

theorem Binary64.isFinite_neg (number : Binary64) : (-number).isFinite = number.isFinite := by
  have same : (-number).magnitudeBits = number.magnitudeBits := magnitudeBits_negate number
  rw [isFinite, isFinite, same]

/-- Converting a literal with a minus sign in front negates it. -/
theorem Decimal.value_minus {first : Char} {others : List Char} (digit : isDigit first) :
    value ('-' :: first :: others) = -value (first :: others) := by
  have unsigned : splitSign (first :: others) = (false, first :: others) := by
    have notMinus : first ≠ '-' := Text.ne_of_isDigit digit (by decide)
    have notPlus : first ≠ '+' := Text.ne_of_isDigit digit (by decide)
    simp [splitSign, notMinus, notPlus]
  simp only [value, unsigned]
  rfl

end RecursiveDescent
