import RecursiveDescent.Proofs.IntegerLiterals

/-!
# The longest decimal literal

A decimal literal is a sign, digits, a fraction and an exponent, where everything but the digits
may be missing.  The parts are matched one behind the other and never given back.  This still finds
the longest literal ahead, because no character of a part begins a later one: signs contain no
digits, signs and digits contain no points, and nothing before an exponent contains an exponent
mark.

The value of the literal is calculated from its text.  When it is not finite the grammar fails; it
does not look for a shorter literal.
-/

namespace RecursiveDescent

namespace Text

variable {source : Array Char} {start : Nat} {text : List Char} {isMember : Char → Bool}

def isPoint (character : Char) : Bool :=
  character = '.'

def isSignMark (character : Char) : Bool :=
  "+-".toList.contains character

def isExponentMark (character : Char) : Bool :=
  "eE".toList.contains character

/-! ### Characters of the parts -/

theorem IsSign.free (isSign : IsSign text) (plus : isMember '+' = false)
    (minus : isMember '-' = false) : ∀ character ∈ text, isMember character = false := by
  rcases isSign with rfl | rfl | rfl <;> simp [plus, minus]

theorem IsDigits.free (digits : IsDigits text)
    (disjoint : ∀ character, Decimal.isDigit character → isMember character = false) :
    ∀ character ∈ text, isMember character = false :=
  fun character member => disjoint character (digits.2 character member)

theorem IsFraction.free (fraction : IsFraction text)
    (disjoint : ∀ character, Decimal.isDigit character → isMember character = false)
    (point : isMember '.' = false) : ∀ character ∈ text, isMember character = false := by
  rcases fraction with rfl | ⟨run, digits, rfl⟩
  · simp
  · simpa [point] using digits.free disjoint

theorem IsDigits.ledBy (digits : IsDigits text) : LedBy Decimal.isDigit text :=
  fun first found => digits.2 first (List.mem_of_mem_head? found)

theorem IsSign.ledBy (isSign : IsSign text) : LedBy isSignMark text := by
  rcases isSign with rfl | rfl | rfl <;> simp [isSignMark]

theorem IsFraction.ledBy (fraction : IsFraction text) : LedBy isPoint text := by
  rcases fraction with rfl | ⟨run, digits, rfl⟩ <;> simp [isPoint]

theorem IsExponent.ledBy (exponent : IsExponent text) : LedBy isExponentMark text := by
  rcases exponent with rfl | ⟨mark, sign, run, isMark, _, _, rfl⟩
  · simp
  · simpa [isExponentMark] using isMark

theorem isExponentMark_of_isDigit (character : Char) (digit : Decimal.isDigit character) :
    isExponentMark character = false := by
  have notSmall : character ≠ 'e' := ne_of_isDigit digit (by decide)
  have notCapital : character ≠ 'E' := ne_of_isDigit digit (by decide)
  simp [isExponentMark, notSmall, notCapital]

theorem isPoint_of_isDigit (character : Char) (digit : Decimal.isDigit character) :
    isPoint character = false :=
  decide_eq_false (ne_of_isDigit digit (by decide))

theorem isSignMark_of_isExponentMark (character : Char) (mark : isExponentMark character) :
    isSignMark character = false := by
  rcases (contains_marks character).mp mark with rfl | rfl <;> rfl

/-! ### Lexical parts -/

theorem lexical_fraction : Text.fraction.Lexical :=
  ⟨trivial, trivial, trivial, trivial, lexical_digits⟩

theorem lexical_exponent : Text.exponent.Lexical :=
  ⟨trivial, trivial, trivial, ⟨trivial, trivial, lexical_sign⟩, lexical_digits⟩

theorem lexical_decimalParts :
    (Grammar.sequence (.sequence (.sequence Text.sign digits .pair) Text.fraction .pair)
      Text.exponent .pair).Lexical :=
  ⟨trivial, ⟨trivial, ⟨trivial, lexical_sign, lexical_digits⟩, lexical_fraction⟩,
    lexical_exponent⟩

theorem lexical_decimal : decimal.Lexical :=
  ⟨trivial, trivial, trivial, lexical_decimalParts⟩

/-! ### The parts take what is longest -/

theorem takesLongest_sign (source : Array Char) : Text.sign.TakesLongest IsSign source := by
  have signs : (oneOf "+-").TakesLongest (IsSingle isSignMark) source :=
    Grammar.takesLongest_element isSignMark Value.char source
  refine signs.map.optional.congr fun text => ?_
  constructor
  · rintro (rfl | rfl | rfl)
    · exact .inl rfl
    · exact .inr ⟨'+', by decide, rfl⟩
    · exact .inr ⟨'-', by decide, rfl⟩
  · rintro (rfl | ⟨only, member, rfl⟩)
    · exact .inl rfl
    · rcases (contains_signs only).mp member with rfl | rfl
      · exact .inr (.inl rfl)
      · exact .inr (.inr rfl)

theorem takesLongest_digits (source : Array Char) : digits.TakesLongest IsDigits source := by
  have runs : digits.TakesLongest (IsRun Decimal.isDigit 1) source :=
    Grammar.takesLongest_repeated_element rfl source
  refine runs.congr fun text => ?_
  rw [IsDigits, IsRun, Nat.succ_le_iff, List.length_pos_iff]

theorem takesLongest_fraction (spanned : source.size < lastPosition) :
    Text.fraction.TakesLongest IsFraction source := by
  have point : (character '.').TakesLongest (IsSingle isPoint) source :=
    Grammar.takesLongest_element isPoint Value.char source
  have behindPoint : (Grammar.sequence (character '.') digits .pair).TakesLongest _ source :=
    point.sequence (takesLongest_digits source)
      (fun _ single => single.free (disjoint_symm isPoint_of_isDigit))
      (fun _ digits => digits.ledBy) trivial spanned
  refine behindPoint.map.optional.congr fun text => or_congr_right ⟨?_, ?_⟩
  · rintro ⟨run, digits, rfl⟩
    exact ⟨['.'], run, ⟨'.', by decide, rfl⟩, digits, rfl⟩
  · rintro ⟨_, run, ⟨only, same, rfl⟩, digits, rfl⟩
    exact ⟨run, digits, by rw [of_decide_eq_true same]; rfl⟩

theorem takesLongest_exponent (spanned : source.size < lastPosition) :
    Text.exponent.TakesLongest IsExponent source := by
  have mark : (oneOf "eE").TakesLongest (IsSingle isExponentMark) source :=
    Grammar.takesLongest_element isExponentMark Value.char source
  have marked : (Grammar.sequence (oneOf "eE") Text.sign .pair).TakesLongest _ source :=
    mark.sequence (takesLongest_sign source)
      (fun _ single => single.free isSignMark_of_isExponentMark)
      (fun _ isSign => isSign.ledBy) trivial spanned
  have noDigits : ∀ text, Concatenated (IsSingle isExponentMark) IsSign text →
      ∀ character ∈ text, Decimal.isDigit character = false := fun _ front =>
    front.forall_mem (fun _ single => single.free (disjoint_symm isExponentMark_of_isDigit))
      (fun _ isSign => isSign.free rfl rfl)
  have behindMark : (Grammar.sequence (.sequence (oneOf "eE") Text.sign .pair) digits
      .pair).TakesLongest _ source :=
    marked.sequence (takesLongest_digits source) noDigits (fun _ digits => digits.ledBy)
      ⟨trivial, trivial, lexical_sign⟩ spanned
  refine behindMark.map.optional.congr fun text => or_congr_right ⟨?_, ?_⟩
  · rintro ⟨mark, sign, run, isMark, isSign, digits, rfl⟩
    exact ⟨[mark] ++ sign, run,
      ⟨[mark], sign, ⟨mark, (contains_marks mark).mpr isMark, rfl⟩, isSign, rfl⟩, digits, rfl⟩
  · rintro ⟨_, run, ⟨_, sign, ⟨mark, isMark, rfl⟩, isSign, rfl⟩, digits, rfl⟩
    exact ⟨mark, sign, run, (contains_marks mark).mp isMark, isSign, digits, rfl⟩

/-! ### Whole literals -/

theorem isNumeral_iff_concatenated :
    IsNumeral text ↔
      Concatenated (Concatenated (Concatenated IsSign IsDigits) IsFraction) IsExponent text := by
  constructor
  · rintro ⟨sign, run, fraction, exponent, isSign, digits, isFraction, isExponent, rfl⟩
    exact ⟨_, exponent, ⟨_, fraction, ⟨sign, run, isSign, digits, rfl⟩, isFraction, rfl⟩,
      isExponent, rfl⟩
  · rintro ⟨_, exponent, ⟨_, fraction, ⟨sign, run, isSign, digits, rfl⟩, isFraction, rfl⟩,
      isExponent, rfl⟩
    exact ⟨sign, run, fraction, exponent, isSign, digits, isFraction, isExponent, rfl⟩

theorem free_of_signed (plus : isMember '+' = false) (minus : isMember '-' = false)
    (disjoint : ∀ character, Decimal.isDigit character → isMember character = false) (text)
    (signed : Concatenated IsSign IsDigits text) :
    ∀ character ∈ text, isMember character = false :=
  signed.forall_mem (fun _ isSign => isSign.free plus minus) (fun _ digits => digits.free disjoint)

theorem free_of_mantissa (text)
    (mantissa : Concatenated (Concatenated IsSign IsDigits) IsFraction text) :
    ∀ character ∈ text, isExponentMark character = false :=
  mantissa.forall_mem (free_of_signed rfl rfl isExponentMark_of_isDigit)
    (fun _ fraction => fraction.free isExponentMark_of_isDigit rfl)

theorem takesLongest_decimalText (spanned : source.size < lastPosition) :
    decimalText.TakesLongest IsNumeral source := by
  have signed : (Grammar.sequence Text.sign digits .pair).TakesLongest _ source :=
    (takesLongest_sign source).sequence (takesLongest_digits source)
      (fun _ isSign => isSign.free rfl rfl) (fun _ digits => digits.ledBy) lexical_sign spanned
  have mantissa : (Grammar.sequence (.sequence Text.sign digits .pair) Text.fraction
      .pair).TakesLongest _ source :=
    signed.sequence (takesLongest_fraction spanned)
      (free_of_signed rfl rfl isPoint_of_isDigit) (fun _ fraction => fraction.ledBy)
      ⟨trivial, lexical_sign, lexical_digits⟩ spanned
  have literal : (Grammar.sequence (.sequence (.sequence Text.sign digits .pair) Text.fraction
      .pair) Text.exponent .pair).TakesLongest _ source :=
    mantissa.sequence (takesLongest_exponent spanned) free_of_mantissa
      (fun _ exponent => exponent.ledBy)
      ⟨trivial, ⟨trivial, lexical_sign, lexical_digits⟩, lexical_fraction⟩ spanned
  have numerals := literal.congr fun text => isNumeral_iff_concatenated
  exact numerals.recognize (fun empty => empty.ne_nil rfl) lexical_decimalParts spanned

/-- Either a longest literal is ahead and taken, or no literal is ahead. -/
theorem exists_isLongest_or_absent (spanned : source.size < lastPosition) (start : Nat) :
    (∃ text, IsLongest IsNumeral text (remaining source start) ∧
      decimalText.Takes #[] source start text (Value.ofCharacters text)) ∨
    (∀ text, IsNumeral text → ¬ text <+: remaining source start) ∧
      decimalText.Yields #[] source start .failure := by
  have literals := takesLongest_decimalText spanned
  have lexical : decimalText.Lexical := ⟨trivial, lexical_decimalParts⟩
  obtain ⟨outcome, yields⟩ := lexical.exists_yields source start
  cases outcome with
  | failure => exact .inr ⟨fun text numeral => literals.absent yields numeral, yields⟩
  | success width value =>
      obtain ⟨text, rfl, takes⟩ := lexical.exists_takes spanned yields
      obtain ⟨-, rfl⟩ := of_takes_decimalText takes spanned
      exact .inl ⟨text, literals.longest takes, takes⟩

/-- What becomes of a literal: its value, if that is finite, and a failure otherwise. -/
def literalOutcome (text : List Char) : Outcome Value :=
  if (Decimal.value text).isFinite then .success text.length (.float (Decimal.value text))
  else .failure

theorem decimal_yields_of_takes
    (takes : decimalText.Takes #[] source start text (Value.ofCharacters text)) :
    decimal.Yields #[] source start (literalOutcome text) := by
  have converted : (Grammar.tryMap decimalText decimalValue?).Takes #[] source start text _ :=
    takes.tryMap (decimalValue?_ofCharacters text)
  exact Grammar.yields_of_adjusted rfl converted.yields rfl

theorem decimal_yields_iff (spanned : source.size < lastPosition) {outcome : Outcome Value} :
    decimal.Yields #[] source start outcome ↔
      (∃ text, IsLongest IsNumeral text (remaining source start) ∧
        outcome = literalOutcome text) ∨
      (∀ text, IsNumeral text → ¬ text <+: remaining source start) ∧ outcome = .failure := by
  rcases exists_isLongest_or_absent spanned start with ⟨text, longest, takes⟩ | ⟨absent, fails⟩
  · have expected := decimal_yields_of_takes takes
    constructor
    · intro yields
      exact .inl ⟨text, longest, yields.unique expected⟩
    · rintro (⟨other, longestToo, rfl⟩ | ⟨absent, _⟩)
      · rw [longestToo.unique longest]
        exact expected
      · exact absurd longest.begins (absent text longest.member)
  · have converted : (Grammar.tryMap decimalText decimalValue?).Yields #[] source start .failure :=
      Grammar.yields_of_adjusted rfl fails rfl
    have expected : decimal.Yields #[] source start .failure :=
      Grammar.yields_of_adjusted rfl converted rfl
    constructor
    · intro yields
      exact .inr ⟨absent, yields.unique expected⟩
    · rintro (⟨text, longest, _⟩ | ⟨_, rfl⟩)
      · exact absurd longest.begins (absent text longest.member)
      · exact expected

/-! ### Points and exponent marks -/

section Marks

variable {mark : Char} {front tail before after : List Char}

theorem eq_of_cut_cons {head : Char} (absent : mark ∉ tail)
    (cut : head :: tail = before ++ mark :: after) : after = tail := by
  cases before with
  | nil => exact (List.cons.inj cut).2.symm
  | cons first others =>
      have inside : mark ∈ tail := by
        rw [(List.cons.inj cut).2]
        exact List.mem_append_right others List.mem_cons_self
      exact absurd inside absent

theorem IsExponent.isPoint_free (exponent : IsExponent text) :
    ∀ character ∈ text, isPoint character = false := by
  rcases exponent with rfl | ⟨mark, sign, run, isMark, isSign, digits, rfl⟩
  · simp
  · have notPoint : isPoint mark = false := by rcases isMark with rfl | rfl <;> rfl
    have signed := free_of_signed rfl rfl isPoint_of_isDigit _ ⟨sign, run, isSign, digits, rfl⟩
    intro character member
    rcases List.mem_cons.mp member with rfl | member
    · exact notPoint
    · exact signed character member

/-- A point in a decimal literal has a digit behind it. -/
theorem IsNumeral.digit_behind_point (numeral : IsNumeral text)
    (cut : text = before ++ '.' :: after) :
    ∃ first others, after = first :: others ∧ Decimal.isDigit first := by
  obtain ⟨sign, run, fraction, exponent, isSign, digits, isFraction, isExponent, rfl⟩ := numeral
  have signed := free_of_signed rfl rfl isPoint_of_isDigit _ ⟨sign, run, isSign, digits, rfl⟩
  have notInExponent : '.' ∉ exponent := not_mem_of_free isExponent.isPoint_free rfl
  rw [List.append_assoc (sign ++ run)] at cut
  obtain ⟨more, behind⟩ := exists_behind (not_mem_of_free signed rfl) cut
  rcases isFraction with rfl | ⟨places, isPlaces, rfl⟩
  · rw [List.nil_append] at behind
    rw [behind] at notInExponent
    exact absurd (List.mem_append_right more List.mem_cons_self) notInExponent
  · have notInPlaces : '.' ∉ places := isPlaces.not_mem rfl
    have ahead : after = places ++ exponent :=
      eq_of_cut_cons (by simp [notInPlaces, notInExponent]) behind
    obtain ⟨first, others, rfl, digit⟩ := isPlaces.exists_cons
    exact ⟨first, others ++ exponent, ahead, digit⟩

/-- An exponent mark in a decimal literal has an optional sign and digits behind it. -/
theorem IsNumeral.digits_behind_mark (numeral : IsNumeral text)
    (isMark : mark = 'e' ∨ mark = 'E') (cut : text = before ++ mark :: after) :
    ∃ sign run, IsSign sign ∧ IsDigits run ∧ after = sign ++ run := by
  obtain ⟨sign, run, fraction, exponent, isSign, digits, isFraction, isExponent, rfl⟩ := numeral
  have member : isExponentMark mark := (contains_marks mark).mpr isMark
  have mantissa := free_of_mantissa _
    ⟨_, fraction, ⟨sign, run, isSign, digits, rfl⟩, isFraction, rfl⟩
  obtain ⟨more, behind⟩ := exists_behind (not_mem_of_free mantissa member) cut
  rcases isExponent with rfl | ⟨first, sign, run, _, isSign, digits, rfl⟩
  · cases more <;> cases behind
  · have signed := free_of_signed rfl rfl isExponentMark_of_isDigit _
      ⟨sign, run, isSign, digits, rfl⟩
    exact ⟨sign, run, isSign, digits, eq_of_cut_cons (not_mem_of_free signed member) behind⟩

end Marks

/-- The grammar of decimal literals takes the longest literal ahead and yields its value if that is
finite; where no literal is ahead, and where the value of the longest one is not finite, it fails.
A point that it takes is followed by a digit that it takes, and an exponent mark that it takes by an
optional sign and digits that it takes. -/
theorem decimal_takes_longest (rules : Rules Char Value) (source : Array Char)
    (spanned : source.size < lastPosition) (state : ParserState Value) :
    (∀ start outcome,
      (∃ final, decimal.Finishes rules source start state (outcome, final)) ↔
        (∃ text, IsLongest IsNumeral text (remaining source start) ∧
          outcome =
            if (Decimal.value text).isFinite then
              .success text.length (.float (Decimal.value text))
            else .failure) ∨
        (∀ text, IsNumeral text → ¬ text <+: remaining source start) ∧ outcome = .failure) ∧
    ∀ start width value,
      (∃ final, decimal.Finishes rules source start state (.success width value, final)) →
      ∀ before mark after, (remaining source start).take width = before ++ mark :: after →
        (mark = '.' → ∃ first others, after = first :: others ∧ Decimal.isDigit first) ∧
        (mark = 'e' ∨ mark = 'E' →
          ∃ sign run, IsSign sign ∧ IsDigits run ∧ after = sign ++ run) := by
  refine ⟨fun start outcome => ?_, fun start width value finishes before mark after cut => ?_⟩
  · rw [lexical_decimal.finishes_iff_yields]
    exact decimal_yields_iff spanned
  · rw [lexical_decimal.finishes_iff_yields] at finishes
    obtain ⟨text, rfl, takes⟩ := lexical_decimal.exists_takes spanned finishes
    obtain ⟨numeral, -, -⟩ := of_takes_decimal takes spanned
    rw [List.prefix_iff_eq_take.mp takes.prefix_remaining] at numeral
    refine ⟨?_, fun isMark => numeral.digits_behind_mark isMark cut⟩
    rintro rfl
    exact numeral.digit_behind_point cut

/-- An exponent without digits does not belong to the literal in front of it. -/
theorem decimal_takes_longest_negative_zero :
    (∃ final, decimal.Finishes #[] #['x', '-', '0', '.', '0', 'e', '+', 'x'] 1 {}
      (.success 4 (.float (-.zero)), final)) ∧
    ∃ first others, ['0'] = first :: others ∧ Decimal.isDigit first := by
  have spanned : #['x', '-', '0', '.', '0', 'e', '+', 'x'].size < lastPosition := by decide
  obtain ⟨outcomes, marks⟩ := decimal_takes_longest #[] _ spanned {}
  have zero : IsDigits ['0'] :=
    ⟨List.cons_ne_nil _ _, fun _ member => List.mem_singleton.mp member ▸ rfl⟩
  have numeral : IsNumeral ['-', '0', '.', '0'] :=
    ⟨['-'], ['0'], ['.', '0'], [], .inr (.inr rfl), zero, .inr ⟨['0'], zero, rfl⟩, .inl rfl, rfl⟩
  have longest : IsLongest IsNumeral ['-', '0', '.', '0']
      ['-', '0', '.', '0', 'e', '+', 'x'] := by
    refine ⟨numeral, ⟨['e', '+', 'x'], rfl⟩, fun other otherNumeral begins => ?_⟩
    refine Nat.le_of_not_lt fun longer => ?_
    have marked : ['-', '0', '.', '0', 'e'] <+: ['-', '0', '.', '0', 'e', '+', 'x'] :=
      ⟨['+', 'x'], rfl⟩
    obtain ⟨tail, rfl⟩ := List.prefix_of_prefix_length_le marked begins longer
    have short : tail <+: ['+', 'x'] := (List.prefix_append_right_inj _).mp begins
    have cut : ['-', '0', '.', '0', 'e'] ++ tail = ['-', '0', '.', '0'] ++ 'e' :: tail := rfl
    obtain ⟨sign, run, _, digits, rfl⟩ := otherNumeral.digits_behind_mark (.inl rfl) cut
    obtain ⟨first, others, rfl, digit⟩ := digits.exists_cons
    have member : first ∈ ['+', 'x'] :=
      short.subset (List.mem_append_right sign List.mem_cons_self)
    simp only [List.mem_cons, List.not_mem_nil, or_false] at member
    rcases member with rfl | rfl <;> exact absurd digit (by decide)
  have finishes := (outcomes 1 (.success 4 (.float (-.zero)))).mpr
    (.inl ⟨['-', '0', '.', '0'], longest, by rfl⟩)
  exact ⟨finishes, (marks 1 4 _ finishes ['-', '0'] '.' ['0'] rfl).1 rfl⟩

end Text

end RecursiveDescent
