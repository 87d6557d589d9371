import RecursiveDescent.Proofs.DecimalSyntax
import RecursiveDescent.Proofs.LongestMatches

/-!
# Integer literals

There are two grammars of integers.  One collects digits into a word as long as the number fits;
the other recognizes the text of a sign and digits and converts all of it.  Both take every digit
there is, yield the number that the digits denote, and fail when it is out of range: neither falls
back to fewer digits.

What digits denote is said by `Nat.ofDigitChars`, the inverse of writing a number with digits.
-/

namespace RecursiveDescent

namespace Text

variable {source : Array Char} {start : Nat} {sign run text : List Char} {value : Value}

/-- The digits ahead, as many as there are. -/
def digitsAhead (source : Array Char) (start : Nat) : List Char :=
  (remaining source start).takeWhile Decimal.isDigit

/-- A position has a sign ahead, or nothing, and behind that digits: these, and no others. -/
structure SpelledAhead (source : Array Char) (start : Nat) (sign run : List Char) : Prop where
  isSign : IsSign sign
  begins : sign <+: remaining source start
  digits_eq : digitsAhead source (start + sign.length) = run
  digits_ne_nil : run ≠ []

def signedNumber (sign run : List Char) : Int :=
  if sign = ['-'] then -(Nat.ofDigitChars 10 run 0 : Int) else Nat.ofDigitChars 10 run 0

theorem isDigit_of_mem_digitsAhead :
    ∀ character ∈ digitsAhead source start, Decimal.isDigit character :=
  List.all_eq_true.mp List.all_takeWhile

theorem digitsAhead_eq_nil_iff :
    digitsAhead source start = [] ↔ Avoids Decimal.isDigit (remaining source start) :=
  takeWhile_eq_nil_iff

theorem ledBy_of_digitsAhead (present : digitsAhead source start ≠ []) :
    LedBy Decimal.isDigit (remaining source start) := by
  rw [ne_eq, digitsAhead_eq_nil_iff, Avoids] at present
  intro first found
  rw [found] at present
  simpa using present

/-! ### Lexical grammars of integers -/

theorem lexical_digits : digits.Lexical :=
  ⟨trivial, trivial⟩

theorem lexical_sign : Text.sign.Lexical :=
  ⟨trivial, trivial, trivial⟩

theorem lexical_unsignedInteger : unsignedInteger.Lexical :=
  ⟨trivial, trivial, trivial⟩

theorem lexical_signedInteger : signedInteger.Lexical :=
  ⟨trivial, trivial, trivial, lexical_sign, lexical_digits⟩

/-! ### Unsigned integers -/

theorem le_ofDigitChars (run : List Char) (total : Nat) : total ≤ Nat.ofDigitChars 10 run total := by
  induction run generalizing total with
  | nil => exact Nat.le_refl _
  | cons first others othersCase =>
      rw [Nat.ofDigitChars_cons]
      have following := othersCase (10 * total + (first.toNat - '0'.toNat))
      omega

theorem foldl_appendDigit_none (run : List Char) :
    (run.map Value.char).foldl appendDigit none = none := by
  induction run with
  | nil => rfl
  | cons first others othersCase =>
      have nothing : appendDigit none (.char first) = none := by simp [appendDigit]
      rw [List.map_cons, List.foldl_cons, nothing, othersCase]

/-- The word that digits are collected into is lost exactly when the number that all of them denote
does not fit: a number that has become too large never becomes smaller. -/
theorem foldl_appendDigit (members : ∀ character ∈ run, Decimal.isDigit character) {total : Nat}
    (fits : total < wordSize) :
    (run.map Value.char).foldl appendDigit (some total) =
      if Nat.ofDigitChars 10 run total < wordSize then some (Nat.ofDigitChars 10 run total)
      else none := by
  induction run generalizing total with
  | nil => simp [fits]
  | cons first others othersCase =>
      have digit := members first List.mem_cons_self
      have appended : appendDigit (some total) (.char first) =
          if 10 * total + Decimal.digitValue first < wordSize then
            some (10 * total + Decimal.digitValue first) else none := by
        simp [appendDigit, digit, Option.filter]
      rw [List.map_cons, List.foldl_cons, appended, Nat.ofDigitChars_cons]
      split
      next fitsStill =>
        exact othersCase (fun character member => members character (List.mem_cons_of_mem _ member))
          fitsStill
      next exceeds =>
        have grows := le_ofDigitChars others (10 * total + Decimal.digitValue first)
        rw [foldl_appendDigit_none, if_neg]
        exact fun below => exceeds (Nat.lt_of_le_of_lt grows below)

theorem gathered_collectingWord (members : ∀ character ∈ run, Decimal.isDigit character) :
    ValueCollector.gathered collectingWord (run.map Value.char) =
      Value.ofOption (if Nat.ofDigitChars 10 run 0 < wordSize then
        some (.int (Nat.ofDigitChars 10 run 0)) else none) := by
  have folded : (run.map Value.char).foldl appendDigit (some 0) = _ :=
    foldl_appendDigit members (by decide)
  have opened : ValueCollector.gathered collectingWord (run.map Value.char) =
      Value.ofOption (((run.map Value.char).foldl appendDigit (some 0)).map Value.ofNat) := rfl
  rw [opened, folded]
  split <;> rfl

/-- What the grammar of unsigned integers yields. -/
theorem unsignedInteger_yields (source : Array Char) (start : Nat) :
    unsignedInteger.Yields #[] source start
      (if digitsAhead source start ≠ [] ∧
          Nat.ofDigitChars 10 (digitsAhead source start) 0 < 2 ^ 64 then
        .success (digitsAhead source start).length
          (.int (Nat.ofDigitChars 10 (digitsAhead source start) 0))
      else .failure) := by
  by_cases absent : digitsAhead source start = []
  · rw [if_neg (fun present => present.1 absent)]
    exact Grammar.yields_of_adjusted rfl (Grammar.repeated_fails_first rfl (by decide)
      (Grammar.element_fails (digitsAhead_eq_nil_iff.mp absent))) rfl
  · have enough : 1 ≤ (digitsAhead source start).length := List.length_pos_iff.mpr absent
    have takes : (Grammar.repeated digit collectingWord .oneOrMore).Takes #[] source start
        (digitsAhead source start) _ := Grammar.takes_takeWhile rfl enough
    refine Grammar.yields_of_adjusted rfl takes.yields ?_
    have gathered : ValueCollector.gathered collectingWord
        ((digitsAhead source start).map Value.char) = _ :=
      gathered_collectingWord isDigit_of_mem_digitsAhead
    change Outcome.filterMap Value.content? (.success (digitsAhead source start).length
      (ValueCollector.gathered collectingWord ((digitsAhead source start).map Value.char))) = _
    rw [gathered]
    by_cases fits : Nat.ofDigitChars 10 (digitsAhead source start) 0 < wordSize
    · rw [if_pos fits, if_pos ⟨absent, fits⟩]
      rfl
    · rw [if_neg fits, if_neg (fun present => fits present.2)]
      rfl

/-! ### Numbers written in decimal -/

theorem isDigits_toDigits (number : Nat) : IsDigits (Nat.toDigits 10 number) := by
  refine ⟨Nat.toDigits_ne_nil, fun character member => ?_⟩
  have digit := Nat.isDigit_of_mem_toDigits (by decide) (by decide) member
  have bounds : 48 ≤ character.val ∧ character.val ≤ 57 := by simpa [Char.isDigit] using digit
  exact decide_eq_true bounds

theorem length_toDigits_le {number : Nat} (word : number < 2 ^ 64) :
    (Nat.toDigits 10 number).length ≤ 20 := by
  refine (Nat.length_toDigits_le_iff (by decide) (by decide)).mpr ?_
  exact Nat.lt_of_lt_of_le word (by decide)

/-- In a source that is a sign and digits, the digits are all there are behind the sign. -/
theorem digitsAhead_of_digits (sign : List Char) (digits : IsDigits run) :
    digitsAhead (sign ++ run).toArray sign.length = run := by
  have left : remaining (sign ++ run).toArray sign.length = run ++ [] := by
    rw [List.append_nil]
    exact List.drop_left
  rw [digitsAhead, left, (avoids_nil _).takeWhile_append digits.2]

/-- The grammar of unsigned integers takes all digits ahead and yields the number that they denote,
unless there are none or the number does not fit into a 64-bit word; then it fails.  In particular
it reads every word back from its decimal text. -/
theorem unsignedInteger_exact (rules : Rules Char Value) (source : Array Char)
    (state : ParserState Value) :
    (∀ start outcome,
      (∃ final, unsignedInteger.Finishes rules source start state (outcome, final)) ↔
        outcome =
          if digitsAhead source start ≠ [] ∧
              Nat.ofDigitChars 10 (digitsAhead source start) 0 < 2 ^ 64 then
            .success (digitsAhead source start).length
              (.int (Nat.ofDigitChars 10 (digitsAhead source start) 0))
          else .failure) ∧
    ∀ number : UInt64, ∃ last,
      unsignedInteger.parseComplete rules (toString number).toList.toArray state =
        some (some (.int number.toNat), last) := by
  refine ⟨fun start outcome => ?_, fun number => ?_⟩
  · rw [lexical_unsignedInteger.finishes_iff_yields]
    constructor
    · intro yields
      exact yields.unique (unsignedInteger_yields source start)
    · rintro rfl
      exact unsignedInteger_yields source start
  · have written : (toString number).toList = Nat.toDigits 10 number.toNat := Nat.toList_repr
    have digits := isDigits_toDigits number.toNat
    have ahead : digitsAhead (Nat.toDigits 10 number.toNat).toArray 0 =
        Nat.toDigits 10 number.toNat := digitsAhead_of_digits [] digits
    have length := length_toDigits_le number.toNat_lt
    have yields := unsignedInteger_yields (Nat.toDigits 10 number.toNat).toArray 0
    rw [ahead, Nat.ofDigitChars_ten_toDigits, if_pos ⟨digits.1, number.toNat_lt⟩] at yields
    have short : (Nat.toDigits 10 number.toNat).length < Grammar.amplySteps := by
      rw [Grammar.amplySteps]
      omega
    obtain ⟨last, parsed⟩ := lexical_unsignedInteger.exists_parseComplete_eq yields short rules state
    refine ⟨last, ?_⟩
    rw [written, parsed, Outcome.complete?, List.size_toArray, if_pos rfl]

/-! ### Signed integers -/

/-- The conversion of a sign and digits yields the number that they denote. -/
theorem signedNumeral_append (isSign : IsSign sign) (digits : IsDigits run) :
    Decimal.signedNumeral (sign ++ run) = signedNumber sign run := by
  rcases isSign with rfl | rfl | rfl
  · obtain ⟨first, others, rfl, digit⟩ := digits.exists_cons
    have notMinus : first ≠ '-' := ne_of_isDigit digit (by decide)
    have notPlus : first ≠ '+' := ne_of_isDigit digit (by decide)
    have unsigned : Decimal.splitSign (first :: others) = (false, first :: others) := by
      simp [Decimal.splitSign, notMinus, notPlus]
    rw [List.nil_append, Decimal.signedNumeral, unsigned]
    rfl
  · rfl
  · rfl

theorem signedWord?_eq_some_iff :
    signedWord? (Value.ofCharacters text) = some value ↔
      (-(2 : Int) ^ 63 ≤ Decimal.signedNumeral text ∧ Decimal.signedNumeral text < 2 ^ 63) ∧
        value = .int (Decimal.signedNumeral text) := by
  simp [signedWord?, Value.ofCharacters, eq_comm]

theorem SpelledAhead.isDigits (spelled : SpelledAhead source start sign run) : IsDigits run := by
  refine ⟨spelled.digits_ne_nil, ?_⟩
  rw [← spelled.digits_eq]
  exact isDigit_of_mem_digitsAhead

theorem SpelledAhead.takes (spelled : SpelledAhead source start sign run)
    (spanned : source.size < lastPosition)
    (fits : -(2 : Int) ^ 63 ≤ signedNumber sign run ∧ signedNumber sign run < 2 ^ 63) :
    signedInteger.Takes #[] source start (sign ++ run) (.int (signedNumber sign run)) := by
  have isDigits := spelled.isDigits
  obtain ⟨isSign, ⟨rest, begins⟩, rfl, present⟩ := spelled
  have left : remaining source (start + sign.length) = rest := remaining_of_eq_append begins.symm
  have digitsFollow := ledBy_of_digitsAhead present
  rw [left] at digitsFollow
  obtain ⟨_, signs⟩ := takes_sign #[] isSign begins.symm digitsFollow
  have run : digits.Takes #[] source (start + sign.length)
      (digitsAhead source (start + sign.length)) _ :=
    Grammar.takes_takeWhile rfl (List.length_pos_iff.mpr present)
  have inside := lt_size_of_takeWhile present
  have recognized : (recognized (.sequence Text.sign digits .pair)).Takes #[] source start
      (sign ++ digitsAhead source (start + sign.length)) _ :=
    .recognize (signs.sequence run) spanned (by omega)
  refine recognized.tryMap (signedWord?_eq_some_iff.mpr ?_)
  rw [signedNumeral_append isSign isDigits]
  exact ⟨fits, rfl⟩

theorem exists_spelledAhead_of_takes (spanned : source.size < lastPosition)
    (takes : signedInteger.Takes #[] source start text value) :
    ∃ sign run, SpelledAhead source start sign run ∧ text = sign ++ run ∧
      (-(2 : Int) ^ 63 ≤ signedNumber sign run ∧ signedNumber sign run < 2 ^ 63) ∧
      value = .int (signedNumber sign run) := by
  obtain ⟨_, recognized, converted⟩ := takes.of_tryMap
  obtain ⟨_, inside, rfl⟩ := recognized.of_recognize spanned
  obtain ⟨sign, run, _, _, rfl, signs, digits, _⟩ := inside.of_sequence
  have isSign := isSign_of_takes_sign signs
  have isDigits := isDigits_of_takes_digits digits
  rw [signedWord?_eq_some_iff, signedNumeral_append isSign isDigits] at converted
  exact ⟨sign, run, ⟨isSign, signs.prefix_remaining, (digits.eq_takeWhile rfl).symm, isDigits.1⟩,
    rfl, converted⟩

theorem signedInteger_yields_success_iff (spanned : source.size < lastPosition) {width : Nat} :
    signedInteger.Yields #[] source start (.success width value) ↔
      ∃ sign run, SpelledAhead source start sign run ∧
        (-(2 : Int) ^ 63 ≤ signedNumber sign run ∧ signedNumber sign run < 2 ^ 63) ∧
        width = (sign ++ run).length ∧ value = .int (signedNumber sign run) := by
  constructor
  · intro yields
    obtain ⟨text, rfl, takes⟩ := lexical_signedInteger.exists_takes spanned yields
    obtain ⟨sign, run, spelled, rfl, fits, rfl⟩ := exists_spelledAhead_of_takes spanned takes
    exact ⟨sign, run, spelled, fits, rfl, rfl⟩
  · rintro ⟨sign, run, spelled, fits, rfl, rfl⟩
    exact (spelled.takes spanned fits).yields

theorem signedInteger_yields_failure_iff (spanned : source.size < lastPosition) :
    signedInteger.Yields #[] source start .failure ↔
      ∀ sign run, SpelledAhead source start sign run →
        ¬ (-(2 : Int) ^ 63 ≤ signedNumber sign run ∧ signedNumber sign run < 2 ^ 63) := by
  constructor
  · intro fails sign run spelled fits
    cases fails.unique (spelled.takes spanned fits).yields
  · intro outside
    obtain ⟨outcome, yields⟩ := lexical_signedInteger.exists_yields source start
    cases outcome with
    | failure => exact yields
    | success width value =>
        obtain ⟨sign, run, spelled, fits, _⟩ :=
          (signedInteger_yields_success_iff spanned).mp yields
        exact absurd fits (outside sign run spelled)

/-- A sign and digits whose number fits are read back from a source that consists of them. -/
theorem exists_parseComplete_signedInteger (isSign : IsSign sign) (digits : IsDigits run)
    (short : run.length ≤ 20)
    (fits : -(2 : Int) ^ 63 ≤ signedNumber sign run ∧ signedNumber sign run < 2 ^ 63)
    (rules : Rules Char Value) (state : ParserState Value) :
    ∃ last, signedInteger.parseComplete rules (sign ++ run).toArray state =
      some (some (.int (signedNumber sign run)), last) := by
  have spelled : SpelledAhead (sign ++ run).toArray 0 sign run := by
    refine ⟨isSign, List.prefix_append sign run, ?_, digits.1⟩
    rw [Nat.zero_add]
    exact digitsAhead_of_digits sign digits
  have size : (sign ++ run).toArray.size ≤ 21 := by
    rw [List.size_toArray, List.length_append]
    rcases isSign with rfl | rfl | rfl
    · rw [List.length_nil]
      omega
    all_goals
      rw [List.length_singleton]
      omega
  have spanned : (sign ++ run).toArray.size < lastPosition := by
    rw [lastPosition]
    omega
  have ample : (sign ++ run).toArray.size < Grammar.amplySteps := by
    rw [Grammar.amplySteps]
    omega
  obtain ⟨last, parsed⟩ := lexical_signedInteger.exists_parseComplete_eq
    (spelled.takes spanned fits).yields ample rules state
  refine ⟨last, ?_⟩
  rw [parsed, Outcome.complete?, List.size_toArray, if_pos rfl]

/-- A natural number in the range of signed words is read back from its digits, also behind a sign,
which negates it if it is a minus. -/
theorem exists_parseComplete_signedInteger_toDigits (isSign : IsSign sign) {magnitude : Nat}
    (word : magnitude < 2 ^ 64) {number : Int}
    (denoted : number = if sign = ['-'] then -(magnitude : Int) else magnitude)
    (fits : -(2 : Int) ^ 63 ≤ number ∧ number < 2 ^ 63)
    (rules : Rules Char Value) (state : ParserState Value) :
    ∃ last, signedInteger.parseComplete rules (sign ++ Nat.toDigits 10 magnitude).toArray state =
      some (some (.int number), last) := by
  have read : signedNumber sign (Nat.toDigits 10 magnitude) = number := by
    rw [signedNumber, Nat.ofDigitChars_ten_toDigits, denoted]
  have parsed := exists_parseComplete_signedInteger isSign (isDigits_toDigits magnitude)
    (length_toDigits_le word) (read.symm ▸ fits) rules state
  rwa [read] at parsed

theorem toList_toString_int (number : Int) :
    (toString number).toList =
      (if number < 0 then ['-'] else []) ++ Nat.toDigits 10 number.natAbs := by
  rw [Int.toString_eq_repr, Int.repr_eq_if]
  by_cases negative : number < 0
  · have magnitude : (-number).toNat = number.natAbs := by omega
    rw [if_neg (Int.not_le.mpr negative), if_pos negative, magnitude, String.toList_append,
      Nat.toList_repr]
    rfl
  · have magnitude : number.toNat = number.natAbs := by omega
    rw [if_pos (Int.not_lt.mp negative), if_neg negative, magnitude, Nat.toList_repr]
    rfl

/-- Without a sign ahead, and with a number below `2 ^ 63`, signed and unsigned integers are the
same. -/
theorem signedInteger_yields_unsigned (spanned : source.size < lastPosition)
    (unsigned : ∀ sign, IsSign sign → sign <+: remaining source start → sign = [])
    (below : Nat.ofDigitChars 10 (digitsAhead source start) 0 < 2 ^ 63) :
    signedInteger.Yields #[] source start
      (if digitsAhead source start ≠ [] ∧
          Nat.ofDigitChars 10 (digitsAhead source start) 0 < 2 ^ 64 then
        .success (digitsAhead source start).length
          (.int (Nat.ofDigitChars 10 (digitsAhead source start) 0))
      else .failure) := by
  by_cases absent : digitsAhead source start = []
  · rw [if_neg (fun present => present.1 absent), signedInteger_yields_failure_iff spanned]
    intro sign run spelled
    cases unsigned sign spelled.isSign spelled.begins
    exact absurd (spelled.digits_eq.symm.trans absent) spelled.digits_ne_nil
  · -- The range of signed words matters only at its upper end.
    rw [if_pos ⟨absent, by omega⟩, signedInteger_yields_success_iff spanned]
    have number : signedNumber [] (digitsAhead source start) =
        Nat.ofDigitChars 10 (digitsAhead source start) 0 := rfl
    refine ⟨[], digitsAhead source start, ⟨.inl rfl, List.nil_prefix, rfl, absent⟩, ?_, rfl, ?_⟩
    · rw [number]
      omega
    · rw [number]

/-- The grammar of signed integers takes a sign, if there is one, and all digits behind it, and
yields the number that they denote, if that is a signed 64-bit word.  It fails where there are no
digits behind the sign and where the number is out of range.  In particular it reads every signed
word back from its decimal text, also with a plus in front.  Where there is no sign and the number
is below `2 ^ 63`, it comes to the same outcome as the grammar of unsigned integers. -/
theorem signedInteger_exact (rules : Rules Char Value) (source : Array Char)
    (spanned : source.size < lastPosition) (state : ParserState Value) :
    (∀ start width value,
      (∃ final, signedInteger.Finishes rules source start state (.success width value, final)) ↔
        ∃ sign run, SpelledAhead source start sign run ∧
          (-(2 : Int) ^ 63 ≤ signedNumber sign run ∧ signedNumber sign run < 2 ^ 63) ∧
          width = (sign ++ run).length ∧ value = .int (signedNumber sign run)) ∧
    (∀ start,
      (∃ final, signedInteger.Finishes rules source start state (.failure, final)) ↔
        ∀ sign run, SpelledAhead source start sign run →
          ¬ (-(2 : Int) ^ 63 ≤ signedNumber sign run ∧ signedNumber sign run < 2 ^ 63)) ∧
    (∀ number : Int64,
      (∃ last, signedInteger.parseComplete rules (toString number).toList.toArray state =
        some (some (.int number.toInt), last)) ∧
      (0 ≤ number.toInt →
        ∃ last, signedInteger.parseComplete rules ('+' :: (toString number).toList).toArray state =
          some (some (.int number.toInt), last))) ∧
    ∀ start, (∀ sign, IsSign sign → sign <+: remaining source start → sign = []) →
      Nat.ofDigitChars 10 (digitsAhead source start) 0 < 2 ^ 63 → ∀ outcome,
        (∃ final, signedInteger.Finishes rules source start state (outcome, final)) ↔
          ∃ final, unsignedInteger.Finishes rules source start state (outcome, final) := by
  refine ⟨fun start width value => ?_, fun start => ?_, fun number => ?_,
    fun start unsigned below outcome => ?_⟩
  · rw [lexical_signedInteger.finishes_iff_yields, signedInteger_yields_success_iff spanned]
  · rw [lexical_signedInteger.finishes_iff_yields, signedInteger_yields_failure_iff spanned]
  · have lower := number.le_toInt
    have upper := number.toInt_lt
    have word : number.toInt.natAbs < 2 ^ 64 := by omega
    have written : (toString number).toList = _ := toList_toString_int number.toInt
    rw [written]
    refine ⟨?_, fun natural => ?_⟩
    · by_cases negative : number.toInt < 0
      · rw [if_pos negative]
        refine exists_parseComplete_signedInteger_toDigits (.inr (.inr rfl)) word ?_
          ⟨lower, upper⟩ rules state
        rw [if_pos rfl]
        omega
      · rw [if_neg negative]
        refine exists_parseComplete_signedInteger_toDigits (.inl rfl) word ?_
          ⟨lower, upper⟩ rules state
        rw [if_neg (by decide)]
        omega
    · rw [if_neg (Int.not_lt.mpr natural)]
      refine exists_parseComplete_signedInteger_toDigits (.inr (.inl rfl)) word ?_
        ⟨lower, upper⟩ rules state
      rw [if_neg (by decide)]
      omega
  · rw [lexical_signedInteger.finishes_iff_yields, lexical_unsignedInteger.finishes_iff_yields]
    have signed := signedInteger_yields_unsigned spanned unsigned below
    have other := unsignedInteger_yields source start
    constructor
    · intro yields
      rw [yields.unique signed]
      exact other
    · intro yields
      rw [yields.unique other]
      exact signed

/-- A literal between letters, one with a plus, and one without a sign. -/
theorem signedInteger_exact_twelve :
    (∃ final, signedInteger.Finishes #[] #['a', '-', '1', '2', 'b'] 1 {}
      (.success 3 (.int (-12)), final)) ∧
    (∃ last, signedInteger.parseComplete #[] ('+' :: (toString (7 : Int64)).toList).toArray {} =
      some (some (.int 7), last)) ∧
    ∃ final, unsignedInteger.Finishes #[] #['a', '-', '1', '2', 'b'] 2 {}
      (.success 2 (.int 12), final) := by
  have spanned : #['a', '-', '1', '2', 'b'].size < lastPosition := by decide
  obtain ⟨successes, -, texts, agreement⟩ :=
    signedInteger_exact #[] #['a', '-', '1', '2', 'b'] spanned {}
  refine ⟨(successes 1 3 _).mpr ⟨['-'], ['1', '2'], ⟨.inr (.inr rfl), ⟨['1', '2', 'b'], rfl⟩, rfl,
    List.cons_ne_nil _ _⟩, by decide, rfl, rfl⟩, (texts 7).2 (by decide), ?_⟩
  have unsigned : ∀ sign, IsSign sign → sign <+: ['1', '2', 'b'] → sign = [] := by
    rintro _ (rfl | rfl | rfl) begins
    · rfl
    all_goals
      cases (List.cons_prefix_cons.mp begins).1
  refine (agreement 2 unsigned (by decide) _).mp ((successes 2 2 _).mpr ?_)
  exact ⟨[], ['1', '2'], ⟨.inl rfl, List.nil_prefix, rfl, List.cons_ne_nil _ _⟩, by decide, rfl, rfl⟩

end Text

end RecursiveDescent
