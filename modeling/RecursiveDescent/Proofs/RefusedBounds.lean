import RecursiveDescent.Proofs.IntegerLiterals
import RecursiveDescent.Proofs.ObtainedBounds

/-!
# What a refusal of bounds says

Bounds that contradict each other are refused with an error that reports two numbers, and the
message of the error states one of three faults of them.  Signed numbers are reported as they were
given, and the stated fault is one they have.  An unsigned number above a limit is reported as the
limit, so of two such numbers the message says that the limit exceeds itself.

The main statement is that this is the only case in which a message states a fault that the
reported numbers do not have.
-/

namespace RecursiveDescent

/-- What a message can say is wrong with the two numbers of bounds. -/
inductive BoundsFault where
  | negativeMinimum
  | maximumBelowMark
  | minimumExceedsMaximum
  deriving DecidableEq

namespace BoundsFault

variable {fault other : BoundsFault} {minimum maximum : Int}

/-- The words that state the fault of two written numbers. -/
def phrase (minimum maximum : String) : BoundsFault → String
  | .negativeMinimum => "is negative"
  | .maximumBelowMark => "is below -1"
  | .minimumExceedsMaximum => "minimum " ++ minimum ++ " exceeds maximum " ++ maximum

/-- The message that states the fault of two written numbers. -/
def sentence (minimum maximum : String) : BoundsFault → String
  | .negativeMinimum =>
    "Invalid repeat bounds: minimum " ++ minimum ++ " is negative (maximum " ++ maximum ++ ")"
  | .maximumBelowMark =>
    "Invalid repeat bounds: maximum " ++ maximum ++ " is below -1 (unbounded)"
  | .minimumExceedsMaximum =>
    "Invalid repeat bounds: minimum " ++ minimum ++ " exceeds maximum " ++ maximum

/-- The fault that the message about two numbers states: the last one if neither of the others
applies. -/
def stated (minimum maximum : Int) : BoundsFault :=
  if minimum < 0 then
    .negativeMinimum
  else if maximum < -1 then
    .maximumBelowMark
  else
    .minimumExceedsMaximum

/-- A character that only the sentence about the fault has. -/
def mark : BoundsFault → Char
  | .negativeMinimum => 'g'
  | .maximumBelowMark => 'w'
  | .minimumExceedsMaximum => 'c'

/-- The phrase occurs in the text. -/
def Says (text phrase : String) : Prop :=
  phrase.toList <:+: text.toList

/-- The message of the error states the fault of these numbers. -/
def StatedBy (fault : BoundsFault) (error : MisuseError) (minimum maximum : Int) : Prop :=
  Says error.message (fault.phrase (toString minimum) (toString maximum))

theorem message_eq_sentence (minimum maximum : Int) :
    (MisuseError.invalidRepeatBounds minimum maximum).message =
      (stated minimum maximum).sentence (toString minimum) (toString maximum) := by
  by_cases negative : minimum < 0
  · simp only [MisuseError.message, stated, negative, if_true]
    rfl
  · by_cases below : maximum < -1
    · simp only [MisuseError.message, stated, negative, below, if_true, if_false]
      rfl
    · simp only [MisuseError.message, stated, negative, below, if_false]
      rfl

theorem says_of_eq {text front phrase behind : String} (eq : text = front ++ phrase ++ behind) :
    Says text phrase := by
  rw [eq, Says, String.toList_append, String.toList_append]
  exact List.infix_append _ _ _

theorem says_sentence (fault : BoundsFault) (minimum maximum : String) :
    Says (fault.sentence minimum maximum) (fault.phrase minimum maximum) := by
  -- The phrase is a part of one literal piece of the sentence, which has to be cut for that.
  cases fault with
  | negativeMinimum =>
      have middle : " is negative (maximum " = " " ++ "is negative" ++ " (maximum " := by decide
      have written : sentence minimum maximum .negativeMinimum =
          "Invalid repeat bounds: minimum " ++ minimum ++ " is negative (maximum " ++ maximum ++
            ")" := rfl
      have parts : sentence minimum maximum .negativeMinimum =
          "Invalid repeat bounds: minimum " ++ minimum ++ " " ++ "is negative" ++
            (" (maximum " ++ maximum ++ ")") := by
        simp only [written, middle, String.append_assoc]
      exact says_of_eq parts
  | maximumBelowMark =>
      have middle : " is below -1 (unbounded)" = " " ++ "is below -1" ++ " (unbounded)" := by decide
      have written : sentence minimum maximum .maximumBelowMark =
          "Invalid repeat bounds: maximum " ++ maximum ++ " is below -1 (unbounded)" := rfl
      have parts : sentence minimum maximum .maximumBelowMark =
          "Invalid repeat bounds: maximum " ++ maximum ++ " " ++ "is below -1" ++
            " (unbounded)" := by
        simp only [written, middle, String.append_assoc]
      exact says_of_eq parts
  | minimumExceedsMaximum =>
      have start : "Invalid repeat bounds: minimum " = "Invalid repeat bounds: " ++ "minimum " := by
        decide
      have written : sentence minimum maximum .minimumExceedsMaximum =
          "Invalid repeat bounds: minimum " ++ minimum ++ " exceeds maximum " ++ maximum := rfl
      have parts : sentence minimum maximum .minimumExceedsMaximum =
          "Invalid repeat bounds: " ++
            ("minimum " ++ minimum ++ " exceeds maximum " ++ maximum) ++ "" := by
        simp only [written, start, String.append_assoc, String.append_empty]
      exact says_of_eq parts

theorem not_mem_toString_int {number : Int} {character : Char}
    (notDigit : Decimal.isDigit character = false) (notMinus : character ≠ '-') :
    character ∉ (toString number).toList := by
  rw [Text.toList_toString_int, List.mem_append, not_or]
  refine ⟨?_, (Text.isDigits_toDigits number.natAbs).not_mem notDigit⟩
  split <;> simp [notMinus]

theorem mark_mem_phrase (fault : BoundsFault) (minimum maximum : String) :
    fault.mark ∈ (fault.phrase minimum maximum).toList := by
  cases fault with
  | negativeMinimum => exact (by decide : 'g' ∈ "is negative".toList)
  | maximumBelowMark => exact (by decide : 'w' ∈ "is below -1".toList)
  | minimumExceedsMaximum =>
      have found : 'c' ∈ " exceeds maximum ".toList := by decide
      simp only [mark, phrase, String.toList_append, List.mem_append, found, or_true, true_or]

theorem not_mem_append {character : Char} {first second : String}
    (absent : character ∉ first.toList) (absentToo : character ∉ second.toList) :
    character ∉ (first ++ second).toList := by
  rw [String.toList_append, List.mem_append, not_or]
  exact ⟨absent, absentToo⟩

/-- The mark of a fault tells its sentence from those of the other faults, whatever numbers without
the mark these are about. -/
theorem mark_not_mem_sentence {minimum maximum : String} (different : fault ≠ other)
    (absent : fault.mark ∉ minimum.toList) (absentToo : fault.mark ∉ maximum.toList) :
    fault.mark ∉ (other.sentence minimum maximum).toList := by
  cases other with
  | negativeMinimum =>
      have words : fault.mark ∉ "Invalid repeat bounds: minimum ".toList ∧
          fault.mark ∉ " is negative (maximum ".toList ∧ fault.mark ∉ ")".toList := by
        revert different
        cases fault <;> decide
      exact not_mem_append (not_mem_append (not_mem_append (not_mem_append words.1 absent)
        words.2.1) absentToo) words.2.2
  | maximumBelowMark =>
      have words : fault.mark ∉ "Invalid repeat bounds: maximum ".toList ∧
          fault.mark ∉ " is below -1 (unbounded)".toList := by
        revert different
        cases fault <;> decide
      exact not_mem_append (not_mem_append words.1 absentToo) words.2
  | minimumExceedsMaximum =>
      have words : fault.mark ∉ "Invalid repeat bounds: minimum ".toList ∧
          fault.mark ∉ " exceeds maximum ".toList := by
        revert different
        cases fault <;> decide
      exact not_mem_append (not_mem_append (not_mem_append words.1 absent) words.2) absentToo

/-- A message states one fault, and no other. -/
theorem statedBy_iff :
    fault.StatedBy (.invalidRepeatBounds minimum maximum) minimum maximum ↔
      fault = stated minimum maximum := by
  rw [StatedBy, message_eq_sentence]
  constructor
  · intro isInfix
    have found := isInfix.subset (mark_mem_phrase fault _ _)
    have absent (number : Int) : fault.mark ∉ (toString number).toList := by
      cases fault <;> exact not_mem_toString_int (by decide) (by decide)
    exact Decidable.byContradiction fun different =>
      mark_not_mem_sentence different (absent minimum) (absent maximum) found
  · rintro rfl
    exact says_sentence _ _ _

theorem negativeMinimum_statedBy_iff :
    negativeMinimum.StatedBy (.invalidRepeatBounds minimum maximum) minimum maximum ↔
      minimum < 0 := by
  rw [statedBy_iff, stated]
  grind

theorem maximumBelowMark_statedBy_iff :
    maximumBelowMark.StatedBy (.invalidRepeatBounds minimum maximum) minimum maximum ↔
      0 ≤ minimum ∧ maximum < -1 := by
  rw [statedBy_iff, stated]
  grind

theorem minimumExceedsMaximum_statedBy_iff :
    minimumExceedsMaximum.StatedBy (.invalidRepeatBounds minimum maximum) minimum maximum ↔
      0 ≤ minimum ∧ -1 ≤ maximum := by
  rw [statedBy_iff, stated]
  grind

end BoundsFault

namespace RepeatBounds

/-- The numbers that an error about a request reports. -/
inductive Reports : Request → Int → Int → Prop where
  | unsigned (minimum limit : Nat) :
      Reports (.unsigned minimum (some limit)) (reported minimum) (reported limit)
  | signed (minimum maximum : Int) : Reports (.signed minimum maximum) minimum maximum

/-- The bounds of a request, or of a repetition for which they are requested, are refused with this
error. -/
inductive Refused : Request → MisuseError → Prop where
  | bounds {request : Request} {error : MisuseError} (refused : request.bounds = .error error) :
      Refused request error
  | repetition {ε : Type} {item : Expression ε} {collector : ValueCollector Value}
      {request : Request} {scope : Scope ε} {numbering : Numbering ε}
      {resolved : Grammar ε Value × Numbering ε} {error : MisuseError}
      (inside : item.resolve scope numbering = .ok resolved)
      (refused : (Expression.repeated item collector request).resolve scope numbering =
        .error (.misuse error)) :
      Refused request error

/-- A request of unsigned numbers whose maximum, and with it the minimum that exceeds it, is
reported as the limit. -/
def Request.ReportedAsLimit : Request → Prop
  | .unsigned _ (some limit) => reportLimit ≤ limit
  | _ => False

variable {request : Request} {error : MisuseError}

theorem Refused.bounds_eq (refused : Refused request error) : request.bounds = .error error := by
  cases refused with
  | bounds refused => exact refused
  | repetition inside refused =>
      rw [Expression.resolve, inside] at refused
      cases described : request.bounds with
      | ok bounds =>
          simp [described, Bind.bind, Except.bind, Pure.pure, Except.pure] at refused
      | error error =>
          simp only [described, Bind.bind, Except.bind, throw, throwThe, MonadExceptOf.throw,
            Except.error.injEq, ResolutionError.misuse.injEq] at refused
          rw [refused]

theorem reported_lt_reported_iff {limit minimum : Nat} (exceeded : limit < minimum) :
    reported limit < reported minimum ↔ limit < reportLimit := by
  simp only [reported, Int.ofNat_eq_natCast]
  omega

theorem exists_reports_unsigned {minimum : Nat} {maximum : Option Nat}
    (refused : ofUnsigned minimum maximum = .error error) :
    ∃ limit, maximum = some limit ∧ limit < minimum ∧
      error = .invalidRepeatBounds (reported minimum) (reported limit) := by
  cases maximum with
  | none => cases refused
  | some limit =>
      by_cases order : minimum ≤ limit
      · simp [ofUnsigned, order] at refused
      · simp only [ofUnsigned, order, dite_false, Except.error.injEq] at refused
        exact ⟨limit, rfl, Nat.not_le.mp order, refused.symm⟩

theorem not_inOrder_of_refused {minimum maximum : Int}
    (refused : ofSigned minimum maximum = .error error) : ¬ SignedInOrder minimum maximum := by
  intro order
  obtain ⟨bounds, accepted⟩ := exists_ofSigned_iff.mpr order
  rw [accepted] at refused
  cases refused

/-- An error about signed numbers reports them as they are, and one about unsigned numbers reports
natural numbers in disorder or, twice, the limit. -/
theorem Refused.exists_reports (refused : Refused request error) :
    ∃ minimum maximum, Reports request minimum maximum ∧
      error = .invalidRepeatBounds minimum maximum ∧
      (0 ≤ minimum ∧ -1 ≤ maximum → (maximum < minimum ↔ ¬ request.ReportedAsLimit)) ∧
      (request.ReportedAsLimit → 0 ≤ minimum ∧ -1 ≤ maximum) := by
  have described := refused.bounds_eq
  cases request with
  | unsigned minimum maximum =>
      obtain ⟨limit, rfl, exceeded, rfl⟩ := exists_reports_unsigned described
      refine ⟨_, _, .unsigned minimum limit, rfl, fun _ => ?_, fun _ => ?_⟩
      · rw [Request.ReportedAsLimit, Nat.not_le, reported_lt_reported_iff exceeded]
      · have natural (count : Nat) : 0 ≤ reported count := Int.natCast_nonneg _
        have limitNatural := natural limit
        exact ⟨natural minimum, by omega⟩
  | signed minimum maximum =>
      have disorder := not_inOrder_of_refused described
      rw [Request.bounds, ofSigned_of_not_inOrder disorder] at described
      cases described
      refine ⟨_, _, .signed minimum maximum, rfl, fun natural => iff_of_true ?_ id, False.elim⟩
      rw [SignedInOrder] at disorder
      omega
  | atLeast minimum => cases described
  | exactly count => cases described

/-- An error about bounds reports the numbers of the request, and its message states exactly one
fault.  It calls only a reported minimum below zero negative, and only a reported maximum below
`-1` too small.  That the minimum exceeds the maximum is true of the reported numbers unless they
are those of an unsigned request that are both reported as the limit, and then it is what the
message states. -/
theorem refusals_state_true_reasons (refused : Refused request error) :
    ∃ minimum maximum, Reports request minimum maximum ∧
      error = .invalidRepeatBounds minimum maximum ∧
      (∃ fault : BoundsFault, fault.StatedBy error minimum maximum ∧
        ∀ other : BoundsFault, other.StatedBy error minimum maximum → other = fault) ∧
      (BoundsFault.negativeMinimum.StatedBy error minimum maximum → minimum < 0) ∧
      (BoundsFault.maximumBelowMark.StatedBy error minimum maximum → maximum < -1) ∧
      (BoundsFault.minimumExceedsMaximum.StatedBy error minimum maximum →
        (maximum < minimum ↔ ¬ request.ReportedAsLimit)) ∧
      (request.ReportedAsLimit →
        BoundsFault.minimumExceedsMaximum.StatedBy error minimum maximum) := by
  obtain ⟨minimum, maximum, reports, rfl, exceeds, limits⟩ := refused.exists_reports
  refine ⟨minimum, maximum, reports, rfl, ⟨BoundsFault.stated minimum maximum, ?_⟩, ?_, ?_, ?_, ?_⟩
  · exact ⟨BoundsFault.statedBy_iff.mpr rfl, fun _ => BoundsFault.statedBy_iff.mp⟩
  · exact BoundsFault.negativeMinimum_statedBy_iff.mp
  · exact fun states => (BoundsFault.maximumBelowMark_statedBy_iff.mp states).2
  · exact fun states => exceeds (BoundsFault.minimumExceedsMaximum_statedBy_iff.mp states)
  · exact fun limit => BoundsFault.minimumExceedsMaximum_statedBy_iff.mpr (limits limit)

/-- The message about a repetition of at least `-1` matches states one fault, and the one about the
two largest unsigned numbers states that the minimum exceeds the maximum. -/
theorem refusals_state_true_reasons_extremes :
    Refused (.signed (-1) 3) (.invalidRepeatBounds (-1) 3) ∧
    (∃ fault : BoundsFault, fault.StatedBy (.invalidRepeatBounds (-1) 3) (-1) 3 ∧
      ∀ other : BoundsFault, other.StatedBy (.invalidRepeatBounds (-1) 3) (-1) 3 →
        other = fault) ∧
    Refused (.unsigned 18446744073709551615 (some 18446744073709551614))
      (.invalidRepeatBounds reportLimit reportLimit) ∧
    BoundsFault.minimumExceedsMaximum.StatedBy (.invalidRepeatBounds reportLimit reportLimit)
      reportLimit reportLimit := by
  have unnatural : Refused (.signed (-1) 3) (.invalidRepeatBounds (-1) 3) := by
    let item : Expression Char := .basic (.succeed .unit)
    let collector : ValueCollector Value := Collector.ofFold .unit (fun _ value => value) id
    have inside : item.resolve [] {} = .ok (.succeed .unit, {}) := rfl
    have refused : (item.repeated collector (.signed (-1) 3)).resolve [] {} =
        .error (.misuse (.invalidRepeatBounds (-1) 3)) := rfl
    exact .repetition inside refused
  have largest : Refused (.unsigned 18446744073709551615 (some 18446744073709551614))
      (.invalidRepeatBounds reportLimit reportLimit) := .bounds rfl
  obtain ⟨_, _, -, same, oneFault, -⟩ := refusals_state_true_reasons unnatural
  obtain ⟨_, _, -, sameToo, -, -, -, -, exceeds⟩ := refusals_state_true_reasons largest
  cases same
  cases sameToo
  refine ⟨unnatural, oneFault, largest, exceeds ?_⟩
  rw [Request.ReportedAsLimit]
  decide

/-- Two numbers that are both reported as the limit are refused with a message that says that the
limit exceeds itself. -/
theorem limit_exceeds_itself :
    ofUnsigned 9223372036854775808 (some 9223372036854775807) =
        .error (.invalidRepeatBounds 9223372036854775807 9223372036854775807) ∧
      (MisuseError.invalidRepeatBounds 9223372036854775807 9223372036854775807).message =
        "Invalid repeat bounds: minimum 9223372036854775807 exceeds maximum 9223372036854775807" ∧
      BoundsFault.minimumExceedsMaximum.StatedBy
        (.invalidRepeatBounds 9223372036854775807 9223372036854775807)
        9223372036854775807 9223372036854775807 ∧
      ¬ (9223372036854775807 : Int) < 9223372036854775807 :=
  ⟨rfl, by decide +kernel, BoundsFault.minimumExceedsMaximum_statedBy_iff.mpr (by decide),
    by decide⟩

end RepeatBounds

end RecursiveDescent
