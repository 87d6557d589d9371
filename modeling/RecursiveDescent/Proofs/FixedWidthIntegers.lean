import RecursiveDescent.Binary.Grammar
import RecursiveDescent.Proofs.FinishedRuns
import RecursiveDescent.Proofs.Takes
import Mathlib.Data.List.Induction

/-!
# Integers of fixed width and their bytes

A number is written to base 256, in as many bytes as its type takes; a negative number is written
as the bit pattern that it has in two's complement.  Reading is the inverse of writing: there is
one text for each number of a type, and every text of the right length is the text of a number.

The grammar of integers therefore matches the texts of the numbers of its type and nothing else,
wherever in a source they stand.  It fails only where too few bytes are left or where the number
is not accepted.
-/

namespace RecursiveDescent

namespace Binary

/-- A number to base 256, the most significant byte first, without the bytes that exceed the
width. -/
def bytesOfNat : (width number : Nat) → List UInt8
  | 0, _ => []
  | width + 1, number => bytesOfNat width (number / 256) ++ [UInt8.ofNat number]

/-- Bytes in the given order, when they are given with the most significant one first, and the
other way round. -/
def ByteOrder.arranged : ByteOrder → List UInt8 → List UInt8
  | .big, bytes => bytes
  | .little, bytes => bytes.reverse

namespace FixedInteger

/-- The numbers of a type: as many as it has bit patterns, half of them negative if the type is
signed. -/
def Holds (type : FixedInteger) (number : Int) : Prop :=
  if type.isSigned then
    -(type.patterns : Int) ≤ 2 * number ∧ 2 * number < type.patterns
  else
    0 ≤ number ∧ number < type.patterns

def pattern (type : FixedInteger) (number : Int) : Nat :=
  (number % type.patterns).toNat

/-- The bytes that a number is written as. -/
def encode (type : FixedInteger) (order : ByteOrder) (number : Int) : List UInt8 :=
  order.arranged (bytesOfNat type.width (type.pattern number))

end FixedInteger

/-! ### Numbers to base 256 -/

@[simp]
theorem length_bytesOfNat (width number : Nat) : (bytesOfNat width number).length = width := by
  induction width generalizing number with
  | zero => rfl
  | succ width ih => simp [bytesOfNat, ih]

theorem unsignedOfBytes_append_singleton (bytes : List UInt8) (byte : UInt8) :
    unsignedOfBytes (bytes ++ [byte]) = 256 * unsignedOfBytes bytes + byte.toNat := by
  simp [unsignedOfBytes]

theorem unsignedOfBytes_lt (bytes : List UInt8) : unsignedOfBytes bytes < 256 ^ bytes.length := by
  induction bytes using List.reverseRecOn with
  | nil => decide
  | append_singleton bytes byte ih =>
      have bounded := byte.toNat_lt
      rw [unsignedOfBytes_append_singleton, List.length_append, List.length_singleton, Nat.pow_succ]
      omega

/-- Bytes denote the number that they were made of, up to what exceeds their width. -/
theorem unsignedOfBytes_bytesOfNat (width number : Nat) :
    unsignedOfBytes (bytesOfNat width number) = number % 256 ^ width := by
  induction width generalizing number with
  | zero =>
      rw [Nat.pow_zero, Nat.mod_one]
      rfl
  | succ width ih =>
      have last : (UInt8.ofNat number).toNat = number % 256 := by simp
      rw [bytesOfNat, unsignedOfBytes_append_singleton, ih, last, Nat.pow_succ',
        Nat.mod_mul]
      omega

theorem bytesOfNat_unsignedOfBytes (bytes : List UInt8) :
    bytesOfNat bytes.length (unsignedOfBytes bytes) = bytes := by
  induction bytes using List.reverseRecOn with
  | nil => rfl
  | append_singleton bytes byte ih =>
      have bounded := byte.toNat_lt
      have others : (256 * unsignedOfBytes bytes + byte.toNat) / 256 = unsignedOfBytes bytes := by
        omega
      have last : UInt8.ofNat (256 * unsignedOfBytes bytes + byte.toNat) = byte := by
        apply UInt8.toNat_inj.mp
        rw [UInt8.toNat_ofNat']
        omega
      rw [List.length_append, List.length_singleton, unsignedOfBytes_append_singleton, bytesOfNat,
        others, last, ih]

/-! ### Byte orders -/

namespace ByteOrder

@[simp]
theorem length_arranged (order : ByteOrder) (bytes : List UInt8) :
    (order.arranged bytes).length = bytes.length := by
  cases order with
  | big => rfl
  | little => exact List.length_reverse

@[simp]
theorem arranged_arranged (order : ByteOrder) (bytes : List UInt8) :
    order.arranged (order.arranged bytes) = bytes := by
  cases order with
  | big => rfl
  | little => exact List.reverse_reverse bytes

end ByteOrder

/-! ### Two's complement -/

namespace FixedInteger

variable {type : FixedInteger} {order : ByteOrder} {number : Int} {bytes : List UInt8}

instance (type : FixedInteger) (number : Int) : Decidable (type.Holds number) :=
  inferInstanceAs (Decidable (if type.isSigned then _ ∧ _ else _ ∧ _))

theorem holds_unsigned_iff (unsigned : type.isSigned = false) :
    type.Holds number ↔ 0 ≤ number ∧ number < type.patterns := by
  simp [Holds, unsigned]

theorem patterns_pos (type : FixedInteger) : 0 < type.patterns :=
  Nat.pow_pos (by decide)

theorem pattern_lt (type : FixedInteger) (number : Int) : type.pattern number < type.patterns := by
  have positive := type.patterns_pos
  have bounded := Int.emod_lt_of_pos number (Int.natCast_pos.mpr positive)
  rw [pattern]
  omega

/-- A number of the type is congruent to its bit pattern, and above it by nothing or below it by
the number of patterns. -/
theorem pattern_cases (holds : type.Holds number) :
    0 ≤ number ∧ (type.pattern number : Int) = number ∨
      type.isSigned ∧ number < 0 ∧ (type.pattern number : Int) = number + type.patterns := by
  have positive := type.patterns_pos
  by_cases natural : 0 ≤ number
  · left
    have below : number < type.patterns := by
      unfold Holds at holds
      split at holds <;> omega
    refine ⟨natural, ?_⟩
    rw [pattern, Int.emod_eq_of_lt natural below]
    omega
  · right
    have signed : type.isSigned := by
      unfold Holds at holds
      split at holds
      · assumption
      · omega
    rw [Holds, if_pos signed] at holds
    have shifted : number % type.patterns = number + type.patterns := by
      rw [← Int.add_emod_right, Int.emod_eq_of_lt (by omega) (by omega)]
    refine ⟨signed, by omega, ?_⟩
    rw [pattern, shifted]
    omega

theorem ofPattern_pattern (holds : type.Holds number) :
    type.ofPattern (type.pattern number) = number := by
  have bounded := type.pattern_lt number
  rcases pattern_cases holds with ⟨natural, same⟩ | ⟨signed, negative, shifted⟩
  · have lower : ¬ (type.isSigned ∧ type.patterns ≤ 2 * type.pattern number) := by
      rintro ⟨signed, upper⟩
      rw [Holds, if_pos signed] at holds
      omega
    rw [ofPattern, if_neg lower]
    exact same
  · rw [Holds, if_pos signed] at holds
    have upper : type.patterns ≤ 2 * type.pattern number := by omega
    rw [ofPattern, if_pos ⟨signed, upper⟩, Int.ofNat_eq_natCast, Int.ofNat_eq_natCast]
    omega

theorem holds_ofPattern {pattern : Nat} (bounded : pattern < type.patterns) :
    type.Holds (type.ofPattern pattern) := by
  unfold Holds ofPattern
  by_cases signed : type.isSigned
  · rw [if_pos signed]
    split
    · rw [Int.ofNat_eq_natCast, Int.ofNat_eq_natCast]
      omega
    · rename_i lower
      have below : 2 * pattern < type.patterns := Nat.lt_of_not_le fun upper => lower ⟨signed, upper⟩
      rw [Int.ofNat_eq_natCast]
      omega
  · rw [if_neg signed, if_neg fun upper => signed upper.1, Int.ofNat_eq_natCast]
    omega

example : FixedInteger.int16.Holds (-32768) ∧ ¬ FixedInteger.int16.Holds 32768 := by decide

theorem pattern_ofPattern {pattern : Nat} (bounded : pattern < type.patterns) :
    type.pattern (type.ofPattern pattern) = pattern := by
  have modulo : type.ofPattern pattern % type.patterns = pattern := by
    unfold ofPattern
    split
    · rw [Int.ofNat_eq_natCast, Int.ofNat_eq_natCast, Int.sub_emod_right]
      exact Int.emod_eq_of_lt (by omega) (by omega)
    · rw [Int.ofNat_eq_natCast]
      exact Int.emod_eq_of_lt (by omega) (by omega)
  rw [FixedInteger.pattern, modulo, Int.toNat_natCast]

/-! ### Writing and reading -/

@[simp]
theorem length_encode (type : FixedInteger) (order : ByteOrder) (number : Int) :
    (type.encode order number).length = type.width := by
  simp [encode]

theorem decode_eq (type : FixedInteger) (order : ByteOrder) (bytes : List UInt8) :
    type.decode order bytes =
      if bytes.length = type.width then
        some (type.ofPattern (unsignedOfBytes (order.arranged bytes)))
      else none := by
  cases order <;> rfl

theorem decode_encode (holds : type.Holds number) :
    type.decode order (type.encode order number) = some number := by
  have modulo : type.pattern number % 256 ^ type.width = type.pattern number :=
    Nat.mod_eq_of_lt (type.pattern_lt number)
  rw [decode_eq, if_pos (type.length_encode order number), encode, ByteOrder.arranged_arranged,
    unsignedOfBytes_bytesOfNat, modulo, ofPattern_pattern holds]

/-- Bytes are read as a number of the type exactly when the number is written as these bytes. -/
theorem decode_eq_some_iff :
    type.decode order bytes = some number ↔
      type.Holds number ∧ bytes = type.encode order number := by
  constructor
  · intro decoded
    rw [decode_eq] at decoded
    split at decoded
    · rename_i length
      have bounded : unsignedOfBytes (order.arranged bytes) < type.patterns := by
        have below := unsignedOfBytes_lt (order.arranged bytes)
        rwa [ByteOrder.length_arranged, length] at below
      have recovered : bytesOfNat type.width (unsignedOfBytes (order.arranged bytes)) =
          order.arranged bytes := by
        have written := bytesOfNat_unsignedOfBytes (order.arranged bytes)
        rwa [ByteOrder.length_arranged, length] at written
      obtain rfl := Option.some.inj decoded
      refine ⟨holds_ofPattern bounded, ?_⟩
      rw [encode, pattern_ofPattern bounded, recovered, ByteOrder.arranged_arranged]
    · cases decoded
  · rintro ⟨holds, rfl⟩
    exact decode_encode holds

theorem decode_eq_none_iff : type.decode order bytes = none ↔ bytes.length ≠ type.width := by
  rw [decode_eq]
  split
  next length => simp [length]
  next length => simp [length]

theorem exists_encoded (order : ByteOrder) (length : bytes.length = type.width) :
    ∃ number, type.Holds number ∧ bytes = type.encode order number := by
  cases decoded : type.decode order bytes with
  | none => exact absurd length (decode_eq_none_iff.mp decoded)
  | some number => exact ⟨number, decode_eq_some_iff.mp decoded⟩

end FixedInteger

/-! ### The grammar of integers -/

section Matching

variable {type : FixedInteger} {order : ByteOrder} {accepts : Value → Bool} {number : Int}
  {rules : Rules UInt8 Value} {source : Array UInt8} {start : Nat} {text rest : List UInt8}
  {value : Value}

theorem take_remaining_eq_extract (source : Array UInt8) (start width : Nat) :
    (remaining source start).take width = (source.extract start (start + width)).toList := by
  simp [remaining, List.extract_eq_take_drop]

/-- The outcome of the grammar of integers that are accepted. -/
def integerOutcome (type : FixedInteger) (order : ByteOrder) (accepts : Value → Bool)
    (source : Array UInt8) (start : Nat) : Outcome Value :=
  Outcome.ofFixedWidth type.width
    (fun bytes => ((type.decode order bytes).map Value.int).filter accepts) source start

theorem form_integerWhere (type : FixedInteger) (order : ByteOrder) (accepts : Value → Bool)
    (rules : Rules UInt8 Value) (source : Array UInt8) :
    (integerWhere type order accepts).form rules source =
      .settled (integerOutcome type order accepts source) :=
  rfl

/-- The grammar of integers always comes to its outcome, and leaves the state alone. -/
theorem integerWhere_finishes_iff {state final : ParserState Value} {outcome : Outcome Value} :
    (integerWhere type order accepts).Finishes rules source start state (outcome, final) ↔
      outcome = integerOutcome type order accepts source start ∧ final = state :=
  Grammar.finishes_settled_iff (form_integerWhere type order accepts rules source)

theorem integerOutcome_of_short (spanned : source.size < lastPosition)
    (short : source.size < start + type.width) :
    integerOutcome type order accepts source start = .failure := by
  rw [integerOutcome, Outcome.ofFixedWidth, window_eq source spanned,
    if_neg (Nat.not_le_of_lt short)]
  rfl

theorem integerOutcome_of_encoded (spanned : source.size < lastPosition)
    (inside : start ≤ source.size) (holds : type.Holds number)
    (begins : type.encode order number <+: remaining source start) :
    integerOutcome type order accepts source start =
      if accepts (.int number) then .success type.width (.int number) else .failure := by
  have found : window source start type.width = some (type.encode order number) :=
    (window_eq_some_iff source spanned start type.width _).mpr
      ⟨inside, type.length_encode order number, begins⟩
  rw [integerOutcome, Outcome.ofFixedWidth, found, Option.bind_some,
    FixedInteger.decode_encode holds, Option.map_some]
  cases accepted : accepts (.int number) <;> simp [Option.filter, accepted]

theorem exists_number_ahead (spanned : source.size < lastPosition)
    (enough : start + type.width ≤ source.size) (order : ByteOrder) (accepts : Value → Bool) :
    ∃ number, type.Holds number ∧
      (remaining source start).take type.width = type.encode order number ∧
      integerOutcome type order accepts source start =
        if accepts (.int number) then .success type.width (.int number) else .failure := by
  have length : ((remaining source start).take type.width).length = type.width := by
    rw [List.length_take, length_remaining]
    omega
  obtain ⟨number, holds, encoded⟩ := FixedInteger.exists_encoded order length
  have begins : type.encode order number <+: remaining source start := by
    rw [← encoded]
    exact List.take_prefix _ _
  exact ⟨number, holds, encoded,
    integerOutcome_of_encoded spanned (by omega) holds begins⟩

theorem integerOutcome_eq_success_iff (spanned : source.size < lastPosition) {width : Nat} :
    integerOutcome type order accepts source start = .success width value ↔
      start + type.width ≤ source.size ∧ width = type.width ∧
        ∃ number, type.Holds number ∧
          (remaining source start).take type.width = type.encode order number ∧
          accepts (.int number) ∧ value = .int number := by
  constructor
  · intro matched
    by_cases enough : start + type.width ≤ source.size
    · obtain ⟨number, holds, encoded, outcome⟩ := exists_number_ahead spanned enough order accepts
      rw [outcome] at matched
      split at matched
      · rename_i accepted
        obtain ⟨rfl, rfl⟩ := Outcome.success.inj matched
        exact ⟨enough, rfl, number, holds, encoded, accepted, rfl⟩
      · cases matched
    · rw [integerOutcome_of_short spanned (Nat.lt_of_not_le enough)] at matched
      cases matched
  · rintro ⟨enough, rfl, number, holds, encoded, accepted, rfl⟩
    have begins : type.encode order number <+: remaining source start := by
      rw [← encoded]
      exact List.take_prefix _ _
    rw [integerOutcome_of_encoded spanned (by omega) holds begins, if_pos accepted]

theorem integerOutcome_eq_failure_iff (spanned : source.size < lastPosition) :
    integerOutcome type order accepts source start = .failure ↔
      source.size < start + type.width ∨
        ∃ number, type.decode order ((remaining source start).take type.width) = some number ∧
          accepts (.int number) = false := by
  by_cases enough : start + type.width ≤ source.size
  · obtain ⟨number, holds, encoded, outcome⟩ := exists_number_ahead spanned enough order accepts
    have decoded : type.decode order ((remaining source start).take type.width) = some number :=
      FixedInteger.decode_eq_some_iff.mpr ⟨holds, encoded⟩
    rw [outcome, decoded]
    cases accepted : accepts (.int number) with
    | true => simp [accepted, enough]
    | false => simp [accepted]
  · have short := Nat.lt_of_not_le enough
    rw [integerOutcome_of_short spanned short]
    exact ⟨fun _ => .inl short, fun _ => rfl⟩

/-- The grammar of integers of a type matches the numbers of the type as they are written, at every
position of every source, and nothing else.  With a condition on numbers it fails exactly where
fewer bytes are left than the type takes, and where the condition rejects the number.  It comes to
an outcome everywhere, also at positions that are too near to the last one for the end of the
window to be named.  Reading bytes is the inverse of writing numbers, and is refused exactly for a
wrong number of bytes. -/
theorem integer_inverts_encoding (type : FixedInteger) (positive : 0 < type.width)
    (order : ByteOrder) (rules : Rules UInt8 Value) (state : ParserState Value) :
    (∀ number, type.Holds number → ∀ before after : List UInt8,
      (before ++ type.encode order number ++ after).length < lastPosition → ∀ outcome final,
        (integer type order).Finishes rules (before ++ type.encode order number ++ after).toArray
            before.length state (outcome, final) ↔
          outcome = .success type.width (.int number) ∧ final = state) ∧
    (∀ source : Array UInt8, source.size < lastPosition → ∀ start,
      (∀ width value final,
        (integer type order).Finishes rules source start state (.success width value, final) →
          width = type.width ∧ ∃ number, type.Holds number ∧ value = .int number ∧
            (source.extract start (start + type.width)).toList = type.encode order number) ∧
      ∀ accepts,
        (∃ outcome,
          (integerWhere type order accepts).Finishes rules source start state (outcome, state)) ∧
        ((∃ final,
          (integerWhere type order accepts).Finishes rules source start state (.failure, final)) ↔
            source.size - start < type.width ∨
              ∃ number,
                type.decode order (source.extract start (start + type.width)).toList =
                  some number ∧ accepts (.int number) = false)) ∧
    (∀ bytes number, type.decode order bytes = some number ↔
      type.Holds number ∧ bytes = type.encode order number) ∧
    ∀ bytes, type.decode order bytes = none ↔ bytes.length ≠ type.width := by
  refine ⟨fun number holds before after spanned outcome final => ?_, fun source spanned start =>
    ⟨fun width value final finishes => ?_, fun accepts => ⟨?_, ?_⟩⟩,
    fun bytes number => FixedInteger.decode_eq_some_iff,
    fun bytes => FixedInteger.decode_eq_none_iff⟩
  · have inside : before.length ≤ (before ++ type.encode order number ++ after).toArray.size := by
      simp
    have begins : type.encode order number <+:
        remaining (before ++ type.encode order number ++ after).toArray before.length := by
      simp [remaining]
    rw [integer, integerWhere_finishes_iff,
      integerOutcome_of_encoded spanned inside holds begins, if_pos rfl]
  · rw [integer, integerWhere_finishes_iff] at finishes
    obtain ⟨-, rfl, number, holds, encoded, -, rfl⟩ :=
      (integerOutcome_eq_success_iff spanned).mp finishes.1.symm
    rw [take_remaining_eq_extract] at encoded
    exact ⟨rfl, number, holds, rfl, encoded⟩
  · exact ⟨_, integerWhere_finishes_iff.mpr ⟨rfl, rfl⟩⟩
  · have short : source.size < start + type.width ↔ source.size - start < type.width := by omega
    rw [← short, ← take_remaining_eq_extract, ← integerOutcome_eq_failure_iff spanned]
    constructor
    · rintro ⟨final, finishes⟩
      exact (integerWhere_finishes_iff.mp finishes).1.symm
    · intro fails
      exact ⟨state, integerWhere_finishes_iff.mpr ⟨fails.symm, rfl⟩⟩

/-- A negative number of two bytes in the middle of a source, the same number behind a condition
that rejects it, and a window whose end has no position. -/
theorem integer_inverts_encoding_minusTwo :
    (integer .int16 .little).Finishes #[] #[7, 254, 255, 9] 1 {} (.success 2 (.int (-2)), {}) ∧
    (∃ final, (integerWhere .int16 .little fun _ => false).Finishes #[] #[7, 254, 255, 9] 1 {}
      (.failure, final)) ∧
    ∃ final, (integerWhere .int16 .little fun _ => true).Finishes #[] #[7, 254, 255, 9]
      lastPosition {} (.failure, final) := by
  obtain ⟨matched, failing, -, -⟩ :=
    integer_inverts_encoding .int16 (by decide) .little #[] ({} : ParserState Value)
  have written : FixedInteger.int16.encode .little (-2) = [254, 255] := by decide
  have found := matched (-2) (by decide) [7] [9]
  rw [written] at found
  have fails := failing #[7, 254, 255, 9] (by decide)
  refine ⟨(found (by decide) _ _).mpr ⟨rfl, rfl⟩, ((fails 1).2 _).2.mpr (.inr ⟨-2, ?_, rfl⟩),
    ((fails lastPosition).2 _).2.mpr (.inl (by decide))⟩
  decide

/-! ### Texts of integers -/

theorem takes_integer (spanned : source.size < lastPosition) (inside : start ≤ source.size)
    (holds : type.Holds number)
    (begins : remaining source start = type.encode order number ++ rest) :
    (integer type order).Takes rules source start (type.encode order number) (.int number) := by
  have ahead : type.encode order number <+: remaining source start := ⟨rest, begins.symm⟩
  refine Grammar.takes_of_yields begins (Grammar.yields_of_settled
    (form_integerWhere type order (fun _ => true) rules source) ?_)
  rw [integerOutcome_of_encoded spanned inside holds ahead, if_pos rfl, type.length_encode]

theorem exists_number_of_takes_integer (spanned : source.size < lastPosition)
    (takes : (integer type order).Takes rules source start text value) :
    ∃ number, type.Holds number ∧ text = type.encode order number ∧ value = .int number := by
  have settled := takes.yields.unique
    (.settled (form_integerWhere type order (fun _ => true) rules source))
  obtain ⟨-, width, number, holds, encoded, -, rfl⟩ :=
    (integerOutcome_eq_success_iff spanned).mp settled.symm
  refine ⟨number, holds, ?_, rfl⟩
  rw [← encoded, ← width, takes.begins, List.take_left]

/-- Any bytes are a number, so only their number can make the grammar fail. -/
theorem not_integer_fails (spanned : source.size < lastPosition)
    (enough : start + type.width ≤ source.size) :
    ¬ (integer type order).Yields rules source start .failure := by
  intro fails
  have settled := fails.unique
    (.settled (form_integerWhere type order (fun _ => true) rules source))
  obtain ⟨number, _, _, outcome⟩ := exists_number_ahead spanned enough order fun _ => true
  rw [outcome, if_pos rfl] at settled
  cases settled

end Matching

end Binary

end RecursiveDescent
