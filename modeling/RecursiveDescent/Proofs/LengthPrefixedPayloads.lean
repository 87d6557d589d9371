import RecursiveDescent.Proofs.FixedWidthIntegers
import RecursiveDescent.Proofs.ItemLists
import RecursiveDescent.Proofs.StandaloneGrammars
import RecursiveDescent.Value.Grammar

/-!
# Payloads with their length in front

A payload is a count of two bytes, most significant first, and behind it as many numbers of four
bytes each, least significant first.  The count is read first and chooses the grammar that goes on,
a repetition of exactly that many numbers.

Every list of numbers that the count has room for is read back from its bytes, whatever follows
them, and nothing else is matched in a source that has a count.  When the count is cut off there is
nothing that says how many numbers to expect, and the grammar matches an empty list; when anything
behind the count is cut off it fails.
-/

namespace RecursiveDescent

namespace Binary

open FixedInteger

/-- A count and as many numbers as it says. -/
def payload : BinaryGrammar :=
  .bind (integer .uint16 .big) (Grammar.counted (integer .uint32 .little) Value.listing)

def bytesOfNumber (number : UInt32) : List UInt8 :=
  FixedInteger.uint32.encode .little number.toNat

def bytesOfCount (count : Nat) : List UInt8 :=
  FixedInteger.uint16.encode .big count

/-- The bytes of a payload that carries some numbers. -/
def payloadOf (numbers : List UInt32) : List UInt8 :=
  bytesOfCount numbers.length ++ numbers.flatMap bytesOfNumber

/-- The value of a payload that carries some numbers. -/
def carried (numbers : List UInt32) : Value :=
  .list (numbers.map fun number => .int number.toNat)

variable {source : Array UInt8} {start : Nat} {numbers : List UInt32} {rest : List UInt8}
  {value : Value} {taken : List (List UInt8 × Value)}

/-! ### The bytes of a payload -/

@[simp]
theorem length_bytesOfCount (count : Nat) : (bytesOfCount count).length = 2 :=
  length_encode .uint16 .big count

@[simp]
theorem length_bytesOfNumber (number : UInt32) : (bytesOfNumber number).length = 4 :=
  length_encode .uint32 .little number.toNat

theorem length_payloadOf (numbers : List UInt32) :
    (payloadOf numbers).length = 2 + 4 * numbers.length := by
  have each : (numbers.flatMap bytesOfNumber).length = 4 * numbers.length := by
    induction numbers with
    | nil => rfl
    | cons number numbers ih =>
        rw [List.flatMap_cons, List.length_append, length_bytesOfNumber, ih, List.length_cons]
        omega
  rw [payloadOf, List.length_append, length_bytesOfCount, each]

/-- The numbers of two bytes are the counts up to 65535. -/
theorem holds_count_iff {number : Int} :
    FixedInteger.uint16.Holds number ↔ ∃ count : Nat, count ≤ 65535 ∧ number = count := by
  have patterns : FixedInteger.uint16.patterns = 65536 := by decide
  rw [holds_unsigned_iff rfl, patterns]
  constructor
  · rintro ⟨natural, below⟩
    exact ⟨number.toNat, by omega, by omega⟩
  · rintro ⟨count, fits, rfl⟩
    omega

theorem holds_number_iff {number : Int} :
    FixedInteger.uint32.Holds number ↔ ∃ word : UInt32, number = word.toNat := by
  have patterns : FixedInteger.uint32.patterns = 2 ^ 32 := by decide
  rw [holds_unsigned_iff rfl, patterns]
  constructor
  · rintro ⟨natural, below⟩
    refine ⟨UInt32.ofNat number.toNat, ?_⟩
    rw [UInt32.toNat_ofNat']
    omega
  · rintro ⟨word, rfl⟩
    have bounded := word.toNat_lt
    omega

theorem bytesOfCount_inj {first second : Nat} (firstFits : first ≤ 65535)
    (secondFits : second ≤ 65535) (same : bytesOfCount first = bytesOfCount second) :
    first = second := by
  have decoded : FixedInteger.uint16.decode .big (bytesOfCount first) = some (first : Int) :=
    decode_encode (holds_count_iff.mpr ⟨first, firstFits, rfl⟩)
  rw [same, bytesOfCount, decode_encode (holds_count_iff.mpr ⟨second, secondFits, rfl⟩)] at decoded
  have equal := Option.some.inj decoded
  omega

/-- The numbers that two payloads carry are equally many when one payload begins the other. -/
theorem length_eq_of_prefix {others : List UInt32} (fits : numbers.length ≤ 65535)
    (othersFit : others.length ≤ 65535) (begins : payloadOf others <+: payloadOf numbers) :
    others.length = numbers.length := by
  have countBegins : bytesOfCount others.length <+: payloadOf numbers :=
    (List.prefix_append _ _).trans begins
  have counts : bytesOfCount others.length <+: bytesOfCount numbers.length :=
    List.prefix_of_prefix_length_le countBegins (List.prefix_append _ _) (by simp)
  exact bytesOfCount_inj othersFit fits (counts.eq_of_length (by simp))

/-! ### Counted numbers -/

theorem requestedCount_of_fits {width count : Nat} (fits : count ≤ 65535) :
    Grammar.requestedCount (.success width (.int count)) = count := by
  rw [Grammar.requestedCount, if_pos (by omega), Int.toNat_natCast]

theorem takesEach_numbers (spanned : source.size < lastPosition)
    (begins : remaining source start = numbers.flatMap bytesOfNumber ++ rest)
    (inside : start ≤ source.size) :
    (integer .uint32 .little).TakesEach #[] source start
      (numbers.map fun number => (bytesOfNumber number, .int number.toNat)) := by
  induction numbers generalizing start with
  | nil => exact .nil start
  | cons number numbers ih =>
      rw [List.flatMap_cons, List.append_assoc] at begins
      have takes : (integer .uint32 .little).Takes #[] source start (bytesOfNumber number)
          (.int number.toNat) :=
        takes_integer spanned inside (holds_number_iff.mpr ⟨number, rfl⟩) begins
      have room : 4 ≤ (remaining source start).length := by
        rw [begins, List.length_append, length_bytesOfNumber]
        omega
      rw [length_remaining] at room
      refine .cons takes (ih (remaining_of_eq_append begins) ?_)
      rw [length_bytesOfNumber]
      omega

theorem exists_numbers_of_takesEach (spanned : source.size < lastPosition)
    (each : (integer .uint32 .little).TakesEach #[] source start taken) :
    ∃ numbers : List UInt32,
      taken = numbers.map fun number => (bytesOfNumber number, .int number.toNat) := by
  induction each with
  | nil start => exact ⟨[], rfl⟩
  | cons takes others ih =>
      obtain ⟨numbers, rfl⟩ := ih
      obtain ⟨number, holds, rfl, rfl⟩ := exists_number_of_takes_integer spanned takes
      obtain ⟨word, rfl⟩ := holds_number_iff.mp holds
      exact ⟨word :: numbers, rfl⟩

/-! ### Payloads -/

theorem spelled_numbers (numbers : List UInt32) :
    Grammar.spelled (numbers.map fun number => (bytesOfNumber number, Value.int number.toNat)) =
      numbers.flatMap bytesOfNumber := by
  simp [Grammar.spelled, List.flatMap_map]

theorem takes_payload (spanned : source.size < lastPosition) (fits : numbers.length ≤ 65535)
    (begins : source.toList = payloadOf numbers ++ rest) :
    payload.Takes #[] source 0 (payloadOf numbers) (carried numbers) := by
  rw [payloadOf, List.append_assoc] at begins
  have ahead : remaining source 0 = _ := begins
  have beginning : (integer .uint16 .big).Takes #[] source 0 (bytesOfCount numbers.length)
      (.int numbers.length) :=
    takes_integer spanned (Nat.zero_le _) (holds_count_iff.mpr ⟨_, fits, rfl⟩) begins
  have inside : 0 + (bytesOfCount numbers.length).length ≤ source.size := by
    rw [← Array.length_toList, begins, List.length_append]
    omega
  have each := takesEach_numbers spanned (remaining_of_eq_append ahead) inside
  have following : (Grammar.repeated (integer .uint32 .little) Value.listing (.exactly _)).Takes
      #[] source _ _ _ := Grammar.takes_exactly each
  rw [spelled_numbers, List.length_map, List.map_map, gathered_listing] at following
  refine beginning.bind ?_
  rw [Grammar.counted, requestedCount_of_fits fits]
  exact following

theorem exists_payload_of_takes (spanned : source.size < lastPosition) (counted : 2 ≤ source.size)
    {text : List UInt8} (takes : payload.Takes #[] source 0 text value) :
    ∃ numbers : List UInt32, numbers.length ≤ 65535 ∧ text = payloadOf numbers ∧
      value = carried numbers := by
  rcases takes.of_bind with ⟨firstText, secondText, firstValue, rfl, beginning, following⟩ |
    ⟨fails, _⟩
  · obtain ⟨header, holds, rfl, rfl⟩ := exists_number_of_takes_integer spanned beginning
    obtain ⟨count, fits, rfl⟩ := holds_count_iff.mp holds
    rw [Grammar.counted, requestedCount_of_fits fits] at following
    obtain ⟨taken, each, rfl, rfl, rfl⟩ := following.of_exactly
    obtain ⟨numbers, rfl⟩ := exists_numbers_of_takesEach spanned each
    rw [List.length_map] at fits
    refine ⟨numbers, fits, ?_, ?_⟩
    · rw [List.length_map, spelled_numbers]
      rfl
    · rw [List.map_map, gathered_listing]
      rfl
  · have enough : 0 + FixedInteger.uint16.width ≤ source.size := by
      rw [Nat.zero_add]
      exact counted
    exact absurd fails (not_integer_fails spanned enough)

theorem standalone_payload : payload.Standalone :=
  ⟨trivial, trivial, fun _ => ⟨trivial, trivial⟩⟩

theorem functionFree_payload : payload.FunctionFree :=
  ⟨trivial, trivial, fun _ => ⟨trivial, trivial⟩⟩

/-- The grammar of payloads comes to an outcome on every source, because its loops are bounded. -/
theorem exists_payload_yields (source : Array UInt8) (start : Nat) :
    ∃ outcome, payload.Yields #[] source start outcome := by
  have guarded : payload.Guarded #[] source := by
    refine ⟨trivial, fun _ _ _ => ⟨trivial, fun unbounded => ?_⟩⟩
    cases unbounded
  exact guarded.exists_yields functionFree_payload start

theorem payload_yields_success_iff (spanned : source.size < lastPosition)
    (counted : 2 ≤ source.size) {width : Nat} :
    payload.Yields #[] source 0 (.success width value) ↔
      ∃ numbers : List UInt32, numbers.length ≤ 65535 ∧ payloadOf numbers <+: source.toList ∧
        width = 2 + 4 * numbers.length ∧ value = carried numbers := by
  constructor
  · intro yields
    obtain ⟨text, rfl, takes⟩ :=
      yields.exists_takes functionFree_payload (Rules.throughout_empty _) spanned
    obtain ⟨numbers, fits, rfl, rfl⟩ := exists_payload_of_takes spanned counted takes
    exact ⟨numbers, fits, takes.prefix_remaining, length_payloadOf numbers, rfl⟩
  · rintro ⟨numbers, fits, ⟨rest, begins⟩, rfl, rfl⟩
    have takes := takes_payload spanned fits begins.symm
    rw [← length_payloadOf]
    exact takes.yields

theorem truncated_payload_fails (fits : numbers.length ≤ 65535) {kept : Nat} (counted : 2 ≤ kept)
    (less : kept < (payloadOf numbers).length) :
    payload.Yields #[] ((payloadOf numbers).take kept).toArray 0 .failure := by
  have length := length_payloadOf numbers
  have size : ((payloadOf numbers).take kept).toArray.size = kept := by
    rw [List.size_toArray, List.length_take_of_le (Nat.le_of_lt less)]
  have spanned : ((payloadOf numbers).take kept).toArray.size < lastPosition := by
    rw [size, lastPosition]
    omega
  obtain ⟨outcome, yields⟩ := exists_payload_yields ((payloadOf numbers).take kept).toArray 0
  cases outcome with
  | failure => exact yields
  | success width value =>
      exfalso
      rw [payload_yields_success_iff spanned (by rwa [size])] at yields
      obtain ⟨others, othersFit, begins, _, _⟩ := yields
      -- The count was kept, so a match would be as long as what there was before.
      have same : others.length = numbers.length :=
        length_eq_of_prefix fits othersFit (begins.trans (List.take_prefix _ _))
      have shorter : (payloadOf others).length ≤ ((payloadOf numbers).take kept).length :=
        begins.length_le
      rw [length_payloadOf, same, List.length_take_of_le (Nat.le_of_lt less)] at shorter
      omega

/-- The grammar of payloads reads every list of numbers that the count has room for back from its
bytes, whatever follows them.  In a source that has a count it matches nothing else, and it fails
when a payload lost any of the bytes behind the count. -/
theorem payload_inverts_encoding (rules : Rules UInt8 Value) (state : ParserState Value) :
    (∀ (numbers : List UInt32) (trailing : List UInt8), numbers.length ≤ 65535 →
      (payloadOf numbers ++ trailing).length < lastPosition → ∃ final,
        payload.Finishes rules (payloadOf numbers ++ trailing).toArray 0 state
          (.success (2 + 4 * numbers.length) (carried numbers), final)) ∧
    (∀ source : Array UInt8, 2 ≤ source.size → source.size < lastPosition →
      ∀ width value final,
        payload.Finishes rules source 0 state (.success width value, final) →
          ∃ (numbers : List UInt32) (trailing : List UInt8), numbers.length ≤ 65535 ∧
            source.toList = payloadOf numbers ++ trailing ∧
            width = 2 + 4 * numbers.length ∧ value = carried numbers) ∧
    ∀ (numbers : List UInt32) (kept : Nat), numbers.length ≤ 65535 → 2 ≤ kept →
      kept < (payloadOf numbers).length → ∃ final,
        payload.Finishes rules ((payloadOf numbers).take kept).toArray 0 state
          (.failure, final) := by
  refine ⟨fun numbers trailing fits spanned => ?_,
    fun source counted spanned width value final finishes => ?_,
    fun numbers kept fits counted less => ?_⟩
  · rw [standalone_payload.finishes_iff_yields, ← length_payloadOf]
    exact (takes_payload spanned fits rfl).yields
  · have yields := (standalone_payload.finishes_iff_yields rules state).mp ⟨final, finishes⟩
    rw [payload_yields_success_iff spanned counted] at yields
    obtain ⟨numbers, fits, ⟨trailing, begins⟩, rfl, rfl⟩ := yields
    exact ⟨numbers, trailing, fits, begins.symm, rfl, rfl⟩
  · rw [standalone_payload.finishes_iff_yields]
    exact truncated_payload_fails fits counted less

/-- Two numbers with a byte behind them, and the same payload without the last byte of the second
number. -/
theorem payload_inverts_encoding_two :
    (∃ final, payload.Finishes #[] #[0, 2, 1, 0, 0, 0, 0, 1, 0, 0, 9] 0 {}
      (.success 10 (.list [.int 1, .int 256]), final)) ∧
    ∃ final, payload.Finishes #[] #[0, 2, 1, 0, 0, 0, 0, 1, 0] 0 {} (.failure, final) := by
  obtain ⟨read, -, truncated⟩ := payload_inverts_encoding #[] ({} : ParserState Value)
  have written : payloadOf [1, 256] = [0, 2, 1, 0, 0, 0, 0, 1, 0, 0] := by decide
  have found := read [1, 256] [9] (by decide) (by decide)
  have fails := truncated [1, 256] 9 (by decide) (by decide) (by decide)
  rw [written] at found fails
  exact ⟨found, fails⟩

end Binary

end RecursiveDescent
