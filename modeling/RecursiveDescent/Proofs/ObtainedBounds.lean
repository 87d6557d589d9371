import RecursiveDescent.Expression
import RecursiveDescent.Interchange.Record

/-!
# Where bounds come from

Bounds of a repetition are stated with unsigned or signed numbers, are one of a few ready-made
ones, or are read from a record.  Each way has a check of its own.  This file says that all of them
accept the same bounds: those that can be satisfied, because the minimum does not exceed the
maximum, if there is one.

A record holds machine words, and every number that a caller can state is one.  So bounds that a
caller has obtained survive being stored and read again.
-/

namespace RecursiveDescent

namespace RepeatBounds

variable {minimum limit : Nat} {maximum : Option Nat} {bounds : RepeatBounds}

/-! ### Numbers that bounds consist of -/

/-- The minimum does not exceed the maximum, if there is one. -/
def InOrder (minimum : Nat) (maximum : Option Nat) : Prop :=
  ∀ limit, maximum = some limit → minimum ≤ limit

/-- Both numbers are unsigned machine words. -/
def FitWords (minimum : Nat) (maximum : Option Nat) : Prop :=
  minimum < 2 ^ 64 ∧ ∀ limit, maximum = some limit → limit < 2 ^ 64

def IsSignedWord (number : Int) : Prop :=
  -(2 : Int) ^ 63 ≤ number ∧ number < 2 ^ 63

def Has (bounds : RepeatBounds) (minimum : Nat) (maximum : Option Nat) : Prop :=
  bounds.minimum = minimum ∧ bounds.maximum = maximum

/-- A signed maximum as an unsigned one, where `-1` stands for none. -/
def unsignedMaximum (maximum : Int) : Option Nat :=
  if maximum = -1 then none else some maximum.toNat

/-- The numbers of bounds determine them. -/
theorem Has.unique {other : RepeatBounds} (first : bounds.Has minimum maximum)
    (second : other.Has minimum maximum) : bounds = other := by
  obtain ⟨least, most, ordered⟩ := bounds
  obtain ⟨rfl, rfl⟩ := first
  obtain ⟨otherLeast, otherMost, otherOrdered⟩ := other
  obtain ⟨rfl, rfl⟩ := second
  rfl

theorem inOrder_none (minimum : Nat) : InOrder minimum none := by
  intro limit absent
  cases absent

theorem inOrder_some : InOrder minimum (some limit) ↔ minimum ≤ limit := by
  constructor
  · intro order
    exact order limit rfl
  · rintro order _ ⟨⟩
    exact order

theorem mapError_ok {α β γ : Type} (word : α → β) (value : γ) :
    (Except.ok value : Except α γ).mapError word = .ok value :=
  rfl

theorem mapError_error {α β γ : Type} (word : α → β) (error : α) :
    (Except.error error : Except α γ).mapError word = .error (word error) :=
  rfl

/-! ### Unsigned numbers -/

theorem ofUnsigned_of_inOrder (order : InOrder minimum maximum) :
    ofUnsigned minimum maximum = .ok ⟨minimum, maximum, order⟩ := by
  cases maximum with
  | none => rfl
  | some limit =>
      rw [inOrder_some] at order
      simp [ofUnsigned, order]

theorem ofUnsigned_eq_ok_iff :
    ofUnsigned minimum maximum = .ok bounds ↔
      InOrder minimum maximum ∧ bounds.Has minimum maximum := by
  constructor
  · intro accepted
    have order : InOrder minimum maximum := by
      cases maximum with
      | none => exact inOrder_none minimum
      | some limit =>
          rw [inOrder_some]
          refine Decidable.byContradiction fun exceeded => ?_
          simp [ofUnsigned, exceeded] at accepted
    rw [ofUnsigned_of_inOrder order] at accepted
    cases accepted
    exact ⟨order, rfl, rfl⟩
  · rintro ⟨order, numbers⟩
    rw [ofUnsigned_of_inOrder order]
    have same : bounds = ⟨minimum, maximum, order⟩ := numbers.unique ⟨rfl, rfl⟩
    rw [same]

theorem exists_ofUnsigned_iff :
    (∃ bounds, ofUnsigned minimum maximum = .ok bounds) ↔ InOrder minimum maximum := by
  constructor
  · rintro ⟨bounds, accepted⟩
    exact (ofUnsigned_eq_ok_iff.mp accepted).1
  · intro order
    exact ⟨_, ofUnsigned_of_inOrder order⟩

/-! ### Signed numbers -/

section Signed

variable {minimum maximum : Int}

/-- The minimum is natural and does not exceed the maximum, if that is not `-1`. -/
def SignedInOrder (minimum maximum : Int) : Prop :=
  0 ≤ minimum ∧ (maximum = -1 ∨ minimum ≤ maximum)

theorem SignedInOrder.unsigned (order : SignedInOrder minimum maximum) :
    InOrder minimum.toNat (unsignedMaximum maximum) := by
  obtain ⟨natural, unlimited | ordered⟩ := order
  · simp [unsignedMaximum, unlimited, inOrder_none]
  · have limited : maximum ≠ -1 := by omega
    simp only [unsignedMaximum, limited, if_false, inOrder_some]
    omega

/-- Signed numbers in order are read as unsigned ones. -/
theorem ofSigned_of_inOrder (order : SignedInOrder minimum maximum) :
    ofSigned minimum maximum = ofUnsigned minimum.toNat (unsignedMaximum maximum) := by
  have natural : ¬ minimum < 0 := Int.not_lt.mpr order.1
  unfold ofSigned unsignedMaximum
  by_cases unlimited : maximum = -1
  · simp [natural, unlimited, ofUnsigned]
  · have ordered : minimum ≤ maximum := order.2.resolve_left unlimited
    have notBelow : ¬ maximum < -1 := by omega
    have unsigned : minimum.toNat ≤ maximum.toNat := by omega
    simp [natural, unlimited, notBelow, ofUnsigned, unsigned, mapError_ok]

/-- Signed numbers out of order are refused, with an error that reports them as they are. -/
theorem ofSigned_of_not_inOrder (disorder : ¬ SignedInOrder minimum maximum) :
    ofSigned minimum maximum = .error (.invalidRepeatBounds minimum maximum) := by
  unfold ofSigned
  by_cases negative : minimum < 0
  · simp [negative]
  · have limited : maximum ≠ -1 := by
      rintro rfl
      exact disorder ⟨Int.not_lt.mp negative, .inl rfl⟩
    have exceeded : ¬ minimum ≤ maximum := fun ordered =>
      disorder ⟨Int.not_lt.mp negative, .inr ordered⟩
    have unsigned : maximum < -1 ∨ ¬ minimum.toNat ≤ maximum.toNat := by omega
    rcases unsigned with below | exceeded
    · simp [negative, limited, below]
    · simp [negative, limited, ofUnsigned, exceeded, mapError_error]

theorem exists_ofSigned_iff :
    (∃ bounds, ofSigned minimum maximum = .ok bounds) ↔ SignedInOrder minimum maximum := by
  by_cases order : SignedInOrder minimum maximum
  · rw [ofSigned_of_inOrder order, exists_ofUnsigned_iff]
    exact iff_of_true order.unsigned order
  · simp [ofSigned_of_not_inOrder order, order]

end Signed

/-! ### Records -/

/-- The entry of a record stands for this maximum; a missing one and null stand for none. -/
inductive StandsFor : Option Datum → Option Nat → Prop where
  | missing : StandsFor none none
  | null : StandsFor (some .null) none
  | number (limit : Nat) : StandsFor (some (.ofNat limit)) (some limit)

/-- The datum is a record of these two numbers: an object that has them as fields, possibly among
others, or a list of the two. -/
inductive Records : Datum → Nat → Option Nat → Prop where
  | object {fields : List (String × Datum)} {minimum : Nat} {maximum : Option Nat}
      (distinct : (fields.map Prod.fst).Nodup)
      (least : fields.lookup "min" = some (.ofNat minimum))
      (most : StandsFor (fields.lookup "max") maximum) :
      Records (.object fields) minimum maximum
  | list {datum : Datum} {minimum : Nat} {maximum : Option Nat}
      (most : StandsFor (some datum) maximum) :
      Records (.list [.ofNat minimum, datum]) minimum maximum

theorem word?_ofNat_eq_some_iff {number found : Nat} :
    (Datum.ofNat number).word? = some found ↔ number < 2 ^ 64 ∧ found = number := by
  by_cases fits : number < 2 ^ 64
  · have read : (Datum.ofNat number).word? = some number := by
      simp only [Datum.ofNat, Datum.word?, Int.ofNat_eq_natCast]
      rw [if_pos (by omega), Int.toNat_natCast]
    simp [read, fits, eq_comm]
  · have unread : (Datum.ofNat number).word? = none := by
      simp only [Datum.ofNat, Datum.word?, Int.ofNat_eq_natCast]
      rw [if_neg (by omega)]
    simp [unread, fits]

theorem StandsFor.optional?_eq_some_iff {entry : Option Datum} (stands : StandsFor entry maximum)
    {found : Option Nat} :
    Datum.optional? Datum.word? entry = some found ↔
      (∀ limit, maximum = some limit → limit < 2 ^ 64) ∧ found = maximum := by
  cases stands with
  | missing => simp [Datum.optional?, eq_comm]
  | null => simp [Datum.optional?, eq_comm]
  | number limit =>
      have read : Datum.optional? Datum.word? (some (.ofNat limit)) =
          (Datum.ofNat limit).word?.map some := rfl
      simp only [read, Option.map_eq_some_iff, word?_ofNat_eq_some_iff, Option.some.injEq,
        forall_eq']
      constructor
      · rintro ⟨number, ⟨fits, rfl⟩, rfl⟩
        exact ⟨fits, rfl⟩
      · rintro ⟨fits, rfl⟩
        exact ⟨limit, ⟨fits, rfl⟩, rfl⟩

/-- The numbers of a record are read if they are machine words. -/
theorem Records.numbers?_eq_some_iff {datum : Datum} (records : Records datum minimum maximum)
    {numbers : Nat × Option Nat} :
    numbers? datum = some numbers ↔ FitWords minimum maximum ∧ numbers = (minimum, maximum) := by
  obtain ⟨least, most⟩ := numbers
  have opened : ∃ entry, StandsFor entry maximum ∧ numbers? datum =
      (Datum.ofNat minimum).word?.bind fun minimum =>
        (Datum.optional? Datum.word? entry).map fun maximum => (minimum, maximum) := by
    cases records with
    | @object fields _ _ distinct least most =>
        refine ⟨_, most, ?_⟩
        simp only [numbers?, Datum.fields?, List.map_cons, List.map_nil, least,
          Option.map_eq_bind]
        rfl
    | list most =>
        refine ⟨_, most, ?_⟩
        simp only [Option.map_eq_bind]
        rfl
  obtain ⟨entry, stands, read⟩ := opened
  simp only [read, Option.bind_eq_some_iff, Option.map_eq_some_iff, word?_ofNat_eq_some_iff,
    stands.optional?_eq_some_iff, FitWords, Prod.mk.injEq]
  constructor
  · rintro ⟨_, ⟨fits, rfl⟩, _, ⟨fitsToo, rfl⟩, rfl, rfl⟩
    exact ⟨⟨fits, fitsToo⟩, rfl, rfl⟩
  · rintro ⟨⟨fits, fitsToo⟩, rfl, rfl⟩
    exact ⟨_, ⟨fits, rfl⟩, _, ⟨fitsToo, rfl⟩, rfl, rfl⟩

theorem mapError_eq_ok_iff {α β γ : Type} {result : Except α γ} {word : α → β} {value : γ} :
    result.mapError word = .ok value ↔ result = .ok value := by
  cases result with
  | error error => simp [mapError_error]
  | ok found => rw [mapError_ok, Except.ok.injEq, Except.ok.injEq]

theorem ofDatum_eq_ok_iff {datum : Datum} :
    ofDatum datum = .ok bounds ↔
      ∃ numbers, numbers? datum = some numbers ∧ ofUnsigned numbers.1 numbers.2 = .ok bounds := by
  unfold ofDatum
  cases numbers? datum with
  | none => simp
  | some numbers => simp [mapError_eq_ok_iff]

/-- A record of two machine words in order is read as bounds, and no other record is. -/
theorem Records.ofDatum_eq_ok_iff {datum : Datum} (records : Records datum minimum maximum) :
    ofDatum datum = .ok bounds ↔
      FitWords minimum maximum ∧ InOrder minimum maximum ∧ bounds.Has minimum maximum := by
  simp only [RepeatBounds.ofDatum_eq_ok_iff, records.numbers?_eq_some_iff, ofUnsigned_eq_ok_iff]
  constructor
  · rintro ⟨_, ⟨fits, rfl⟩, accepted⟩
    exact ⟨fits, accepted⟩
  · rintro ⟨fits, accepted⟩
    exact ⟨_, ⟨fits, rfl⟩, accepted⟩

theorem records_toDatum (bounds : RepeatBounds) :
    Records bounds.toDatum bounds.minimum bounds.maximum := by
  obtain ⟨minimum, maximum, order⟩ := bounds
  have distinct : ["min", "max"].Nodup := by decide
  cases maximum with
  | none => exact .object distinct rfl .null
  | some limit => exact .object distinct rfl (.number limit)

theorem lt_of_word?_eq_some {datum : Datum} {number : Nat} (read : datum.word? = some number) :
    number < 2 ^ 64 := by
  cases datum with
  | integer found =>
      simp only [Datum.word?, Option.ite_none_right_eq_some] at read
      obtain ⟨⟨natural, fits⟩, same⟩ := read
      cases same
      omega
  | _ => cases read

theorem lt_of_optional?_eq_some {entry : Option Datum} (read :
    Datum.optional? Datum.word? entry = some (some limit)) : limit < 2 ^ 64 := by
  cases entry with
  | none => cases read
  | some datum =>
      cases datum with
      | integer number =>
          obtain ⟨_, readLimit, same⟩ := Option.map_eq_some_iff.mp read
          cases same
          exact lt_of_word?_eq_some readLimit
      | _ => cases read

/-- Whatever is read from a record consists of machine words. -/
theorem fitWords_of_numbers? {datum : Datum} (read : numbers? datum = some (minimum, maximum)) :
    FitWords minimum maximum := by
  unfold numbers? at read
  split at read
  · obtain ⟨_, readMinimum, rest⟩ := Option.bind_eq_some_iff.mp read
    obtain ⟨_, readMaximum, same⟩ := Option.bind_eq_some_iff.mp rest
    cases same
    refine ⟨lt_of_word?_eq_some readMinimum, ?_⟩
    rintro limit rfl
    exact lt_of_optional?_eq_some readMaximum
  · cases read

/-! ### All ways to obtain bounds -/

def Request.OfWords : Request → Prop
  | .unsigned minimum maximum => FitWords minimum maximum
  | .signed minimum maximum => IsSignedWord minimum ∧ IsSignedWord maximum
  | .atLeast minimum => minimum < 2 ^ 64
  | .exactly count => count < 2 ^ 64

/-- The bounds consist of the numbers of the request, and these are in order. -/
def Request.Describes : Request → RepeatBounds → Prop
  | .unsigned minimum maximum, bounds => InOrder minimum maximum ∧ bounds.Has minimum maximum
  | .signed minimum maximum, bounds =>
      SignedInOrder minimum maximum ∧ bounds.Has minimum.toNat (unsignedMaximum maximum)
  | .atLeast minimum, bounds => bounds.Has minimum none
  | .exactly count, bounds => bounds.Has count (some count)

theorem ofSigned_eq_ok_iff {minimum maximum : Int} :
    ofSigned minimum maximum = .ok bounds ↔
      SignedInOrder minimum maximum ∧ ofUnsigned minimum.toNat (unsignedMaximum maximum) =
        .ok bounds := by
  by_cases order : SignedInOrder minimum maximum
  · rw [ofSigned_of_inOrder order, and_iff_right order]
  · simp [ofSigned_of_not_inOrder order, order]

/-- A request is accepted for the bounds that it describes, and for no others. -/
theorem Request.bounds_eq_ok_iff {request : Request} :
    request.bounds = .ok bounds ↔ request.Describes bounds := by
  cases request with
  | unsigned minimum maximum => exact ofUnsigned_eq_ok_iff
  | signed minimum maximum =>
      rw [Request.bounds, Request.Describes, ofSigned_eq_ok_iff, ofUnsigned_eq_ok_iff]
      exact and_congr_right fun order => and_iff_right order.unsigned
  | atLeast minimum =>
      rw [Request.bounds, Request.Describes, Except.ok.injEq, eq_comm]
      exact ⟨fun same => same ▸ ⟨rfl, rfl⟩, fun numbers => numbers.unique ⟨rfl, rfl⟩⟩
  | exactly count =>
      rw [Request.bounds, Request.Describes, Except.ok.injEq, eq_comm]
      exact ⟨fun same => same ▸ ⟨rfl, rfl⟩, fun numbers => numbers.unique ⟨rfl, rfl⟩⟩

theorem Request.Describes.fitWords {request : Request} (describes : request.Describes bounds)
    (words : request.OfWords) : FitWords bounds.minimum bounds.maximum := by
  cases request with
  | unsigned minimum maximum =>
      obtain ⟨-, rfl, rfl⟩ := describes
      exact words
  | signed minimum maximum =>
      obtain ⟨-, same, sameToo⟩ := describes
      obtain ⟨⟨-, minimumFits⟩, -, maximumFits⟩ := words
      rw [same, sameToo, unsignedMaximum]
      refine ⟨by omega, fun limit limited => ?_⟩
      split at limited
      · cases limited
      · cases limited
        omega
  | atLeast minimum =>
      obtain ⟨rfl, absent⟩ := describes
      exact ⟨words, fun limit limited => by rw [absent] at limited; cases limited⟩
  | exactly count =>
      obtain ⟨rfl, same⟩ := describes
      exact ⟨words, fun limit limited => Option.some.inj (same.symm.trans limited) ▸ words⟩

section Repetitions

variable {ε : Type} {item : Expression ε} {collector : ValueCollector Value} {scope : Scope ε}
  {numbering : Numbering ε}

/-- A repetition is resolved if its item is and the bounds that it requests are accepted. -/
theorem resolve_repeated_eq_ok_iff {request : Request} {repetition : Grammar ε Value × Numbering ε} :
    (Expression.repeated item collector request).resolve scope numbering = .ok repetition ↔
      ∃ resolved bounds, item.resolve scope numbering = .ok resolved ∧
        request.bounds = .ok bounds ∧
        repetition = (.repeated resolved.1 collector bounds, resolved.2) := by
  rw [Expression.resolve]
  cases item.resolve scope numbering with
  | error error => simp [Bind.bind, Except.bind]
  | ok resolved =>
      cases request.bounds with
      | error error => simp [Bind.bind, Except.bind, throw, throwThe, MonadExceptOf.throw]
      | ok bounds => simp [Bind.bind, Except.bind, Pure.pure, Except.pure, eq_comm]

/-- A repetition is resolved with the bounds that its request describes, and only with these. -/
theorem resolve_repeated_iff_describes {resolved : Grammar ε Value × Numbering ε}
    (inside : item.resolve scope numbering = .ok resolved) {request : Request}
    {grammar : Grammar ε Value} {numbered : Numbering ε} :
    (Expression.repeated item collector request).resolve scope numbering =
        .ok (grammar, numbered) ↔
      ∃ bounds, request.Describes bounds ∧ grammar = .repeated resolved.1 collector bounds ∧
        numbered = resolved.2 := by
  rw [resolve_repeated_eq_ok_iff]
  simp only [inside, Except.ok.injEq, Prod.mk.injEq, Request.bounds_eq_ok_iff]
  constructor
  · rintro ⟨_, bounds, rfl, describes, same⟩
    exact ⟨bounds, describes, same⟩
  · rintro ⟨bounds, describes, same⟩
    exact ⟨resolved, bounds, rfl, describes, same⟩

theorem resolve_signed_iff {resolved : Grammar ε Value × Numbering ε}
    (inside : item.resolve scope numbering = .ok resolved) {minimum maximum : Int} :
    (∃ grammar numbered,
        (Expression.repeated item collector (.signed minimum maximum)).resolve scope numbering =
            .ok (grammar, numbered) ∧
          grammar.repeatBounds? = some bounds) ↔
      SignedInOrder minimum maximum ∧
        ofUnsigned minimum.toNat (unsignedMaximum maximum) = .ok bounds := by
  simp only [resolve_repeated_iff_describes inside, ← Request.bounds_eq_ok_iff]
  rw [← ofSigned_eq_ok_iff]
  constructor
  · rintro ⟨_, _, ⟨held, accepted, rfl, rfl⟩, same⟩
    cases same
    exact accepted
  · intro accepted
    exact ⟨_, _, ⟨bounds, accepted, rfl, rfl⟩, rfl⟩

end Repetitions

/-- Bounds that a caller comes by. -/
inductive Obtained : RepeatBounds → Prop where
  /-- They have been requested. -/
  | requested {request : Request} {bounds : RepeatBounds} (words : request.OfWords)
      (accepted : request.bounds = .ok bounds) : Obtained bounds
  /-- They belong to a repetition for which they have been requested. -/
  | resolved {ε : Type} {item : Expression ε} {collector : ValueCollector Value}
      {request : Request} {scope : Scope ε} {numbering numbered : Numbering ε}
      {grammar : Grammar ε Value} {bounds : RepeatBounds} (words : request.OfWords)
      (accepted : (Expression.repeated item collector request).resolve scope numbering =
        .ok (grammar, numbered))
      (held : grammar.repeatBounds? = some bounds) : Obtained bounds
  /-- They are the default. -/
  | zeroOrMore : Obtained zeroOrMore
  | oneOrMore : Obtained oneOrMore
  /-- They have been read from a record. -/
  | stored {datum : Datum} {bounds : RepeatBounds} (accepted : ofDatum datum = .ok bounds) :
      Obtained bounds

theorem Obtained.fitWords (obtained : Obtained bounds) :
    FitWords bounds.minimum bounds.maximum := by
  cases obtained with
  | requested words accepted => exact (Request.bounds_eq_ok_iff.mp accepted).fitWords words
  | resolved words accepted held =>
      obtain ⟨_, bounds, _, requested, same⟩ := resolve_repeated_eq_ok_iff.mp accepted
      cases same
      cases held
      exact (Request.bounds_eq_ok_iff.mp requested).fitWords words
  | zeroOrMore => exact ⟨by decide, fun _ absent => by cases absent⟩
  | oneOrMore => exact ⟨by decide, fun _ absent => by cases absent⟩
  | stored accepted =>
      obtain ⟨⟨minimum, maximum⟩, read, unsigned⟩ := ofDatum_eq_ok_iff.mp accepted
      obtain ⟨-, rfl, rfl⟩ := ofUnsigned_eq_ok_iff.mp unsigned
      exact fitWords_of_numbers? read

/-- Every way to obtain bounds yields bounds in order, and all bounds in order can be obtained.
Unsigned numbers and records are accepted exactly when they are in order.  Signed numbers are
accepted exactly when the minimum is natural and does not exceed the maximum unless that is `-1`,
and are then read as unsigned ones without a maximum in place of `-1`.  A request yields the bounds
that consist of its numbers, on its own and as the bounds of a repetition.  Obtained bounds can be
stored and read again. -/
theorem obtained_bounds_in_order :
    (∀ minimum maximum,
      (∃ bounds, Obtained bounds ∧ bounds.Has minimum maximum) ↔
        FitWords minimum maximum ∧ InOrder minimum maximum) ∧
    (∀ minimum maximum bounds,
      ofUnsigned minimum maximum = .ok bounds ↔
        InOrder minimum maximum ∧ bounds.Has minimum maximum) ∧
    (∀ datum minimum maximum, Records datum minimum maximum → ∀ bounds,
      ofDatum datum = .ok bounds ↔
        FitWords minimum maximum ∧ InOrder minimum maximum ∧ bounds.Has minimum maximum) ∧
    (∀ minimum maximum,
      ((∃ bounds, ofSigned minimum maximum = .ok bounds) ↔
        0 ≤ minimum ∧ (maximum = -1 ∨ minimum ≤ maximum)) ∧
      (0 ≤ minimum ∧ (maximum = -1 ∨ minimum ≤ maximum) →
        ofSigned minimum maximum = ofUnsigned minimum.toNat (unsignedMaximum maximum))) ∧
    (∀ (request : Request) bounds, request.bounds = .ok bounds ↔ request.Describes bounds) ∧
    (∀ {ε : Type} (item : Expression ε) collector scope numbering resolved,
      item.resolve scope numbering = .ok resolved →
      (∀ (request : Request) grammar numbered,
        (Expression.repeated item collector request).resolve scope numbering =
            .ok (grammar, numbered) ↔
          ∃ bounds, request.Describes bounds ∧
            grammar = .repeated resolved.1 collector bounds ∧ numbered = resolved.2) ∧
      ∀ minimum maximum bounds,
        (∃ grammar numbered,
            (Expression.repeated item collector (.signed minimum maximum)).resolve scope numbering =
                .ok (grammar, numbered) ∧
              grammar.repeatBounds? = some bounds) ↔
          (0 ≤ minimum ∧ (maximum = -1 ∨ minimum ≤ maximum)) ∧
            ofUnsigned minimum.toNat (unsignedMaximum maximum) = .ok bounds) ∧
    ∀ bounds, Obtained bounds → ofDatum bounds.toDatum = .ok bounds := by
  refine ⟨fun minimum maximum => ⟨?_, ?_⟩, fun _ _ _ => ofUnsigned_eq_ok_iff,
    fun _ _ _ records _ => records.ofDatum_eq_ok_iff,
    fun minimum maximum => ⟨exists_ofSigned_iff, ofSigned_of_inOrder⟩,
    fun _ _ => Request.bounds_eq_ok_iff,
    fun _ _ _ _ _ inside => ⟨fun _ _ _ => resolve_repeated_iff_describes inside,
      fun _ _ _ => resolve_signed_iff inside⟩, ?_⟩
  · rintro ⟨bounds, obtained, rfl, rfl⟩
    exact ⟨obtained.fitWords, bounds.minimum_le⟩
  · rintro ⟨fits, order⟩
    have words : Request.OfWords (.unsigned minimum maximum) := fits
    have accepted : Request.bounds (.unsigned minimum maximum) = .ok _ :=
      ofUnsigned_of_inOrder order
    exact ⟨_, .requested words accepted, rfl, rfl⟩
  · intro bounds obtained
    exact (records_toDatum bounds).ofDatum_eq_ok_iff.mpr
      ⟨obtained.fitWords, bounds.minimum_le, rfl, rfl⟩

/-- Two to four matches, from a list; at least two, for a repetition; and exactly three, stored and
read again. -/
theorem obtained_bounds_in_order_small :
    (∃ bounds, ofDatum (.list [.ofNat 2, .ofNat 4]) = .ok bounds ∧ bounds.Has 2 (some 4)) ∧
    (∃ grammar numbered,
      (Expression.repeated (.basic (.succeed .unit) : Expression Char)
        (Collector.ofFold .unit (fun _ value => value) id) (.signed 2 (-1))).resolve [] {} =
          .ok (grammar, numbered) ∧
        grammar.repeatBounds? = some (RepeatBounds.atLeast 2)) ∧
    ofDatum (exactly 3).toDatum = .ok (exactly 3) := by
  obtain ⟨-, -, records, -, -, repetitions, stored⟩ := obtained_bounds_in_order
  have fits : FitWords 2 (some 4) := ⟨by decide, fun _ same => Option.some.inj same ▸ by decide⟩
  have order : InOrder 2 (some 4) := inOrder_some.mpr (by decide)
  refine ⟨⟨⟨2, some 4, order⟩, (records _ 2 (some 4) (.list (.number 4)) _).mpr
    ⟨fits, order, rfl, rfl⟩, rfl, rfl⟩, ?_, ?_⟩
  · exact ((repetitions (.basic (.succeed .unit)) _ [] {} _ rfl).2 2 (-1) _).mpr
      ⟨by decide, rfl⟩
  · have words : Request.OfWords (.exactly 3) := by
      change 3 < 2 ^ 64
      decide
    exact stored _ (.requested words rfl)

end RepeatBounds

end RecursiveDescent
