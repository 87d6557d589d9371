import RecursiveDescent.Proofs.FinishedRuns
import RecursiveDescent.Proofs.MachineRuns
import Mathlib.Data.ENat.Lattice
import Mathlib.Order.CompletePartialOrder

/-!
# Repetitions are bounded greedy chains

An item that is attempted again and again, each time behind the match before, matches some number
of times in a row before it fails for the first time, or it never fails.  A repetition follows this
chain as far as its maximum allows.  It ends if and only if the smaller one of the two numbers is
finite, and then it has attempted the item exactly at the positions on the way.

On a machine, the positions, the widths and the number of matches are words.  There a repetition
that would end comes to its outcome if and only if all of these numbers are words; otherwise one of
the sums overflows, and there is no outcome.

Divergence is the absence of a result for every number of rounds.  It needs infinitely many matches,
and when these stay inside the source, almost all of them have the width zero.
-/

namespace RecursiveDescent

variable {σ ε α β ν ω τ : Type}

/-! ### Chains of matches -/

def totalWidth (found : List (Nat × α)) : Nat :=
  (found.map Prod.fst).sum

/-- Where each of some matches starts, when they follow each other. -/
def startsOf : Nat → List (Nat × α) → List Nat
  | _, [] => []
  | start, (width, _) :: others => start :: startsOf (start + width) others

@[simp]
theorem totalWidth_append_singleton (found : List (Nat × α)) (width : Nat) (value : α) :
    totalWidth (found ++ [(width, value)]) = totalWidth found + width := by
  simp [totalWidth]

theorem startsOf_append_singleton (start : Nat) (found : List (Nat × α)) (width : Nat)
    (value : α) :
    startsOf start (found ++ [(width, value)]) =
      startsOf start found ++ [start + totalWidth found] := by
  induction found generalizing start with
  | nil => rfl
  | cons first others induction =>
      obtain ⟨firstWidth, firstValue⟩ := first
      simp only [List.cons_append, startsOf, induction, totalWidth, List.map_cons, List.sum_cons]
      rw [Nat.add_assoc]

namespace Parser

/-- The item matches some times in a row.  The accumulator is what the collector has made of the
values, and the state is that behind the last match. -/
inductive Reaches (item : Parser σ ε α) (collector : Collector (StateM σ) α β) (source : Array ε)
    (start : Nat) (state : σ) : List (Nat × α) → collector.Accumulator → σ → Prop where
  | nothing : Reaches item collector source start state [] (collector.supply state).1
      (collector.supply state).2
  | further {found accumulator current width value after}
      (reached : Reaches item collector source start state found accumulator current)
      (attempt : item source (start + totalWidth found) current =
        some (.success width value, after)) :
      Reaches item collector source start state (found ++ [(width, value)])
        (collector.accumulate accumulator value after).1
        (collector.accumulate accumulator value after).2

/-- How many times in a row the item matches before it fails for the first time. -/
noncomputable def matchesInARow (item : Parser σ ε α) (collector : Collector (StateM σ) α β)
    (source : Array ε) (start : Nat) (state : σ) : ℕ∞ :=
  ⨆ (found) (accumulator) (current)
    (_ : item.Reaches collector source start state found accumulator current), (found.length : ℕ∞)

/-- The repetition comes to a result, in some number of rounds. -/
def RepeatsTo (item : Parser σ ε α) (collector : Collector (StateM σ) α β)
    (bounds : RepeatBounds) (source : Array ε) (start : Nat) (state : σ)
    (result : Outcome β × σ) : Prop :=
  ∃ rounds, Parser.repeated rounds item collector bounds source start state = some result

/-- Every attempt on the source comes to a result. -/
def Terminates (item : Parser σ ε α) (source : Array ε) : Prop :=
  ∀ position state, ∃ result, item source position state = some result

/-- No match consumes more elements than there are. -/
def StaysInside (item : Parser σ ε α) (source : Array ε) : Prop :=
  ∀ position state width value after,
    item source position state = some (.success width value, after) →
      width ≤ source.size - position

/-- Where the item has matched nothing, it matches nothing again when the collector has taken the
value in. -/
def IsSteady (item : Parser σ ε α) (collector : Collector (StateM σ) α β) (source : Array ε) :
    Prop :=
  ∀ position state value after, item source position state = some (.success 0 value, after) →
    ∀ accumulator, ∃ again last,
      item source position (collector.accumulate accumulator value after).2 =
        some (.success 0 again, last)

/-- Somewhere on the way the item matches nothing. -/
def ReachesEmptyMatch (item : Parser σ ε α) (collector : Collector (StateM σ) α β)
    (source : Array ε) (start : Nat) (state : σ) : Prop :=
  ∃ found accumulator current value after,
    item.Reaches collector source start state found accumulator current ∧
      item source (start + totalWidth found) current = some (.success 0 value, after)

variable {item : Parser σ ε α} {collector : Collector (StateM σ) α β} {bounds : RepeatBounds}
  {source : Array ε} {start : Nat} {state current : σ} {found : List (Nat × α)}
  {accumulator : collector.Accumulator}

theorem RepeatsTo.unique {result other : Outcome β × σ}
    (first : item.RepeatsTo collector bounds source start state result)
    (second : item.RepeatsTo collector bounds source start state other) : result = other := by
  obtain ⟨rounds, finished⟩ := first
  obtain ⟨more, finishedToo⟩ := second
  have same := Approximates.refl item
  have left := same.repeated collector bounds (Nat.le_max_left rounds more) source start state
    result finished
  have right := same.repeated collector bounds (Nat.le_max_right rounds more) source start state
    other finishedToo
  exact Option.some.inj (left.symm.trans right)

/-- The beginning of a chain is a chain. -/
theorem Reaches.exists_of_le
    (reached : item.Reaches collector source start state found accumulator current) {count : Nat}
    (fewer : count ≤ found.length) :
    ∃ beginning held middle, item.Reaches collector source start state beginning held middle ∧
      beginning.length = count := by
  induction reached with
  | nothing => exact ⟨[], _, _, .nothing, (Nat.le_zero.mp fewer).symm⟩
  | @further found accumulator current width value after reached attempt induction =>
      rw [List.length_append, List.length_singleton] at fewer
      rcases Nat.le_succ_iff.mp fewer with less | whole
      · exact induction less
      · exact ⟨_, _, _, reached.further attempt, by simp [whole]⟩

theorem le_matchesInARow_iff (count : Nat) :
    (count : ℕ∞) ≤ item.matchesInARow collector source start state ↔
      ∃ found accumulator current,
        item.Reaches collector source start state found accumulator current ∧
          found.length = count := by
  constructor
  · intro least
    by_contra missing
    -- Without a chain of this length all chains are shorter, so their supremum is.
    have shorter (found accumulator current)
        (reached : item.Reaches collector source start state found accumulator current) :
        found.length < count := by
      by_contra longer
      exact missing (reached.exists_of_le (Nat.le_of_not_lt longer))
    have empty := shorter [] _ _ .nothing
    obtain ⟨fewer, rfl⟩ : ∃ fewer, count = fewer + 1 := ⟨count - 1, by omega⟩
    have most : item.matchesInARow collector source start state ≤ fewer :=
      iSup_le fun found => iSup_le fun accumulator => iSup_le fun current =>
        iSup_le fun reached =>
          Nat.cast_le.mpr (Nat.le_of_lt_succ (shorter found accumulator current reached))
    have impossible : fewer + 1 ≤ fewer := Nat.cast_le.mp (least.trans most)
    omega
  · rintro ⟨found, accumulator, current, reached, rfl⟩
    exact le_iSup_of_le found <| le_iSup_of_le accumulator <| le_iSup_of_le current <|
      le_iSup_of_le reached le_rfl

/-! ### The loop follows the chain -/

/-- The loop goes along a chain as far as the bounds allow. -/
theorem repeated_of_reaches
    (reached : item.Reaches collector source start state found accumulator current)
    (allowed : ∀ count < found.length, bounds.allowsMore count) (rounds : Nat) :
    repeated (rounds + found.length) item collector bounds source start state =
      repeatLoop item collector bounds source start rounds found.length (totalWidth found)
        accumulator current := by
  induction reached generalizing rounds with
  | nothing => rfl
  | @further found accumulator current width value after reached attempt induction =>
      rw [List.length_append, List.length_singleton] at allowed ⊢
      have before := induction (fun count fewer => allowed count (by omega)) (rounds + 1)
      have more := allowed found.length (Nat.lt_succ_self _)
      rw [Nat.add_right_comm, Nat.add_assoc] at before
      rw [before, repeatLoop_succ, if_pos more, Attempt.bind_apply, attempt,
        totalWidth_append_singleton]
      rfl

/-- The loop of a repetition ends behind a chain, in the state after the last attempt: that is one
that fails, or there is none because the bounds are exhausted. -/
def StopsAt (item : Parser σ ε α) (bounds : RepeatBounds) (source : Array ε) (start : Nat)
    (found : List (Nat × α)) (current after : σ) : Prop :=
  if bounds.allowsMore found.length then
    item source (start + totalWidth found) current = some (.failure, after)
  else
    after = current

/-- What a repetition that ends comes to. -/
def closed (collector : Collector (StateM σ) α β) (bounds : RepeatBounds) (found : List (Nat × α))
    (accumulator : collector.Accumulator) (after : σ) : Outcome β × σ :=
  if found.length < bounds.minimum then
    (.failure, after)
  else
    (.success (totalWidth found) (collector.finish accumulator after).1,
      (collector.finish accumulator after).2)

theorem closeRepetition_apply (collector : Collector (StateM σ) α β) (bounds : RepeatBounds)
    (found : List (Nat × α)) (accumulator : collector.Accumulator) (after : σ) :
    closeRepetition collector bounds found.length (totalWidth found) accumulator after =
      some (closed collector bounds found accumulator after) := by
  unfold closeRepetition closed
  by_cases few : found.length < bounds.minimum
  · rw [if_pos few, if_pos few]
    rfl
  · rw [if_neg few, if_neg few]
    rfl

theorem repeatLoop_of_stopsAt {after : σ}
    (stops : item.StopsAt bounds source start found current after) :
    repeatLoop item collector bounds source start 1 found.length (totalWidth found) accumulator
      current = some (closed collector bounds found accumulator after) := by
  unfold StopsAt at stops
  by_cases more : bounds.allowsMore found.length
  · rw [if_pos more] at stops
    rw [repeatLoop_succ, if_pos more, Attempt.bind_apply, stops]
    exact closeRepetition_apply collector bounds found accumulator after
  · rw [if_neg more] at stops
    rw [repeatLoop_succ, if_neg more, stops]
    exact closeRepetition_apply collector bounds found accumulator current

theorem repeatsTo_iff_of_stopsAt {after : σ} {result : Outcome β × σ}
    (reached : item.Reaches collector source start state found accumulator current)
    (allowed : ∀ count < found.length, bounds.allowsMore count)
    (stops : item.StopsAt bounds source start found current after) :
    item.RepeatsTo collector bounds source start state result ↔
      result = closed collector bounds found accumulator after := by
  have ends : item.RepeatsTo collector bounds source start state
      (closed collector bounds found accumulator after) :=
    ⟨_, (repeated_of_reaches reached allowed 1).trans (repeatLoop_of_stopsAt stops)⟩
  constructor
  · intro other
    exact other.unique ends
  · rintro rfl
    exact ends

end Parser

/-! ### How far a repetition follows the chain -/

namespace RepeatBounds

def limit (bounds : RepeatBounds) : ℕ∞ :=
  bounds.maximum.elim ⊤ Nat.cast

theorem allowsMore_of_lt_minimum (bounds : RepeatBounds) {count : Nat}
    (few : count < bounds.minimum) : bounds.allowsMore count := by
  unfold allowsMore
  cases limited : bounds.maximum with
  | none => rfl
  | some limit => simpa using few.trans_le (bounds.minimum_le limit limited)

theorem allowsMore_iff (bounds : RepeatBounds) (count : Nat) :
    bounds.allowsMore count ↔ (count : ℕ∞) < bounds.limit := by
  unfold allowsMore limit
  cases bounds.maximum with
  | none => simp
  | some limit => simp

end RepeatBounds

namespace Parser

variable {item : Parser σ ε α} {collector : Collector (StateM σ) α β} {bounds : RepeatBounds}
  {source : Array ε} {start : Nat} {state current : σ} {found : List (Nat × α)}
  {accumulator : collector.Accumulator}

theorem allowed_of_le_limit {count : Nat} (within : (count : ℕ∞) ≤ bounds.limit) :
    ∀ fewer < count, bounds.allowsMore fewer := by
  intro fewer less
  rw [RepeatBounds.allowsMore_iff]
  exact lt_of_lt_of_le (Nat.cast_lt.mpr less) within

/-- Where the chain or the maximum is finite, the loop stops behind as many matches as the smaller
of the two says. -/
theorem exists_stopsAt (terminates : item.Terminates source) {count : Nat}
    (total : min (item.matchesInARow collector source start state) bounds.limit = count) :
    ∃ found accumulator current after,
      item.Reaches collector source start state found accumulator current ∧
        found.length = count ∧ (∀ fewer < count, bounds.allowsMore fewer) ∧
          item.StopsAt bounds source start found current after := by
  obtain ⟨found, accumulator, current, reached, rfl⟩ :=
    (le_matchesInARow_iff count).mp (total.symm.le.trans (min_le_left _ _))
  have allowed : ∀ fewer < found.length, bounds.allowsMore fewer :=
    allowed_of_le_limit (total.symm.le.trans (min_le_right _ _))
  by_cases more : bounds.allowsMore found.length
  · obtain ⟨⟨outcome, after⟩, attempt⟩ := terminates (start + totalWidth found) current
    cases outcome with
    | failure =>
        refine ⟨found, accumulator, current, after, reached, rfl, allowed, ?_⟩
        rwa [StopsAt, if_pos more]
    | success width value =>
        -- One more match would be part of the chain and within the bounds.
        have further : ((found.length + 1 : Nat) : ℕ∞) ≤
            item.matchesInARow collector source start state :=
          (le_matchesInARow_iff _).mpr ⟨_, _, _, reached.further attempt, by simp⟩
        have within : ((found.length + 1 : Nat) : ℕ∞) ≤ bounds.limit :=
          Order.add_one_le_of_lt ((bounds.allowsMore_iff _).mp more)
        have impossible := Nat.cast_le.mp ((le_min further within).trans total.le)
        omega
  · refine ⟨found, accumulator, current, current, reached, rfl, allowed, ?_⟩
    rw [StopsAt, if_neg more]

theorem exists_repeatsTo_iff (terminates : item.Terminates source) :
    (∃ result, item.RepeatsTo collector bounds source start state result) ↔
      min (item.matchesInARow collector source start state) bounds.limit ≠ ⊤ := by
  constructor
  · rintro ⟨result, rounds, finished⟩ endless
    obtain ⟨matching, unlimited⟩ := min_eq_top.mp endless
    obtain ⟨found, accumulator, current, reached, rfl⟩ :=
      (le_matchesInARow_iff rounds).mp (matching ▸ le_top)
    have unfinished := repeated_of_reaches reached
      (allowed_of_le_limit (unlimited ▸ le_top)) 0
    rw [Nat.zero_add, finished] at unfinished
    cases unfinished
  · intro finite
    obtain ⟨count, total⟩ := ENat.ne_top_iff_exists.mp finite
    obtain ⟨found, accumulator, current, after, reached, rfl, allowed, stops⟩ :=
      exists_stopsAt terminates total.symm
    exact ⟨_, (repeatsTo_iff_of_stopsAt reached allowed stops).mpr rfl⟩

end Parser

/-! ### Matches of width zero -/

namespace Parser

variable {item : Parser σ ε α} {collector : Collector (StateM σ) α β} {bounds : RepeatBounds}
  {source : Array ε} {start : Nat} {state current after : σ} {found : List (Nat × α)}
  {accumulator : collector.Accumulator} {value : α}

/-- An item is steady if its outcome depends on the position, but not on the state. -/
theorem isSteady_of_outcome (terminates : item.Terminates source)
    (same : ∀ position state other,
      (item source position state).map Prod.fst = (item source position other).map Prod.fst) :
    item.IsSteady collector source := by
  intro position state value after attempt accumulator
  obtain ⟨⟨outcome, last⟩, again⟩ :=
    terminates position (collector.accumulate accumulator value after).2
  have equal := same position (collector.accumulate accumulator value after).2 state
  rw [again, attempt] at equal
  obtain rfl : outcome = .success 0 value := Option.some.inj equal
  exact ⟨value, last, again⟩

/-- Matches that stay inside the source and are not empty cannot be more than there is left. -/
theorem Reaches.length_le (inside : item.StaysInside source)
    (consuming : ¬ item.ReachesEmptyMatch collector source start state)
    (reached : item.Reaches collector source start state found accumulator current) :
    found.length ≤ totalWidth found ∧ totalWidth found ≤ source.size - start := by
  induction reached with
  | nothing => exact ⟨Nat.zero_le _, Nat.zero_le _⟩
  | @further found accumulator current width value after reached attempt induction =>
      have some_width : width ≠ 0 := by
        rintro rfl
        exact consuming ⟨found, accumulator, current, value, after, reached, attempt⟩
      have little := inside _ _ _ _ _ attempt
      rw [List.length_append, List.length_singleton, totalWidth_append_singleton]
      omega

/-- A steady item that has matched nothing goes on to match nothing. -/
theorem Reaches.exists_longer (steady : item.IsSteady collector source)
    (reached : item.Reaches collector source start state found accumulator current)
    (attempt : item source (start + totalWidth found) current = some (.success 0 value, after))
    (more : Nat) :
    ∃ longer held last again next,
      item.Reaches collector source start state longer held last ∧
        longer.length = found.length + more ∧
          item source (start + totalWidth longer) last = some (.success 0 again, next) := by
  induction more with
  | zero => exact ⟨found, accumulator, current, value, after, reached, rfl, attempt⟩
  | succ more induction =>
      obtain ⟨longer, held, last, again, next, along, length, nothing⟩ := induction
      obtain ⟨value, after, repeats⟩ := steady _ _ _ _ nothing held
      refine ⟨_, _, _, value, after, along.further nothing, ?_, ?_⟩
      · rw [List.length_append, List.length_singleton, length, Nat.add_assoc]
      · rw [totalWidth_append_singleton, Nat.add_zero]
        exact repeats

theorem matchesInARow_ne_top (inside : item.StaysInside source)
    (consuming : ¬ item.ReachesEmptyMatch collector source start state) :
    item.matchesInARow collector source start state ≠ ⊤ := by
  intro endless
  obtain ⟨found, accumulator, current, reached, length⟩ :=
    (le_matchesInARow_iff (source.size + 1)).mp (endless ▸ le_top)
  have short := reached.length_le inside consuming
  omega

theorem matchesInARow_eq_top (steady : item.IsSteady collector source)
    (empty : item.ReachesEmptyMatch collector source start state) :
    item.matchesInARow collector source start state = ⊤ := by
  obtain ⟨found, accumulator, current, value, after, reached, attempt⟩ := empty
  refine ENat.eq_top_iff_forall_ge.mpr fun count => ?_
  obtain ⟨longer, held, last, again, next, along, length, -⟩ :=
    reached.exists_longer steady attempt count
  have most := (le_matchesInARow_iff longer.length).mpr ⟨_, _, _, along, rfl⟩
  exact (Nat.cast_le.mpr (by omega)).trans most

end Parser

/-! ### Repetitions on a machine -/

namespace Parser

/-- A repetition in machine words.  The matches are counted in a word too, and after as many rounds
the count would be none. -/
def repeatedOnMachine (rounds : Nat) (item : Parser σ ε α) (collector : Collector (StateM σ) α β)
    (bounds : RepeatBounds) : Parser σ ε β :=
  (Parser.repeated (min rounds (2 ^ 64)) item.withinWords collector bounds).withinWords

/-- The repetition comes to a result on a machine, in some number of rounds. -/
def RepeatsOnMachine (item : Parser σ ε α) (collector : Collector (StateM σ) α β)
    (bounds : RepeatBounds) (source : Array ε) (start : Nat) (state : σ)
    (result : Outcome β × σ) : Prop :=
  ∃ rounds, Parser.repeatedOnMachine rounds item collector bounds source start state = some result

end Parser

/-- Where a repetition attempts its item along a chain: where each match starts, and once more
behind them unless the bounds are exhausted. -/
def attemptsOf (bounds : RepeatBounds) (start : Nat) (found : List (Nat × α)) : List Nat :=
  startsOf start found ++
    if bounds.allowsMore found.length then [start + totalWidth found] else []

/-- The numbers that a repetition calculates along a chain are words. -/
structure CountsInWords (bounds : RepeatBounds) (start : Nat) (found : List (Nat × α)) : Prop where
  count : found.length < 2 ^ 64
  width : totalWidth found < 2 ^ 64
  positions : ∀ position ∈ attemptsOf bounds start found, position < 2 ^ 64

theorem le_of_mem_startsOf {start position : Nat} {found : List (Nat × α)}
    (member : position ∈ startsOf start found) : position ≤ start + totalWidth found := by
  induction found generalizing start with
  | nil => cases member
  | cons first others induction =>
      obtain ⟨width, value⟩ := first
      simp only [totalWidth, List.map_cons, List.sum_cons] at induction ⊢
      rcases List.mem_cons.mp member with rfl | later
      · omega
      · have bounded := induction later
        omega

theorem le_of_mem_attemptsOf {bounds : RepeatBounds} {start position : Nat}
    {found : List (Nat × α)} (member : position ∈ attemptsOf bounds start found) :
    position ≤ start + totalWidth found := by
  rcases List.mem_append.mp member with starts | behind
  · exact le_of_mem_startsOf starts
  · split at behind
    · exact (List.mem_singleton.mp behind).le
    · cases behind

namespace Parser

variable {item : Parser σ ε α} {collector : Collector (StateM σ) α β} {bounds : RepeatBounds}
  {source : Array ε} {start rounds : Nat} {state current after : σ} {found : List (Nat × α)}
  {accumulator : collector.Accumulator} {result : Outcome β × σ}

/-- A repetition that ends has attempted its item behind each match that it may follow. -/
theorem exists_attempt_of_repeated
    (reached : item.Reaches collector source start state found accumulator current)
    (allowed : ∀ count < found.length, bounds.allowsMore count)
    (more : bounds.allowsMore found.length)
    (finished : repeated rounds item collector bounds source start state = some result) :
    ∃ ended, item source (start + totalWidth found) current = some ended := by
  have enough : rounds ≤ rounds + 1 + found.length := by omega
  have longer := (Approximates.refl item).repeated collector bounds enough source start state
    result finished
  rw [repeated_of_reaches reached allowed, repeatLoop_succ, if_pos more,
    Attempt.bind_eq_some_iff] at longer
  obtain ⟨outcome, middle, attempt, -⟩ := longer
  exact ⟨_, attempt⟩

/-- Every match takes a round, and one more round is needed to stop. -/
theorem length_lt_of_repeated
    (reached : item.Reaches collector source start state found accumulator current)
    (allowed : ∀ count < found.length, bounds.allowsMore count)
    (finished : repeated rounds item collector bounds source start state = some result) :
    found.length < rounds := by
  by_contra few
  obtain ⟨beginning, held, middle, begun, rfl⟩ := reached.exists_of_le (Nat.le_of_not_lt few)
  have unfinished := repeated_of_reaches begun (fun count less => allowed count (by omega)) 0
  rw [Nat.zero_add, finished] at unfinished
  cases unfinished

theorem Reaches.lt_of_mem_startsOf
    (reached : item.withinWords.Reaches collector source start state found accumulator current) :
    ∀ position ∈ startsOf start found, position < 2 ^ 64 := by
  induction reached with
  | nothing => exact fun position absent => absurd absent List.not_mem_nil
  | further reached attempt induction =>
      intro position member
      rw [startsOf_append_singleton] at member
      rcases List.mem_append.mp member with earlier | last
      · exact induction position earlier
      · rw [List.mem_singleton.mp last]
        exact (withinWords_eq_some_iff.mp attempt).1

/-- Along a chain in words, the item does on a machine what it does otherwise. -/
theorem Reaches.withinWords
    (reached : item.Reaches collector source start state found accumulator current)
    (positions : ∀ position ∈ startsOf start found, position < 2 ^ 64)
    (short : totalWidth found < 2 ^ 64) :
    item.withinWords.Reaches collector source start state found accumulator current := by
  induction reached with
  | nothing => exact .nothing
  | @further found accumulator current width value after reached attempt induction =>
      rw [startsOf_append_singleton] at positions
      rw [totalWidth_append_singleton] at short
      have before := induction
        (fun position member => positions position (List.mem_append_left _ member)) (by omega)
      have position : start + totalWidth found < 2 ^ 64 := positions _ (by simp)
      have narrow : width < 2 ^ 64 := by omega
      exact before.further (withinWords_eq_some_iff.mpr ⟨position, narrow, attempt⟩)

/-- A repetition that ends on a machine has gone along the chain there. -/
theorem Reaches.withinWords_of_repeated
    (reached : item.Reaches collector source start state found accumulator current)
    (allowed : ∀ count < found.length, bounds.allowsMore count)
    (finished : repeated rounds item.withinWords collector bounds source start state =
      some result) :
    item.withinWords.Reaches collector source start state found accumulator current := by
  induction reached with
  | nothing => exact .nothing
  | @further found accumulator current width value after reached attempt induction =>
      rw [List.length_append, List.length_singleton] at allowed
      have earlier : ∀ count < found.length, bounds.allowsMore count :=
        fun count less => allowed count (by omega)
      have before := induction earlier
      obtain ⟨ended, there⟩ :=
        exists_attempt_of_repeated before earlier (allowed _ (Nat.lt_succ_self _)) finished
      have same := (withinWords_eq_some_iff.mp there).2.2
      rw [attempt] at same
      cases same
      exact before.further there

theorem StopsAt.withinWords (stops : item.StopsAt bounds source start found current after)
    (position : bounds.allowsMore found.length → start + totalWidth found < 2 ^ 64) :
    item.withinWords.StopsAt bounds source start found current after := by
  unfold StopsAt at stops ⊢
  by_cases more : bounds.allowsMore found.length
  · rw [if_pos more] at stops ⊢
    exact withinWords_eq_some_iff.mpr ⟨position more, Nat.two_pow_pos 64, stops⟩
  · rw [if_neg more] at stops ⊢
    exact stops

theorem RepeatsOnMachine.repeatsTo
    (repeats : item.RepeatsOnMachine collector bounds source start state result) :
    item.RepeatsTo collector bounds source start state result := by
  obtain ⟨rounds, finished⟩ := repeats
  exact ⟨_, (Approximates.refl item).withinWords.repeated collector bounds le_rfl source start
    state result (withinWords_eq_some_iff.mp finished).2.2⟩

theorem RepeatsOnMachine.countsInWords
    (repeats : item.RepeatsOnMachine collector bounds source start state
      (closed collector bounds found accumulator after))
    (reached : item.Reaches collector source start state found accumulator current)
    (allowed : ∀ count < found.length, bounds.allowsMore count) :
    CountsInWords bounds start found := by
  obtain ⟨rounds, finished⟩ := repeats
  obtain ⟨-, short, looped⟩ := withinWords_eq_some_iff.mp finished
  have along := reached.withinWords_of_repeated allowed looped
  have behind (more : bounds.allowsMore found.length) : start + totalWidth found < 2 ^ 64 := by
    obtain ⟨ended, attempt⟩ := exists_attempt_of_repeated along allowed more looped
    exact (withinWords_eq_some_iff.mp attempt).1
  refine ⟨?_, ?_, fun position member => ?_⟩
  · exact (length_lt_of_repeated along allowed looped).trans_le (Nat.min_le_right _ _)
  · -- A failure does not show the width, but it comes from an attempt behind the matches.
    by_cases few : found.length < bounds.minimum
    · have position := behind (bounds.allowsMore_of_lt_minimum few)
      omega
    · rw [closed, if_neg few] at short
      exact short
  · rcases List.mem_append.mp member with starts | last
    · exact along.lt_of_mem_startsOf position starts
    · split at last
      case isTrue more =>
        rw [List.mem_singleton.mp last]
        exact behind more
      case isFalse exhausted => cases last

theorem repeatsOnMachine_of_countsInWords (counts : CountsInWords bounds start found)
    (word : start < 2 ^ 64)
    (reached : item.Reaches collector source start state found accumulator current)
    (allowed : ∀ count < found.length, bounds.allowsMore count)
    (stops : item.StopsAt bounds source start found current after) :
    item.RepeatsOnMachine collector bounds source start state
      (closed collector bounds found accumulator after) := by
  have along := reached.withinWords
    (fun position member => counts.positions position (List.mem_append_left _ member))
    counts.width
  have there := stops.withinWords fun more =>
    counts.positions _ (List.mem_append_right _ (by rw [if_pos more]; exact .head _))
  have enough : min (1 + found.length) (2 ^ 64) = 1 + found.length := by
    have count := counts.count
    omega
  refine ⟨1 + found.length, withinWords_eq_some_iff.mpr ⟨word, ?_, ?_⟩⟩
  · unfold closed
    split
    · exact Nat.two_pow_pos 64
    · exact counts.width
  · rw [enough]
    exact (repeated_of_reaches along allowed 1).trans (repeatLoop_of_stopsAt there)

/-- A repetition with a chain behind which it stops ends on a machine if and only if all its numbers
are words. -/
theorem repeatsOnMachine_iff_of_stopsAt (word : start < 2 ^ 64)
    (reached : item.Reaches collector source start state found accumulator current)
    (allowed : ∀ count < found.length, bounds.allowsMore count)
    (stops : item.StopsAt bounds source start found current after) :
    item.RepeatsOnMachine collector bounds source start state result ↔
      CountsInWords bounds start found ∧
        result = closed collector bounds found accumulator after := by
  constructor
  · intro repeats
    obtain rfl := (repeatsTo_iff_of_stopsAt reached allowed stops).mp repeats.repeatsTo
    exact ⟨repeats.countsInWords reached allowed, rfl⟩
  · rintro ⟨counts, rfl⟩
    exact repeatsOnMachine_of_countsInWords counts word reached allowed stops

/-- Matches that stay inside a source that words can address, and of which none is empty, lead to
words only. -/
theorem Reaches.countsInWords (inside : item.StaysInside source)
    (consuming : ¬ item.ReachesEmptyMatch collector source start state)
    (reached : item.Reaches collector source start state found accumulator current)
    (word : start < 2 ^ 64) (addressed : source.size < 2 ^ 64) :
    CountsInWords bounds start found := by
  obtain ⟨count, width⟩ := reached.length_le inside consuming
  refine ⟨by omega, by omega, fun position member => ?_⟩
  have bounded := le_of_mem_attemptsOf member
  omega

/-- Matches that stay inside such a source, and of which none is empty, come to an end. -/
theorem exists_repeatsOnMachine_of_inside (terminates : item.Terminates source)
    (inside : item.StaysInside source)
    (consuming : ¬ item.ReachesEmptyMatch collector source start state)
    (word : start < 2 ^ 64) (addressed : source.size < 2 ^ 64) :
    ∃ result, item.RepeatsOnMachine collector bounds source start state result := by
  have ends := matchesInARow_ne_top inside consuming
  obtain ⟨count, total⟩ :
      ∃ count : ℕ, count = min (item.matchesInARow collector source start state) bounds.limit :=
    ENat.ne_top_iff_exists.mp (ne_top_of_le_ne_top ends (min_le_left _ _))
  obtain ⟨found, accumulator, current, after, reached, rfl, allowed, stops⟩ :=
    exists_stopsAt terminates total.symm
  exact ⟨_, (repeatsOnMachine_iff_of_stopsAt word reached allowed stops).mpr
    ⟨reached.countsInWords inside consuming word addressed, rfl⟩⟩

end Parser

/-! ### Noting attempts -/

def besideEffect {δ : Type} (effect : StateM σ δ) : StateM (σ × τ) δ := fun state =>
  ((effect state.1).1, (effect state.1).2, state.2)

/-- The collector on the first part of a state. -/
abbrev Collector.beside (τ : Type) (collector : Collector (StateM σ) α β) :
    Collector (StateM (σ × τ)) α β :=
  collector.transport besideEffect

namespace Parser

/-- Notes where each attempt is made. -/
def noting (item : Parser σ ε α) : Parser (σ × List Nat) ε α := fun source start state =>
  (item source start state.1).map fun result => (result.1, result.2, state.2 ++ [start])

variable {item : Parser σ ε α} {collector : Collector (StateM σ) α β} {bounds : RepeatBounds}
  {source : Array ε} {start : Nat} {state current after : σ} {found : List (Nat × α)}
  {accumulator : collector.Accumulator}

theorem noting_apply {outcome : Outcome α}
    (attempt : item source start state = some (outcome, after)) (noted : List Nat) :
    item.noting source start (state, noted) = some (outcome, after, noted ++ [start]) := by
  unfold noting
  rw [attempt]
  rfl

/-- Along a chain, the item is attempted once where each match starts. -/
theorem Reaches.noting
    (reached : item.Reaches collector source start state found accumulator current) :
    item.noting.Reaches (collector.beside (List Nat)) source start (state, []) found accumulator
      (current, startsOf start found) := by
  induction reached with
  | nothing => exact .nothing
  | @further found accumulator current width value after reached attempt induction =>
      rw [startsOf_append_singleton]
      exact .further induction (noting_apply attempt (startsOf start found))

theorem StopsAt.noting (stops : item.StopsAt bounds source start found current after)
    (noted : List Nat) :
    item.noting.StopsAt bounds source start found (current, noted)
      (after, noted ++ if bounds.allowsMore found.length then [start + totalWidth found]
        else []) := by
  unfold StopsAt at stops ⊢
  by_cases more : bounds.allowsMore found.length
  · rw [if_pos more] at stops
    rw [if_pos more, if_pos more]
    exact noting_apply stops noted
  · rw [if_neg more] at stops
    rw [if_neg more, if_neg more, stops, List.append_nil]

theorem closed_beside (noted : List Nat) :
    closed (collector.beside (List Nat)) bounds found accumulator (after, noted) =
      ((closed collector bounds found accumulator after).1,
        (closed collector bounds found accumulator after).2, noted) := by
  unfold closed
  by_cases few : found.length < bounds.minimum
  · rw [if_pos few, if_pos few]
  · rw [if_neg few, if_neg few]
    rfl

end Parser

/-! ### Collectors that emit notices -/

/-- Enters the notices of an emission into a state, in their order. -/
def Emission.entering {δ : Type} (enter : ω → σ → σ) (emission : Emission ω δ) : StateM σ δ :=
  fun state =>
    (emission.value, emission.emitted.foldl (fun state notice => enter notice state) state)

/-- The collector with its notices entered into a state. -/
abbrev Collector.entering (enter : ω → σ → σ) (collector : Collector (Emission ω) α β) :
    Collector (StateM σ) α β :=
  collector.transport (Emission.entering enter)

theorem Emission.value_foldlM {γ : Type} (step : γ → α → Emission ω γ) (values : List α)
    (initial : γ) :
    (values.foldlM step initial).value =
      values.foldl (fun accumulator value => (step accumulator value).value) initial := by
  induction values generalizing initial with
  | nil => rfl
  | cons value values induction =>
      rw [List.foldlM_cons, Emission.value_bind, induction]
      rfl

namespace Parser

variable {item : Parser σ ε α} {collector : Collector (Emission ω) α β} {enter : ω → σ → σ}
  {bounds : RepeatBounds} {source : Array ε} {start : Nat} {state current : σ}
  {found : List (Nat × α)} {accumulator : (collector.entering enter).Accumulator}

theorem Reaches.accumulator_eq
    (reached : item.Reaches (collector.entering enter) source start state found accumulator
      current) :
    accumulator = (found.map Prod.snd).foldl
      (fun accumulator value => (collector.accumulate accumulator value).value)
      collector.supply.value := by
  induction reached with
  | nothing => rfl
  | @further found accumulator current width value after reached attempt induction =>
      rw [List.map_append, List.foldl_append, ← induction]
      rfl

theorem Reaches.value_finish
    (reached : item.Reaches (collector.entering enter) source start state found accumulator
      current) :
    (collector.finish accumulator).value = (collector.fold (found.map Prod.snd)).value := by
  unfold Collector.fold
  rw [Emission.value_bind, Emission.value_bind, Emission.value_foldlM, reached.accumulator_eq]

theorem fst_closed_entering {after : σ}
    (reached : item.Reaches (collector.entering enter) source start state found accumulator
      current) :
    (closed (collector.entering enter) bounds found accumulator after).1 =
      if found.length < bounds.minimum then .failure
      else .success (totalWidth found) (collector.fold (found.map Prod.snd)).value := by
  unfold closed
  by_cases few : found.length < bounds.minimum
  · rw [if_pos few, if_pos few]
  · rw [if_neg few, if_neg few, ← reached.value_finish]
    rfl

/-- A repetition of an item that terminates, on a machine.  Let `total` be the smaller one of the
number of times that the item matches in a row and of the maximum.

The repetition has no outcome unless `total` is finite.  If it is, consider the first `total`
matches.  The repetition has an outcome if and only if their number, what they consume together and
the positions of the attempts are words; otherwise a sum overflows.  It has then attempted the item
where each of these matches starts, in this order, and once more behind them if the maximum is not
reached; the attempts are those that `noting` notes, and the last one is the one that fails.  The
repetition fails below the minimum, and otherwise it consumes what the matches consume and folds
their values.

When the matches stay inside the source, a repetition without a maximum lacks an outcome only if the
item matches nothing somewhere on the way.  Then it lacks one, provided that the item is steady, as
it is if its outcome depends on the position alone (`isSteady_of_outcome`). -/
theorem repeated_is_greedy_chain (terminates : item.Terminates source)
    (collector : Collector (Emission ω) α β) (enter : ω → σ → σ) (bounds : RepeatBounds)
    {start : Nat} (word : start < 2 ^ 64) (state : σ) {total : ℕ∞}
    (least : total =
      min (item.matchesInARow (collector.entering enter) source start state) bounds.limit) :
    ((∃ result,
        item.RepeatsOnMachine (collector.entering enter) bounds source start state result) →
      total ≠ ⊤) ∧
    (∀ count : ℕ, total = count →
      ∃ found accumulator current after outcome final,
        item.Reaches (collector.entering enter) source start state found accumulator current ∧
        found.length = count ∧
        (count < bounds.limit →
          item source (start + totalWidth found) current = some (.failure, after)) ∧
        (outcome =
          if count < bounds.minimum then .failure
          else .success (totalWidth found) (collector.fold (found.map Prod.snd)).value) ∧
        (∀ result,
          item.RepeatsOnMachine (collector.entering enter) bounds source start state result ↔
            CountsInWords bounds start found ∧ result = (outcome, final)) ∧
        ∀ result,
          item.noting.RepeatsOnMachine ((collector.entering enter).beside (List Nat)) bounds source
              start (state, []) result ↔
            CountsInWords bounds start found ∧
              result = (outcome, final, attemptsOf bounds start found)) ∧
    (bounds.maximum = none → item.StaysInside source → source.size < 2 ^ 64 →
      ((∀ result,
          ¬ item.RepeatsOnMachine (collector.entering enter) bounds source start state result) →
        item.ReachesEmptyMatch (collector.entering enter) source start state) ∧
      (item.IsSteady (collector.entering enter) source →
        item.ReachesEmptyMatch (collector.entering enter) source start state →
          ∀ result,
            ¬ item.RepeatsOnMachine (collector.entering enter) bounds source start state
              result)) := by
  subst least
  have finite (repeats : ∃ result,
      item.RepeatsOnMachine (collector.entering enter) bounds source start state result) :
      min (item.matchesInARow (collector.entering enter) source start state) bounds.limit ≠ ⊤ := by
    obtain ⟨result, repeats⟩ := repeats
    exact (exists_repeatsTo_iff terminates).mp ⟨result, repeats.repeatsTo⟩
  refine ⟨finite, ?_, ?_⟩
  · intro count total
    obtain ⟨found, accumulator, current, after, reached, rfl, allowed, stops⟩ :=
      exists_stopsAt terminates total
    have noted := stops.noting (startsOf start found)
    refine ⟨found, accumulator, current, after,
      (closed (collector.entering enter) bounds found accumulator after).1,
      (closed (collector.entering enter) bounds found accumulator after).2, reached, rfl, ?_,
      fst_closed_entering reached,
      fun result => repeatsOnMachine_iff_of_stopsAt word reached allowed stops,
      fun result => ?_⟩
    · intro more
      unfold StopsAt at stops
      rwa [if_pos ((bounds.allowsMore_iff _).mpr more)] at stops
    · rw [repeatsOnMachine_iff_of_stopsAt word reached.noting allowed noted, closed_beside,
        attemptsOf]
  · intro unbounded inside addressed
    have unlimited : bounds.limit = ⊤ := by
      unfold RepeatBounds.limit
      rw [unbounded]
      rfl
    rw [unlimited, min_top_right] at finite
    constructor
    · intro unanswered
      by_contra consuming
      obtain ⟨result, repeats⟩ :=
        exists_repeatsOnMachine_of_inside terminates inside consuming word addressed
      exact unanswered result repeats
    · intro steady empty result repeats
      exact finite ⟨result, repeats⟩ (matchesInARow_eq_top steady empty)

def positiveElement : Parser Unit Nat Nat :=
  Parser.element (fun found => 0 < found) id

/-- Counts values, and has no notices to enter. -/
abbrev silentCount (σ : Type) : Collector (StateM σ) Nat Nat :=
  Collector.counting.entering fun (_ : Unit) state => state

theorem terminates_positiveElement (source : Array Nat) : positiveElement.Terminates source := by
  intro position state
  rw [positiveElement, element_eq_ofFunction]
  exact ⟨_, rfl⟩

/-- Two matches exhaust the bounds, so there is no attempt at the third element.  And matches of
nothing without a maximum never end. -/
theorem repeated_is_greedy_chain_twice :
    (∀ result,
      positiveElement.noting.RepeatsOnMachine ((silentCount Unit).beside (List Nat)) (.exactly 2)
          #[3, 5, 7] 0 ((), []) result ↔
        result = (.success 2 2, (), [0, 1])) ∧
    ∀ result,
      ¬ (Parser.succeed 1).RepeatsOnMachine (silentCount Unit) .zeroOrMore #[3, 5, 7] 0 ()
        result := by
  constructor
  · intro result
    have matching :
        ((2 : Nat) : ℕ∞) ≤ positiveElement.matchesInARow (silentCount Unit) #[3, 5, 7] 0 () :=
      (le_matchesInARow_iff 2).mpr
        ⟨[(1, 3), (1, 5)], _, _, .further (.further .nothing rfl) rfl, rfl⟩
    obtain ⟨-, chain, -⟩ := repeated_is_greedy_chain (terminates_positiveElement #[3, 5, 7])
      Collector.counting (fun (_ : Unit) state => state) (.exactly 2) (Nat.two_pow_pos 64) () rfl
    obtain ⟨found, accumulator, current, after, outcome, final, -, -, -, -, -, attempts⟩ :=
      chain 2 (min_eq_right matching)
    obtain ⟨counts, concrete⟩ := (attempts (.success 2 2, (), [0, 1])).mp ⟨3, by decide⟩
    rw [concrete, attempts result]
    exact and_iff_right counts
  · have terminates : (Parser.succeed 1 : Parser Unit Nat Nat).Terminates #[3, 5, 7] :=
      fun position state => ⟨_, rfl⟩
    obtain ⟨-, -, endless⟩ := repeated_is_greedy_chain terminates Collector.counting
      (fun (_ : Unit) state => state) .zeroOrMore (Nat.two_pow_pos 64) () rfl
    have inside : (Parser.succeed 1 : Parser Unit Nat Nat).StaysInside #[3, 5, 7] := by
      intro position state width value after attempt
      cases attempt
      exact Nat.zero_le _
    exact (endless rfl inside (by decide)).2 (isSteady_of_outcome terminates fun _ _ _ => rfl)
      ⟨[], _, _, 1, (), .nothing, rfl⟩

/-- Matches nothing, but only at the first attempt. -/
def nothingOnce : Parser Nat Nat Nat := fun _ _ attempts =>
  if attempts = 0 then some (.success 0 7, 1) else some (.failure, attempts)

/-- Matches more elements than any source has. -/
def leap : Parser Unit Nat Nat :=
  Parser.ofFunction fun _ _ => .success (2 ^ 64 - 1) 0

/-- An item that is not steady ends a repetition without a maximum behind an empty match.  And two
matches as the bounds ask for have no outcome, because the sum of their widths overflows. -/
theorem empty_match_ends_and_leaps_overflow :
    (nothingOnce.Terminates #[] ∧ nothingOnce.StaysInside #[] ∧
      nothingOnce.ReachesEmptyMatch (silentCount Nat) #[] 0 0 ∧
      nothingOnce.RepeatsOnMachine (silentCount Nat) .zeroOrMore #[] 0 0 (.success 0 1, 1)) ∧
    leap.Terminates #[] ∧
      (∃ accumulator current, leap.Reaches (silentCount Unit) #[] 0 ()
        [(2 ^ 64 - 1, 0), (2 ^ 64 - 1, 0)] accumulator current) ∧
      ∀ result, ¬ leap.RepeatsOnMachine (silentCount Unit) (.exactly 2) #[] 0 () result := by
  refine ⟨⟨fun position attempts => ?_, ?_, ?_, ⟨2, by decide⟩⟩, fun _ _ => ⟨_, rfl⟩, ?_, ?_⟩
  · unfold nothingOnce
    split <;> exact ⟨_, rfl⟩
  · intro position attempts width value after attempt
    unfold nothingOnce at attempt
    split at attempt <;> cases attempt
    exact Nat.zero_le _
  · exact ⟨[], _, _, 7, 1, .nothing, rfl⟩
  · exact ⟨_, _, .further (.further .nothing rfl) rfl⟩
  · intro result repeats
    have reached : leap.Reaches (silentCount Unit) #[] 0 ()
        [(2 ^ 64 - 1, 0), (2 ^ 64 - 1, 0)] _ _ := .further (.further .nothing rfl) rfl
    have stops : leap.StopsAt (.exactly 2) #[] 0 [(2 ^ 64 - 1, 0), (2 ^ 64 - 1, 0)] () () := rfl
    have allowed : ∀ count < 2, (RepeatBounds.exactly 2).allowsMore count := by decide
    have counts := (repeatsOnMachine_iff_of_stopsAt (by decide) reached allowed stops).mp repeats
    have width : 2 ^ 64 - 1 + (2 ^ 64 - 1 + 0) < 2 ^ 64 := counts.1.width
    omega

end Parser

/-! ### Repetitions of grammars -/

namespace Grammar

variable [DecidableEq ε] {rules : Rules ε ν} {source : Array ε} {start : Nat}
  {state : ParserState ν} {result : Outcome ν × ParserState ν}

open Classical in
/-- The parser that finishes wherever the grammar does. -/
noncomputable def completed (rules : Rules ε ν) (grammar : Grammar ε ν) :
    Parser (ParserState ν) ε ν := fun source start state =>
  if finishes : ∃ result, grammar.Finishes rules source start state result then
    some finishes.choose
  else
    none

theorem completed_eq_some_iff {grammar : Grammar ε ν} :
    grammar.completed rules source start state = some result ↔
      grammar.Finishes rules source start state result := by
  unfold completed
  split
  · rename_i finishes
    rw [Option.some_inj]
    constructor
    · rintro rfl
      exact finishes.choose_spec
    · exact fun other => finishes.choose_spec.unique other
  · rename_i unfinished
    simp only [reduceCtorEq, false_iff]
    exact fun finishes => unfinished ⟨result, finishes⟩

omit [DecidableEq ε] in
theorem journaled_eq_entering (collector : ValueCollector ν) :
    journaled collector = collector.entering ParserState.record :=
  rfl

/-- On a machine, a repetition of a grammar is a repetition of its parser. -/
theorem machineParser_repeated (rounds : Nat) (invoke : Nat → Parser (ParserState ν) ε ν)
    (item : Grammar ε ν) (collector : ValueCollector ν) (bounds : RepeatBounds) :
    (repeated item collector bounds).machineParser rounds invoke =
      Parser.repeatedOnMachine rounds (item.machineParser rounds invoke)
        (collector.entering ParserState.record) bounds := by
  have within : (item.machineParser rounds invoke).withinWords =
      item.machineParser rounds invoke := by
    unfold machineParser
    exact Parser.withinWords_idem
  rw [Parser.repeatedOnMachine, within, ← journaled_eq_entering, machineParser]

/-- A repetition of a grammar comes to what the loop makes of the grammar. -/
theorem finishes_repeated_iff_repeatsTo {item : Grammar ε ν} {collector : ValueCollector ν}
    {bounds : RepeatBounds} :
    (repeated item collector bounds).Finishes rules source start state result ↔
      (item.completed rules).RepeatsTo (collector.entering ParserState.record) bounds source start
        state result := by
  rw [← journaled_eq_entering]
  constructor
  · rintro ⟨steps, finished⟩
    rw [run_repeated] at finished
    have completes : (item.run rules steps).Approximates (item.completed rules) :=
      fun source start state result finished => completed_eq_some_iff.mpr ⟨steps, finished⟩
    exact ⟨steps, completes.repeated (journaled collector) bounds le_rfl source start state result
      finished⟩
  · rintro ⟨rounds, finished⟩
    induction rounds generalizing collector bounds start state result with
    | zero => cases finished
    | succ rounds induction =>
        by_cases more : bounds.allowsMore 0
        · rw [repeated_succ_apply rounds more] at finished
          obtain ⟨⟨outcome, middle⟩, begun, rest⟩ := Option.bind_eq_some_iff.mp finished
          have beginning := completed_eq_some_iff.mp begun
          cases outcome with
          | success width value =>
              obtain ⟨⟨ended, last⟩, followed, advanced⟩ := Option.map_eq_some_iff.mp rest
              cases advanced
              exact finishes_repeated_of_parts more beginning (induction followed)
          | failure =>
              cases rest
              have whole := finishes_repeated_of_parts more beginning
                (finishes_repetition_failure item collector bounds _ _)
              simpa [Outcome.advance, eventsAfter] using whole
        · refine ⟨rounds + 1, ?_⟩
          rw [run_repeated, ← finished, Parser.repeated_succ, Parser.repeated_succ]
          simp only [if_neg more]

end Grammar

end RecursiveDescent
