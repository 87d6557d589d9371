import RecursiveDescent.Proofs.Calls
import RecursiveDescent.Proofs.Transparency
import RecursiveDescent.Proofs.UntouchedTables
import RecursiveDescent.Statistics
import Mathlib.Data.Finset.Card

/-!
# What a memoized grammar answers in the course of time

A memo table does not know which source its entries were computed on.  So a memoized grammar that
is called on several sources does not in general answer as the grammar inside would.  What it does
answer, and what its table counts, can be told from the history of the calls alone: from where
they started and what they came to since the table was cleared last.

The main statement is about a grammar inside that is a function of source and position.  Whatever
has happened before, a call at a position with an earlier match repeats the earliest of them
without attempting the grammar inside, and every other call comes to what the grammar inside does
on the source at hand.  Clearing the table leads back to the beginning.
-/

namespace RecursiveDescent

variable {ε ν : Type}

/-- Calls of a memoized grammar, the latest first: where each started and what it came to. -/
abbrev CallHistory (ν : Type) : Type :=
  List (Nat × Outcome ν)

namespace CallHistory

/-- The earliest match at a position, as width and value. -/
def earliestMatch? (history : CallHistory ν) (position : Nat) : Option (Nat × ν) :=
  history.reverse.findSome? fun call => if call.1 = position then call.2.parts else none

/-- How many calls had a match at their position before them. -/
def repeatedCalls : CallHistory ν → Nat
  | [] => 0
  | call :: earlier =>
      if (earliestMatch? earlier call.1).isSome then
        repeatedCalls earlier + 1
      else
        repeatedCalls earlier

/-- How many calls had no match at their position before them. -/
def firstCalls : CallHistory ν → Nat
  | [] => 0
  | call :: earlier =>
      if (earliestMatch? earlier call.1).isSome then firstCalls earlier else firstCalls earlier + 1

def matchedPositions (history : CallHistory ν) : Finset Nat :=
  ((history.filter fun call => call.2.isSuccess).map Prod.fst).toFinset

/-- The calls since the table in a cell was cleared last, behind a former history and some more
calls with their outcomes. -/
def extendedBy (cell : Nat) :
    CallHistory ν → List (Call ε) → List (Outcome ν) → CallHistory ν
  | history, .parse _ start :: calls, outcome :: outcomes =>
      extendedBy cell ((start, outcome) :: history) calls outcomes
  | history, .clear other :: calls, outcomes =>
      extendedBy cell (if other = cell then [] else history) calls outcomes
  | history, _, _ => history

theorem earliestMatch?_cons (call : Nat × Outcome ν) (earlier : CallHistory ν) (position : Nat) :
    earliestMatch? (call :: earlier) position =
      (earliestMatch? earlier position).or
        (if call.1 = position then call.2.parts else none) := by
  simp [earliestMatch?, List.findSome?_append]

theorem matchedPositions_cons (call : Nat × Outcome ν) (earlier : CallHistory ν) :
    matchedPositions (call :: earlier) =
      if call.2.isSuccess then insert call.1 (matchedPositions earlier)
      else matchedPositions earlier := by
  by_cases matched : call.2.isSuccess <;> simp [matchedPositions, matched]

theorem matchedPositions_cons_success (earlier : CallHistory ν) (start width : Nat) (value : ν) :
    matchedPositions ((start, .success width value) :: earlier) =
      insert start (matchedPositions earlier) :=
  (matchedPositions_cons _ earlier).trans (if_pos rfl)

theorem mem_matchedPositions_iff (history : CallHistory ν) (position : Nat) :
    position ∈ history.matchedPositions ↔ (history.earliestMatch? position).isSome := by
  induction history with
  | nil => simp [matchedPositions, earliestMatch?]
  | cons call earlier induction =>
      obtain ⟨start, outcome⟩ := call
      rw [matchedPositions_cons, earliestMatch?_cons, Option.isSome_or]
      cases outcome with
      | failure => simp [Outcome.isSuccess, Outcome.parts, induction]
      | success width value =>
          by_cases here : start = position
          · simp [Outcome.isSuccess, Outcome.parts, here]
          · have elsewhere : ¬ position = start := fun equal => here equal.symm
            simp [Outcome.isSuccess, here, elsewhere, induction]

end CallHistory

/-! ### Tables that reflect a history -/

namespace MemoTable

/-- A memo table remembers and counts what has happened since it was cleared. -/
structure Reflects (table : MemoTable ν) (history : CallHistory ν) : Prop where
  lookup : ∀ position, table.lookup? position = history.earliestMatch? position
  hits : table.hits = history.repeatedCalls
  misses : table.misses = history.firstCalls
  size : table.size = history.matchedPositions.card

namespace Reflects

variable {table : MemoTable ν} {history : CallHistory ν} {start width : Nat} {value : ν}

theorem empty : (MemoTable.empty : MemoTable ν).Reflects [] where
  lookup position := lookup?_empty position
  hits := rfl
  misses := rfl
  size := rfl

/-- An answer repeats the earliest match, so it adds nothing but to the count of answers. -/
theorem countHit (reflects : table.Reflects history)
    (remembered : table.lookup? start = some (width, value)) :
    table.countHit.Reflects ((start, .success width value) :: history) := by
  have earlier : history.earliestMatch? start = some (width, value) := by
    rw [← reflects.lookup, remembered]
  constructor
  · intro position
    rw [lookup?_countHit, reflects.lookup, CallHistory.earliestMatch?_cons]
    by_cases here : start = position
    · subst here
      simp [earlier]
    · simp [here]
  · simp [CallHistory.repeatedCalls, earlier, MemoTable.countHit, reflects.hits]
  · simp [CallHistory.firstCalls, earlier, MemoTable.countHit, reflects.misses]
  · have known : start ∈ history.matchedPositions := by
      rw [CallHistory.mem_matchedPositions_iff, earlier]
      rfl
    rw [CallHistory.matchedPositions_cons_success, Finset.insert_eq_of_mem known]
    exact reflects.size

theorem countMiss (reflects : table.Reflects history) (forgotten : table.lookup? start = none) :
    table.countMiss.Reflects ((start, .failure) :: history) := by
  have never : history.earliestMatch? start = none := by
    rw [← reflects.lookup, forgotten]
  constructor
  · intro position
    rw [lookup?_countMiss, reflects.lookup, CallHistory.earliestMatch?_cons]
    simp [Outcome.parts]
  · simp [CallHistory.repeatedCalls, never, MemoTable.countMiss, reflects.hits]
  · simp [CallHistory.firstCalls, never, MemoTable.countMiss, reflects.misses]
  · rw [CallHistory.matchedPositions_cons]
    exact reflects.size

/-- The first match at a position is remembered. -/
theorem remember (reflects : table.Reflects history) (forgotten : table.lookup? start = none) :
    (table.countMiss.remember start width value).Reflects
      ((start, .success width value) :: history) := by
  have never : history.earliestMatch? start = none := by
    rw [← reflects.lookup, forgotten]
  constructor
  · intro position
    rw [lookup?_remember, lookup?_countMiss, reflects.lookup, CallHistory.earliestMatch?_cons]
    by_cases here : start = position
    · subst here
      simp [never, Outcome.parts]
    · simp [here]
  · simp [CallHistory.repeatedCalls, never, MemoTable.remember, MemoTable.countMiss,
      reflects.hits]
  · simp [CallHistory.firstCalls, never, MemoTable.remember, MemoTable.countMiss,
      reflects.misses]
  · have new : start ∉ history.matchedPositions := by
      rw [CallHistory.mem_matchedPositions_iff, never]
      exact Bool.false_ne_true
    rw [CallHistory.matchedPositions_cons_success, Finset.card_insert_of_notMem new,
      size_remember, lookup?_countMiss, forgotten]
    exact congrArg (· + 1) reflects.size

theorem statistics_eq {other : MemoTable ν} (first : table.Reflects history)
    (second : other.Reflects history) : table.statistics = other.statistics := by
  unfold MemoTable.statistics
  rw [first.hits, first.misses, first.size, second.hits, second.misses, second.size]

end Reflects

end MemoTable

/-- Clearing a table clears its history, and no other one. -/
theorem ParserState.reflects_clearTable {state : ParserState ν} {cell : Nat}
    {history : CallHistory ν} (reflects : (state.table cell).Reflects history) (other : Nat) :
    ((state.clearTable other).table cell).Reflects (if other = cell then [] else history) := by
  rw [ParserState.clearTable, ParserState.table_setTable]
  by_cases same : other = cell
  · rw [if_pos same, if_pos same]
    exact .empty
  · rw [if_neg same, if_neg same]
    exact reflects

/-! ### Calls -/

variable [DecidableEq ε]

/-- In every state the grammar comes to what `meaning` makes of source and position, and leaves the
memo table in the cell as it is. -/
structure Grammar.ComputesBeside (grammar : Grammar ε ν) (rules : Rules ε ν) (cell : Nat)
    (meaning : Array ε → Nat → Outcome ν) : Prop where
  finishes : ∀ source start state, ∃ final,
    grammar.Finishes rules source start state (meaning source start, final)
  apart : ∀ source start state outcome final,
    grammar.Finishes rules source start state (outcome, final) →
      final.table cell = state.table cell

namespace Grammar

/-- Without memo tables it suffices that the grammar yields something everywhere. -/
theorem computesBeside_of_yields {grammar : Grammar ε ν} {rules : Rules ε ν}
    {meaning : Array ε → Nat → Outcome ν} (spares : grammar.Throughout SparesTables)
    (rulesSpare : rules.Throughout SparesTables)
    (yields : ∀ source start, grammar.Yields rules source start (meaning source start))
    (cell : Nat) : grammar.ComputesBeside rules cell meaning where
  finishes source start state := (yields source start).exists_finishes spares rulesSpare state
  apart _ _ _ _ _ finishes :=
    finishes.table_eq (spares.mono fun _ holds => holds.sparesCell cell)
      fun index body found => (rulesSpare index body found).mono fun _ holds =>
        holds.sparesCell cell

variable {inner : Grammar ε ν} {rules : Rules ε ν} {cell : Nat}
  {meaning : Array ε → Nat → Outcome ν} {history : CallHistory ν} {state final : ParserState ν}
  {source : Array ε} {start : Nat} {outcome : Outcome ν}

/-- A call without an earlier match attempts the grammar inside and remembers what it comes to. -/
theorem ComputesBeside.exists_finishes_memoized (computes : inner.ComputesBeside rules cell meaning)
    (forgotten : (state.table cell).lookup? start = none) (source : Array ε) :
    ∃ middle, inner.Finishes rules source start (state.missed cell start)
        (meaning source start, middle) ∧
      (memoized cell inner).Finishes rules source start state
        (meaning source start, middle.remembering cell start (meaning source start)) := by
  obtain ⟨middle, inside⟩ := computes.finishes source start (state.missed cell start)
  exact ⟨middle, inside, finishes_of_forgotten forgotten inside⟩

/-- What one call comes to and leaves behind. -/
theorem ComputesBeside.finishes_memoized (computes : inner.ComputesBeside rules cell meaning)
    (reflects : (state.table cell).Reflects history)
    (finishes : (memoized cell inner).Finishes rules source start state (outcome, final)) :
    outcome = ((history.earliestMatch? start).map fun entry =>
        Outcome.success entry.1 entry.2).getD (meaning source start) ∧
      (final.table cell).Reflects ((start, outcome) :: history) := by
  rw [← reflects.lookup]
  cases remembered : (state.table cell).lookup? start with
  | some entry =>
      obtain ⟨width, value⟩ := entry
      cases finishes.unique (finishes_of_remembered remembered)
      refine ⟨rfl, ?_⟩
      rw [ParserState.table_answered, if_pos rfl]
      exact reflects.countHit remembered
  | none =>
      obtain ⟨middle, inside, whole⟩ := computes.exists_finishes_memoized remembered source
      cases finishes.unique whole
      refine ⟨rfl, ?_⟩
      have kept := computes.apart _ _ _ _ _ inside
      rw [ParserState.table_missed, if_pos rfl] at kept
      cases meaning source start with
      | failure =>
          rw [ParserState.remembering_failure, kept]
          exact reflects.countMiss remembered
      | success width value =>
          rw [ParserState.table_remembering_success, if_pos rfl, kept]
          exact reflects.remember remembered

theorem ComputesBeside.performs_reflects (computes : inner.ComputesBeside rules cell meaning)
    {calls : List (Call ε)} {outcomes : List (Outcome ν)}
    (performs : (memoized cell inner).Performs rules calls state outcomes final)
    (reflects : (state.table cell).Reflects history) :
    (final.table cell).Reflects (history.extendedBy cell calls outcomes) := by
  induction performs generalizing history with
  | nil state => exact reflects
  | parse call _ restCase => exact restCase (computes.finishes_memoized reflects call).2
  | @clear other calls state outcomes final _ restCase =>
      exact restCase (ParserState.reflects_clearTable reflects other)

theorem ComputesBeside.exists_performs (computes : inner.ComputesBeside rules cell meaning)
    (calls : List (Call ε)) (state : ParserState ν) :
    ∃ outcomes final, (memoized cell inner).Performs rules calls state outcomes final := by
  induction calls generalizing state with
  | nil => exact ⟨[], state, .nil state⟩
  | cons call calls induction =>
      cases call with
      | clear other =>
          obtain ⟨outcomes, final, rest⟩ := induction (state.clearTable other)
          exact ⟨outcomes, final, .clear rest⟩
      | parse source start =>
          cases remembered : (state.table cell).lookup? start with
          | some entry =>
              obtain ⟨width, value⟩ := entry
              obtain ⟨outcomes, final, rest⟩ := induction (state.answered cell start width)
              exact ⟨_, final, .parse (finishes_of_remembered remembered) rest⟩
          | none =>
              obtain ⟨middle, -, whole⟩ := computes.exists_finishes_memoized remembered source
              obtain ⟨outcomes, final, rest⟩ := induction _
              exact ⟨_, final, .parse whole rest⟩

/-- The history of a table decides how calls are answered from then on. -/
theorem ComputesBeside.outcomes_eq (computes : inner.ComputesBeside rules cell meaning)
    {calls : List (Call ε)} {outcomes others : List (Outcome ν)} {other last : ParserState ν}
    (performs : (memoized cell inner).Performs rules calls state outcomes final)
    (performsToo : (memoized cell inner).Performs rules calls other others last)
    (reflects : (state.table cell).Reflects history)
    (reflectsToo : (other.table cell).Reflects history) : outcomes = others := by
  induction performs generalizing other others last history with
  | nil state =>
      cases performsToo
      rfl
  | parse call _ restCase =>
      cases performsToo with
      | parse callToo restToo =>
          obtain ⟨answer, next⟩ := computes.finishes_memoized reflects call
          obtain ⟨answerToo, nextToo⟩ := computes.finishes_memoized reflectsToo callToo
          cases answer.trans answerToo.symm
          exact congrArg _ (restCase restToo next nextToo)
  | @clear cleared calls state outcomes final _ restCase =>
      cases performsToo with
      | clear restToo =>
          exact restCase restToo (ParserState.reflects_clearTable reflects cleared)
            (ParserState.reflects_clearTable reflectsToo cleared)

/-- A memoized grammar can be called in any order, on any sources and with its table cleared in
between, and its answers and counts can be told from the history.  The grammar inside is a function
of source and position that terminates and does not use the table.

An earlier match at the position is repeated, and no grammar inside is attempted, whatever it is:
the answer is the same for any `other`.  Without an earlier match the outcome is that of the grammar
inside.  When the table is cleared, calls are answered and counted as on any table that is new. -/
theorem memoized_answers_from_history (computes : inner.ComputesBeside rules cell meaning)
    {fresh : ParserState ν} (new : fresh.table cell = .empty) (calls : List (Call ε)) :
    (∃ outcomes state, (memoized cell inner).Performs rules calls fresh outcomes state) ∧
    ∀ outcomes state, (memoized cell inner).Performs rules calls fresh outcomes state →
      ∀ history, history = CallHistory.extendedBy cell [] calls outcomes →
        (state.table cell).hits = history.repeatedCalls ∧
        (state.table cell).misses = history.firstCalls ∧
        (state.table cell).size = history.matchedPositions.card ∧
        (∀ source start,
          match history.earliestMatch? start with
          | some (width, value) => ∀ (other : Grammar ε ν) (others : Rules ε ν),
              (memoized cell other).Finishes others source start state
                (.success width value, state.answered cell start width)
          | none => ∃ middle,
              inner.Finishes rules source start (state.missed cell start)
                (meaning source start, middle) ∧
              (memoized cell inner).Finishes rules source start state
                (meaning source start,
                  middle.remembering cell start (meaning source start))) ∧
        ∀ untouched : ParserState ν, untouched.table cell = .empty → ∀ later given givenToo last
          lastToo,
          (memoized cell inner).Performs rules later (state.clearTable cell) given last →
          (memoized cell inner).Performs rules later untouched givenToo lastToo →
            given = givenToo ∧
              (last.table cell).statistics = (lastToo.table cell).statistics := by
  refine ⟨computes.exists_performs calls fresh, ?_⟩
  rintro outcomes state performs history rfl
  have begins : (fresh.table cell).Reflects [] := by
    rw [new]
    exact .empty
  have reflects := computes.performs_reflects performs begins
  refine ⟨reflects.hits, reflects.misses, reflects.size, ?_, ?_⟩
  · intro source start
    cases earlier : (CallHistory.extendedBy cell [] calls outcomes).earliestMatch? start with
    | some entry =>
        obtain ⟨width, value⟩ := entry
        intro other others
        exact finishes_of_remembered ((reflects.lookup start).trans earlier)
    | none => exact computes.exists_finishes_memoized ((reflects.lookup start).trans earlier) source
  · intro untouched newToo later given givenToo last lastToo performsLater performsToo
    have cleared : ((state.clearTable cell).table cell).Reflects [] := by
      have emptied := ParserState.reflects_clearTable reflects cell
      rw [if_pos rfl] at emptied
      exact emptied
    have clearToo : (untouched.table cell).Reflects [] := by
      rw [newToo]
      exact .empty
    obtain rfl := computes.outcomes_eq performsLater performsToo cleared clearToo
    exact ⟨rfl, (computes.performs_reflects performsLater cleared).statistics_eq
      (computes.performs_reflects performsToo clearToo)⟩

theorem computesBeside_positive :
    positive.ComputesBeside #[] 0 (Outcome.ofElement (fun found => 0 < found) fun _ => 1) := by
  have spares : positive.Throughout SparesTables := trivial
  have rulesSpare : Rules.Throughout (#[] : Rules Nat Nat) SparesTables := by
    intro index body found
    cases found
  exact computesBeside_of_yields spares rulesSpare (fun source start => .settled rfl) 0

/-- The second call is answered for another source, the third one fails and is not remembered. -/
theorem memoized_answers_from_history_positive : ∃ state,
    (memoized 0 positive).Performs #[] [.parse #[3] 0, .parse #[0] 0, .parse #[0, 0] 1] .initial
      [.success 1 1, .success 1 1, .failure] state ∧
    (state.table 0).hits = 1 ∧ (state.table 0).misses = 2 ∧ (state.table 0).size = 1 := by
  have empty : (ParserState.initial : ParserState Nat).table 0 = .empty := by simp
  obtain ⟨⟨outcomes, state, performs⟩, always⟩ := memoized_answers_from_history
    computesBeside_positive empty [.parse #[3] 0, .parse #[0] 0, .parse #[0, 0] 1]
  have reflects : ((ParserState.initial : ParserState Nat).table 0).Reflects [] := by
    rw [empty]
    exact .empty
  cases performs with
  | parse first rest =>
    cases rest with
    | parse second rest =>
      cases rest with
      | parse third rest =>
        cases rest
        obtain ⟨rfl, afterOne⟩ := computesBeside_positive.finishes_memoized reflects first
        obtain ⟨rfl, afterTwo⟩ := computesBeside_positive.finishes_memoized afterOne second
        obtain ⟨rfl, -⟩ := computesBeside_positive.finishes_memoized afterTwo third
        have performed := Performs.parse first (.parse second (.parse third (.nil state)))
        obtain ⟨hits, misses, size, -⟩ := always _ _ performed _ rfl
        exact ⟨state, performed, hits, misses, size⟩

end Grammar

end RecursiveDescent
