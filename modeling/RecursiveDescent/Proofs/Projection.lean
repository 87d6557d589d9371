import RecursiveDescent.Proofs.Engine

/-!
# Projections between engines

An engine whose states carry more than those of another projects to it when forgetting the
surplus commutes with its three operations.  Then forgetting the surplus commutes with every run:
`Engine.Projection.runOn`.
-/

namespace RecursiveDescent

variable {σ τ ε ν α β γ : Type}

/-- The second attempt does what the first one does, seen through a map of states. -/
def Attempt.ProjectsTo (view : σ → τ) (first : Attempt σ α) (second : Attempt τ α) : Prop :=
  ∀ state, second (view state) = (first state).map fun result => (result.1, view result.2)

/-- The second parser does what the first one does, seen through a map of states. -/
def Parser.ProjectsTo (view : σ → τ) (first : Parser σ ε α) (second : Parser τ ε α) : Prop :=
  ∀ source start, (first source start).ProjectsTo view (second source start)

namespace Attempt.ProjectsTo

variable {view : σ → τ}

theorem followedBy {first : Attempt σ α} {second : Attempt τ α} {next : α → Attempt σ β}
    {other : α → Attempt τ β} (beginning : first.ProjectsTo view second)
    (continuation : ∀ value, (next value).ProjectsTo view (other value)) :
    ProjectsTo view (first >>= next) (second >>= other) := by
  intro state
  rw [Attempt.bind_apply, Attempt.bind_apply, beginning state]
  cases first state with
  | none => rfl
  | some result => exact continuation result.1 result.2

theorem result (value : α) :
    ProjectsTo view (pure value : Attempt σ α) (pure value : Attempt τ α) :=
  fun _ => rfl

theorem modified {change : σ → σ} {other : τ → τ}
    (commutes : ∀ state, other (view state) = view (change state)) :
    ProjectsTo view (modify change : Attempt σ PUnit) (modify other : Attempt τ PUnit) :=
  fun state => congrArg (fun final => some (PUnit.unit, final)) (commutes state)

end Attempt.ProjectsTo

namespace Engine

/-- A map of states that commutes with the operations of two engines. -/
structure Projection (engine : Engine σ ε ν) (other : Engine τ ε ν) where
  /-- What the other engine sees of a state. -/
  view : σ → τ
  record : ∀ event state, other.record event (view state) = view (engine.record event state)
  memoized : ∀ cell (first : Parser σ ε ν) (second : Parser τ ε ν),
    first.ProjectsTo view second →
      (engine.memoized cell first).ProjectsTo view (other.memoized cell second)
  withFreshTables : ∀ cells (first : Parser σ ε ν) (second : Parser τ ε ν),
    first.ProjectsTo view second →
      (engine.withFreshTables cells first).ProjectsTo view (other.withFreshTables cells second)

namespace Projection

open Attempt.ProjectsTo (followedBy result modified)

variable {engine : Engine σ ε ν} {other : Engine τ ε ν} (projection : Projection engine other)

theorem recordAll (events : List (Event ν)) (state : σ) :
    other.recordAll events (projection.view state) =
      projection.view (engine.recordAll events state) := by
  induction events generalizing state with
  | nil => rfl
  | cons event events induction =>
      have later := induction (engine.record event state)
      rw [← projection.record] at later
      exact later

theorem absorb (emission : Emission (Event ν) α) :
    (Attempt.ofEffect (engine.absorb emission)).ProjectsTo projection.view
      (Attempt.ofEffect (other.absorb emission)) := by
  intro state
  exact congrArg (fun final => some (emission.value, final))
    (projection.recordAll emission.emitted state)

/-! ### Combinators -/

variable {projection} {first next : Parser σ ε ν} {second following : Parser τ ε ν}

theorem bind {binder : Outcome ν → Parser σ ε ν} {choosing : Outcome ν → Parser τ ε ν}
    (begins : first.ProjectsTo projection.view second)
    (follows : ∀ outcome, (binder outcome).ProjectsTo projection.view (choosing outcome)) :
    (Parser.bind first binder).ProjectsTo projection.view (Parser.bind second choosing) :=
  fun source start => followedBy (begins source start) fun outcome =>
    followedBy (follows outcome source _) fun _ => result _

theorem adjusted (adjust : Array ε → Nat → Outcome ν → Outcome ν)
    (inside : first.ProjectsTo projection.view second) :
    (Parser.adjusted adjust first).ProjectsTo projection.view (Parser.adjusted adjust second) :=
  fun source start => followedBy (inside source start) fun _ => result _

theorem attended {enter : Array ε → Nat → σ → σ} {enterOther : Array ε → Nat → τ → τ}
    {leave : Array ε → Nat → Outcome ν → σ → σ} {leaveOther : Array ε → Nat → Outcome ν → τ → τ}
    (entering : ∀ source start state,
      enterOther source start (projection.view state) =
        projection.view (enter source start state))
    (leaving : ∀ source start outcome state,
      leaveOther source start outcome (projection.view state) =
        projection.view (leave source start outcome state))
    (inside : first.ProjectsTo projection.view second) :
    (Parser.attended enter leave first).ProjectsTo projection.view
      (Parser.attended enterOther leaveOther second) :=
  fun source start => followedBy (modified (entering source start)) fun _ =>
    followedBy (inside source start) fun outcome =>
      followedBy (modified (leaving source start outcome)) fun _ => result _

theorem sequence (combine : ν → ν → ν) (begins : first.ProjectsTo projection.view second)
    (follows : next.ProjectsTo projection.view following) :
    (Parser.sequence first next combine).ProjectsTo projection.view
      (Parser.sequence second following combine) := by
  intro source start
  refine followedBy (begins source start) fun outcome => ?_
  cases outcome with
  | failure => exact result _
  | success width value =>
      refine followedBy (follows source _) fun outcome => ?_
      cases outcome <;> exact result _

theorem closeRepetition (collector : ValueCollector ν) (bounds : RepeatBounds)
    (accumulator : collector.Accumulator) :
    (Parser.closeRepetition (engine.journaled collector) bounds 0 0 accumulator).ProjectsTo
      projection.view
      (Parser.closeRepetition (other.journaled collector) bounds 0 0 accumulator) := by
  unfold Parser.closeRepetition
  by_cases few : 0 < bounds.minimum
  · rw [if_pos few, if_pos few]
    exact result _
  · rw [if_neg few, if_neg few]
    exact followedBy (projection.absorb _) fun _ => result _

theorem repeated (rounds : Nat) (collector : ValueCollector ν) (bounds : RepeatBounds)
    (items : first.ProjectsTo projection.view second) :
    (Parser.repeated rounds first (engine.journaled collector) bounds).ProjectsTo projection.view
      (Parser.repeated rounds second (other.journaled collector) bounds) := by
  intro source start
  induction rounds generalizing collector bounds start with
  | zero => exact followedBy (projection.absorb _) fun _ _ => rfl
  | succ rounds induction =>
      rw [Parser.repeated_succ, Parser.repeated_succ]
      refine followedBy (projection.absorb _) fun accumulator => ?_
      by_cases more : bounds.allowsMore 0
      · rw [if_pos more, if_pos more]
        refine followedBy (items source start) fun outcome => followedBy ?_ fun _ => result _
        cases outcome with
        | failure => exact closeRepetition collector bounds accumulator
        | success width value =>
            exact followedBy (projection.absorb (collector.accumulate accumulator value))
              fun accumulator => induction (collector.startingFrom accumulator) (bounds.drop 1)
                (start + width)
      · rw [if_neg more, if_neg more]
        exact closeRepetition collector bounds accumulator

/-- The pairs behind the head of a list. -/
theorem pairs (rounds : Nat) (combine : ν → ν → ν) (headCollector : ν → ValueCollector ν)
    (items : first.ProjectsTo projection.view second)
    (delimiters : next.ProjectsTo projection.view following) (outcome : Outcome ν) :
    Parser.ProjectsTo projection.view
      (match outcome with
        | .success _ head =>
            Parser.repeated rounds (Parser.sequence next first combine)
              (engine.journaled (headCollector head)) .zeroOrMore
        | .failure => Parser.fail)
      (match outcome with
        | .success _ head =>
            Parser.repeated rounds (Parser.sequence following second combine)
              (other.journaled (headCollector head)) .zeroOrMore
        | .failure => Parser.fail) := by
  cases outcome with
  | failure => exact fun _ _ => result _
  | success width head =>
      exact repeated rounds (headCollector head) .zeroOrMore
        (sequence combine delimiters items)

/-! ### Whole grammars -/

variable [DecidableEq ε]

theorem parserOn (rounds : Nat) {invoke : Nat → Parser σ ε ν} {invokeOther : Nat → Parser τ ε ν}
    (invocations : ∀ index,
      (invoke index).ProjectsTo projection.view (invokeOther index))
    (grammar : Grammar ε ν) :
    (grammar.parserOn engine rounds invoke).ProjectsTo projection.view
      (grammar.parserOn other rounds invokeOther) := by
  induction grammar with
  | element test value =>
      unfold Grammar.parserOn
      rw [Parser.element_eq_ofFunction, Parser.element_eq_ofFunction]
      exact fun _ _ => result _
  | literal expected value =>
      unfold Grammar.parserOn
      rw [Parser.literal_eq_ofFunction, Parser.literal_eq_ofFunction]
      exact fun _ _ => result _
  | fixedWidth width read =>
      unfold Grammar.parserOn
      rw [Parser.fixedWidth_eq_ofFunction, Parser.fixedWidth_eq_ofFunction]
      exact fun _ _ => result _
  | succeed value => exact fun _ _ => result _
  | fail => exact fun _ _ => result _
  | endOfInput value =>
      unfold Grammar.parserOn
      rw [Parser.endOfInput_eq_ofFunction, Parser.endOfInput_eq_ofFunction]
      exact fun _ _ => result _
  | ofFunction function => exact fun _ _ => result _
  | sequence left right combine leftCase rightCase => exact sequence combine leftCase rightCase
  | choice left right leftCase rightCase =>
      unfold Grammar.parserOn
      rw [Parser.choice_eq_bind, Parser.choice_eq_bind]
      refine bind leftCase fun outcome => ?_
      cases outcome with
      | failure => exact rightCase
      | success width value => exact fun _ _ => result _
  | optional inner fallback innerCase =>
      unfold Grammar.parserOn
      rw [Parser.optional_eq_adjusted, Parser.optional_eq_adjusted]
      exact adjusted _ innerCase
  | repeated item collector bounds itemCase => exact repeated rounds collector bounds itemCase
  | ahead inner innerCase =>
      unfold Grammar.parserOn
      rw [Parser.ahead_eq_adjusted, Parser.ahead_eq_adjusted]
      exact adjusted _ innerCase
  | notAhead inner value innerCase =>
      unfold Grammar.parserOn
      rw [Parser.notAhead_eq_adjusted, Parser.notAhead_eq_adjusted]
      exact adjusted _ innerCase
  | delimited item delimiter combine headCollector itemCase delimiterCase =>
      unfold Grammar.parserOn
      rw [Parser.delimited_eq_bind, Parser.delimited_eq_bind]
      exact bind itemCase (pairs rounds combine headCollector itemCase delimiterCase)
  | separated item delimiter collector itemCase delimiterCase =>
      unfold Grammar.parserOn
      rw [Parser.separated_eq_bind, Parser.separated_eq_bind]
      simp only [← engine.journaled_accept, ← other.journaled_accept]
      exact bind itemCase
        (pairs rounds (fun _ value => value) collector.accept itemCase delimiterCase)
  | bind left binder leftCase binderCase => exact bind leftCase binderCase
  | map inner function innerCase =>
      exact adjusted (fun _ _ => Outcome.map function) innerCase
  | tryMap inner function innerCase =>
      exact adjusted (fun _ _ => Outcome.filterMap function) innerCase
  | filter inner accepts innerCase =>
      unfold Grammar.parserOn
      rw [Parser.filter_eq_adjusted, Parser.filter_eq_adjusted]
      exact adjusted _ innerCase
  | recognize inner read innerCase =>
      unfold Grammar.parserOn
      rw [Parser.recognize_eq_adjusted, Parser.recognize_eq_adjusted]
      exact adjusted _ innerCase
  | before tag inner innerCase =>
      unfold Grammar.parserOn
      rw [Parser.before_eq_attended, Parser.before_eq_attended]
      exact attended (fun _ _ => projection.record _) (fun _ _ _ _ => rfl) innerCase
  | onSuccess tag inner innerCase =>
      unfold Grammar.parserOn
      rw [Parser.onSuccess_eq_attended, Parser.onSuccess_eq_attended]
      refine attended (fun _ _ _ => rfl) (fun source start outcome => ?_) innerCase
      cases outcome with
      | success width value => exact projection.record _
      | failure => exact fun _ => rfl
  | onFailure tag inner innerCase =>
      unfold Grammar.parserOn
      rw [Parser.onFailure_eq_attended, Parser.onFailure_eq_attended]
      refine attended (fun _ _ _ => rfl) (fun source start outcome => ?_) innerCase
      cases outcome with
      | success width value => exact fun _ => rfl
      | failure => exact projection.record _
  | traced name inner innerCase =>
      refine attended (fun _ _ => projection.record _) (fun source start outcome => ?_) innerCase
      cases outcome <;> exact projection.record _
  | memoized cell inner innerCase => exact projection.memoized cell _ _ innerCase
  | rebuilt cells inner innerCase => exact projection.withFreshTables cells _ _ innerCase
  | deferred tag inner innerCase =>
      unfold Grammar.parserOn
      rw [Parser.before_eq_attended, Parser.before_eq_attended]
      exact attended (fun _ _ => projection.record _) (fun _ _ _ _ => rfl) innerCase
  | rule index => exact invocations index

omit [DecidableEq ε] in
theorem invokeOn {rules : Rules ε ν} {run : Grammar ε ν → Parser σ ε ν}
    {runOther : Grammar ε ν → Parser τ ε ν}
    (definitions : ∀ grammar, (run grammar).ProjectsTo projection.view (runOther grammar))
    (index : Nat) :
    (rules.invokeOn engine run index).ProjectsTo projection.view
      (rules.invokeOn other runOther index) := by
  intro source start
  unfold Rules.invokeOn
  split
  · exact followedBy (modified (projection.recordAll _)) fun _ => definitions _ source start
  · exact definitions _ source start
  · exact followedBy (modified (projection.record _)) fun _ => result _

variable (projection)

/-- A run on the one engine, seen through the map of states, is the run on the other. -/
theorem runOn (rules : Rules ε ν) (steps : Nat) (grammar : Grammar ε ν) :
    (grammar.runOn engine rules steps).ProjectsTo projection.view
      (grammar.runOn other rules steps) := by
  induction steps generalizing grammar with
  | zero =>
      refine parserOn 0 (fun index source start state => ?_) grammar
      rfl
  | succ steps induction => exact parserOn (steps + 1) (invokeOn induction) grammar

end Projection

end Engine

end RecursiveDescent
