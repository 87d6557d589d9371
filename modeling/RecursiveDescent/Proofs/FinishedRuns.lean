import RecursiveDescent.Proofs.Engine
import RecursiveDescent.Proofs.TableEffects
import RecursiveDescent.Proofs.Trace

/-!
# Finished runs, form by form

The form of a grammar says which attempts a match of it consists of.  On memo tables and a journal
these attempts also change the state: `Grammar.enter` is what happens before the first part is
attempted, and `Grammar.leave` what happens when it has come to an outcome.  A memo table that
answers replaces the attempt of the part.

So there is one statement for each form about what a run needs to finish: `finishes_settled_iff`,
`finishes_adjusted_iff` and `finishes_continued_iff`.  They hold in any state, whatever the entries
of its memo tables are worth.
-/

namespace RecursiveDescent

variable {σ ε ν α β : Type}

namespace ParserState

/-- Enters events into the journal, the first one first. -/
def recordAll (events : List (Event ν)) (state : ParserState ν) : ParserState ν :=
  events.foldl (fun state event => state.record event) state

theorem recordAll_append (first second : List (Event ν)) (state : ParserState ν) :
    state.recordAll (first ++ second) = (state.recordAll first).recordAll second :=
  List.foldl_append

@[simp]
theorem events_recordAll (events : List (Event ν)) (state : ParserState ν) :
    (state.recordAll events).events = state.events ++ events := by
  induction events generalizing state with
  | nil => exact (List.append_nil _).symm
  | cons event events induction =>
      have later := induction (state.record event)
      rw [events_record, List.append_assoc] at later
      exact later

end ParserState

namespace Parser

theorem adjusted_apply (adjust : Array ε → Nat → Outcome α → Outcome β) (inner : Parser σ ε α)
    (source : Array ε) (start : Nat) (state : σ) :
    Parser.adjusted adjust inner source start state =
      (inner source start state).map fun result => (adjust source start result.1, result.2) := by
  rw [Option.map_eq_bind]
  rfl

theorem attended_apply (enter : Array ε → Nat → σ → σ)
    (leave : Array ε → Nat → Outcome α → σ → σ) (inner : Parser σ ε α) (source : Array ε)
    (start : Nat) (state : σ) :
    Parser.attended enter leave inner source start state =
      (inner source start (enter source start state)).map fun result =>
        (result.1, leave source start result.1 result.2) := by
  rw [Option.map_eq_bind]
  rfl

theorem bind_apply (first : Parser σ ε α) (binder : Outcome α → Parser σ ε β)
    (source : Array ε) (start : Nat) (state : σ) :
    Parser.bind first binder source start state =
      (first source start state).bind fun begun =>
        (binder begun.1 source (start + begun.1.advance) begun.2).map fun ended =>
          (ended.1.advancedBy begun.1.advance, ended.2) := by
  simp only [Option.map_eq_bind]
  rfl

end Parser

namespace Grammar

/-- What happens to the state before the first part of a grammar is attempted, or instead of it. -/
def enter (rules : Rules ε ν) (source : Array ε) (start : Nat) (grammar : Grammar ε ν)
    (state : ParserState ν) : ParserState ν :=
  match grammar with
  | .memoized cell _ => state.missed cell start
  | .rebuilt cells _ => state.cleared cells
  | grammar => state.recordAll (grammar.eventsBefore rules source start)

/-- What happens to the state when the first part of a grammar has come to an outcome. -/
def leave (start : Nat) (former : ParserState ν) (outcome : Outcome ν) (grammar : Grammar ε ν)
    (state : ParserState ν) : ParserState ν :=
  match grammar with
  | .memoized cell _ => state.remembering cell start outcome
  | .rebuilt cells _ => ParserState.restored cells former state
  | grammar => state.recordAll (grammar.eventsAfter start outcome)

def eventsOfEntry (rules : Rules ε ν) (source : Array ε) (start : Nat) :
    Grammar ε ν → List (Event ν)
  | .memoized cell _ => [.logged (.memoMiss cell start)]
  | grammar => grammar.eventsBefore rules source start

@[simp]
theorem events_enter (rules : Rules ε ν) (source : Array ε) (start : Nat)
    (grammar : Grammar ε ν) (state : ParserState ν) :
    (grammar.enter rules source start state).events =
      state.events ++ grammar.eventsOfEntry rules source start := by
  cases grammar with
  | memoized cell inner => exact state.events_missed cell start
  | rebuilt cells inner => exact (state.events_cleared cells).trans (List.append_nil _).symm
  | _ => exact state.events_recordAll _

@[simp]
theorem events_leave (start : Nat) (former : ParserState ν) (outcome : Outcome ν)
    (grammar : Grammar ε ν) (state : ParserState ν) :
    (grammar.leave start former outcome state).events =
      state.events ++ grammar.eventsAfter start outcome := by
  cases grammar with
  | memoized cell inner =>
      exact (state.events_remembering cell start outcome).trans (List.append_nil _).symm
  | rebuilt cells inner =>
      exact (ParserState.events_restored former state cells).trans (List.append_nil _).symm
  | _ => exact state.events_recordAll _

theorem enter_repeated_of_more {collector : ValueCollector ν} {bounds : RepeatBounds}
    (more : bounds.allowsMore 0) (rules : Rules ε ν) (source : Array ε) (start : Nat)
    (item : Grammar ε ν) (state : ParserState ν) :
    (repeated item collector bounds).enter rules source start state =
      state.recordAll collector.supply.emitted :=
  congrArg state.recordAll (if_pos more)

theorem enter_repeated_of_exhausted {collector : ValueCollector ν} {bounds : RepeatBounds}
    (exhausted : ¬ bounds.allowsMore 0) (rules : Rules ε ν) (source : Array ε) (start : Nat)
    (item : Grammar ε ν) (state : ParserState ν) :
    (repeated item collector bounds).enter rules source start state =
      state.recordAll (collector.supply.emitted ++ closingEvents collector bounds) :=
  congrArg state.recordAll (if_neg exhausted)

/-- The match that a memo table holds ready in place of an attempt. -/
def answer? (start : Nat) (state : ParserState ν) : Grammar ε ν → Option (Nat × ν)
  | .memoized cell _ => (state.table cell).lookup? start
  | _ => none

theorem exists_memoized_of_answer {grammar : Grammar ε ν} {start width : Nat} {value : ν}
    {state : ParserState ν} (answered : grammar.answer? start state = some (width, value)) :
    ∃ cell inner, grammar = memoized cell inner ∧
      (state.table cell).lookup? start = some (width, value) := by
  cases grammar with
  | memoized cell inner => exact ⟨cell, inner, rfl, answered⟩
  | _ => cases answered

variable [DecidableEq ε] {rules : Rules ε ν} {source : Array ε} {grammar part first : Grammar ε ν}
  {adjust : Nat → Outcome ν → Outcome ν} {next : Outcome ν → Grammar ε ν} {start : Nat}
  {outcome result : Outcome ν} {state final : ParserState ν}

/-! ### What a form says about a parser -/

section Parsers

variable (rounds : Nat) (invoke : Nat → Parser (ParserState ν) ε ν)

omit [DecidableEq ε] in
theorem repeated_exhausted_apply {collector : ValueCollector ν} {bounds : RepeatBounds}
    (exhausted : ¬ bounds.allowsMore 0) (item : Parser (ParserState ν) ε ν) :
    Parser.repeated (rounds + 1) item (journaled collector) bounds source start state =
      some (closing collector bounds,
        state.recordAll (collector.supply.emitted ++ closingEvents collector bounds)) := by
  rw [Parser.repeated_succ, Attempt.bind_apply, Attempt.ofEffect_apply, Option.bind_some,
    if_neg exhausted, ParserState.recordAll_append]
  unfold Parser.closeRepetition closing closingEvents
  by_cases few : 0 < bounds.minimum
  · simp only [few, if_true]
    rfl
  · simp only [few, if_false]
    rfl

omit [DecidableEq ε] in
/-- A repetition is the attempt of an item, and behind it the end or a repetition of what is
left. -/
theorem repeated_succ_apply {collector : ValueCollector ν} {bounds : RepeatBounds}
    (more : bounds.allowsMore 0) (item : Parser (ParserState ν) ε ν) :
    Parser.repeated (rounds + 1) item (journaled collector) bounds source start state =
      (item source start (state.recordAll collector.supply.emitted)).bind fun begun =>
        match begun.1 with
        | .success width value =>
            (Parser.repeated rounds item (journaled (collector.taking value)) (bounds.drop 1)
              source (start + width) (begun.2.recordAll
                (collector.accumulate collector.supply.value value).emitted)).map fun ended =>
              (ended.1.advancedBy width, ended.2)
        | .failure =>
            some (closing collector bounds,
              begun.2.recordAll (closingEvents collector bounds)) := by
  rw [Parser.repeated_succ, Attempt.bind_apply, Attempt.ofEffect_apply, Option.bind_some,
    if_pos more, Attempt.bind_apply]
  apply Option.bind_congr
  rintro ⟨outcome, middle⟩ _
  cases outcome with
  | success width value =>
      simp only [Option.map_eq_bind]
      rfl
  | failure =>
      unfold Parser.afterItem Parser.closeRepetition closing closingEvents
      by_cases few : 0 < bounds.minimum
      · simp only [few, if_true]
        rfl
      · simp only [few, if_false]
        rfl

theorem parser_settled {settled : Nat → Outcome ν}
    (shape : grammar.form rules source = .settled settled)
    (noRule : ∀ index, grammar ≠ .rule index) :
    grammar.parser (rounds + 1) invoke source start state =
      some (settled start, grammar.enter rules source start state) := by
  cases grammar with
  | element test value =>
      cases shape
      rw [parser, Parser.element_eq_ofFunction]
      rfl
  | literal expected value =>
      cases shape
      rw [parser, Parser.literal_eq_ofFunction]
      rfl
  | fixedWidth width read =>
      cases shape
      rw [parser, Parser.fixedWidth_eq_ofFunction]
      rfl
  | endOfInput value =>
      cases shape
      rw [parser, Parser.endOfInput_eq_ofFunction]
      rfl
  | succeed _ | fail | ofFunction _ =>
      cases shape
      rfl
  | repeated item collector bounds =>
      by_cases more : bounds.allowsMore 0
      · simp [form, more] at shape
      · rw [form_repeated_of_exhausted more] at shape
        cases shape
        rw [enter_repeated_of_exhausted more]
        exact repeated_exhausted_apply rounds more _
  | rule index => exact absurd rfl (noRule index)
  | _ => cases shape

/-- A parser that adjusts a part. -/
theorem parser_adjusted (shape : grammar.form rules source = .adjusted part adjust)
    (noRule : ∀ index, grammar ≠ .rule index) (unanswered : grammar.answer? start state = none) :
    grammar.parser rounds invoke source start state =
      (part.parser rounds invoke source start (grammar.enter rules source start state)).map
        fun result =>
          (adjust start result.1, grammar.leave start state result.1 result.2) := by
  cases grammar with
  | optional inner fallback =>
      cases shape
      rw [parser, Parser.optional_eq_adjusted, Parser.adjusted_apply]
      rfl
  | ahead inner =>
      cases shape
      rw [parser, Parser.ahead_eq_adjusted, Parser.adjusted_apply]
      rfl
  | notAhead inner value =>
      cases shape
      rw [parser, Parser.notAhead_eq_adjusted, Parser.adjusted_apply]
      rfl
  | map inner function =>
      cases shape
      exact Parser.adjusted_apply (fun _ _ => Outcome.map function) _ source start state
  | tryMap inner function =>
      cases shape
      exact Parser.adjusted_apply (fun _ _ => Outcome.filterMap function) _ source start state
  | filter inner accepts =>
      cases shape
      rw [parser, Parser.filter_eq_adjusted, Parser.adjusted_apply]
      rfl
  | recognize inner read =>
      cases shape
      rw [parser, Parser.recognize_eq_adjusted, Parser.adjusted_apply]
      rfl
  | before tag inner =>
      cases shape
      rw [parser, Parser.before_eq_attended, Parser.attended_apply]
      rfl
  | onSuccess tag inner =>
      cases shape
      rw [parser, Parser.onSuccess_eq_attended, Parser.attended_apply]
      congr 1
      funext result
      obtain ⟨outcome, final⟩ := result
      cases outcome <;> rfl
  | onFailure tag inner =>
      cases shape
      rw [parser, Parser.onFailure_eq_attended, Parser.attended_apply]
      congr 1
      funext result
      obtain ⟨outcome, final⟩ := result
      cases outcome <;> rfl
  | traced name inner =>
      cases shape
      rw [parser, tracing_eq_attended, Parser.attended_apply]
      congr 1
      funext result
      obtain ⟨outcome, final⟩ := result
      cases outcome <;> rfl
  | memoized cell inner =>
      cases shape
      exact Parser.memoized_of_forgotten cell _ source start state unanswered
  | rebuilt cells inner =>
      cases shape
      exact Parser.withFreshTables_apply cells _ source start state
  | deferred tag inner =>
      cases shape
      rw [parser, Parser.before_eq_attended, Parser.attended_apply]
      rfl
  | rule index => exact absurd rfl (noRule index)
  | repeated item collector bounds =>
      simp only [form] at shape
      split at shape <;> cases shape
  | _ => cases shape

/-- A parser that goes on behind a first part, apart from the loops. -/
theorem parser_continued (shape : grammar.form rules source = .continued first next)
    (once : ∀ item collector bounds, grammar ≠ .repeated item collector bounds) :
    grammar.parser rounds invoke source start state =
      (first.parser rounds invoke source start (grammar.enter rules source start state)).bind
        fun begun =>
          ((next begun.1).parser rounds invoke source (start + begun.1.advance)
            (grammar.leave start state begun.1 begun.2)).map fun ended =>
              (ended.1.advancedBy begun.1.advance, ended.2) := by
  cases grammar with
  | sequence left right combine =>
      cases shape
      rw [parser, Parser.sequence_eq_bind, Parser.bind_apply]
      apply Option.bind_congr
      rintro ⟨outcome, middle⟩ _
      cases outcome <;> rfl
  | choice left right =>
      cases shape
      rw [parser, Parser.choice_eq_bind, Parser.bind_apply]
      apply Option.bind_congr
      rintro ⟨outcome, middle⟩ _
      cases outcome <;> rfl
  | delimited item delimiter combine headCollector =>
      cases shape
      rw [parser, Parser.delimited_eq_bind, Parser.bind_apply]
      apply Option.bind_congr
      rintro ⟨outcome, middle⟩ _
      cases outcome <;> rfl
  | separated item delimiter collector =>
      cases shape
      rw [parser, Parser.separated_eq_bind, Parser.bind_apply]
      apply Option.bind_congr
      rintro ⟨outcome, middle⟩ _
      cases outcome with
      | success width head =>
          have collected : (journaled collector).accept head =
              journaled (collector.accept head) :=
            ((Engine.tables : Engine (ParserState ν) ε ν).journaled_accept collector head).symm
          -- The head is taken in before the loop starts, and so are its announcements.
          dsimp only
          rw [collected]
          rfl
      | failure => rfl
  | bind left binder =>
      cases shape
      exact Parser.bind_apply _ _ source start state
  | repeated item collector bounds => exact absurd rfl (once item collector bounds)
  | rule index =>
      simp only [form] at shape
      split at shape <;> cases shape
  | _ => cases shape

end Parsers

/-! ### What a run needs to finish -/

/-- A larger allotment gives the same result. -/
theorem run_mono {steps more : Nat} (enough : steps ≤ more)
    {result : Outcome ν × ParserState ν}
    (finished : grammar.run rules steps source start state = some result) :
    grammar.run rules more source start state = some result :=
  grammar.run_approximates rules enough source start state result finished

variable (rules) in
/-- A run is the parser of the grammar, with one meaning of the rules for all grammars. -/
theorem exists_parser_of_run (steps : Nat) :
    ∃ invoke, ∀ grammar : Grammar ε ν, grammar.run rules steps = grammar.parser steps invoke := by
  cases steps with
  | zero => exact ⟨_, fun _ => rfl⟩
  | succ steps => exact ⟨_, fun _ => rfl⟩

theorem run_adjusted (steps : Nat) (shape : grammar.form rules source = .adjusted part adjust)
    (noRule : ∀ index, grammar ≠ .rule index) (unanswered : grammar.answer? start state = none) :
    grammar.run rules steps source start state =
      (part.run rules steps source start (grammar.enter rules source start state)).map
        fun result =>
          (adjust start result.1, grammar.leave start state result.1 result.2) := by
  obtain ⟨invoke, opened⟩ := exists_parser_of_run rules steps
  rw [opened, opened]
  exact parser_adjusted steps invoke shape noRule unanswered

theorem run_continued (steps : Nat) (shape : grammar.form rules source = .continued first next)
    (once : ∀ item collector bounds, grammar ≠ .repeated item collector bounds) :
    grammar.run rules steps source start state =
      (first.run rules steps source start (grammar.enter rules source start state)).bind
        fun begun =>
          ((next begun.1).run rules steps source (start + begun.1.advance)
            (grammar.leave start state begun.1 begun.2)).map fun ended =>
              (ended.1.advancedBy begun.1.advance, ended.2) := by
  obtain ⟨invoke, opened⟩ := exists_parser_of_run rules steps
  simp only [opened]
  exact parser_continued steps invoke shape once

theorem run_repeated (steps : Nat) (item : Grammar ε ν) (collector : ValueCollector ν)
    (bounds : RepeatBounds) :
    (repeated item collector bounds).run rules steps =
      Parser.repeated steps (item.run rules steps) (journaled collector) bounds := by
  cases steps <;> rfl

/-- A rule runs its definition with one step less. -/
theorem run_rule_defined {index : Nat} {body : Grammar ε ν}
    (defined : rules.body? index = some body) (steps : Nat) :
    (rule index).run rules (steps + 1) source start state =
      body.run rules steps source start ((rule index).enter rules source start state) := by
  have opened : (rule index).run rules (steps + 1) = rules.invoke (run rules steps) index := rfl
  have entered : (rule index).enter rules source start state =
      state.recordAll (rules.invocationEvents index start) :=
    rfl
  rw [opened, entered]
  unfold Rules.body? at defined
  unfold Rules.invoke Rules.invocationEvents
  cases found : rules[index]? with
  | none =>
      rw [found] at defined
      cases defined
  | some rule =>
      rw [found] at defined
      cases rule with
      | recursive tag cells body =>
          cases defined
          cases tag <;> rfl
      | forward definition =>
          cases defined
          rfl

theorem run_rule_undefined {index : Nat} (undefined : rules.body? index = none) (steps : Nat) :
    (rule index).run rules (steps + 1) source start state =
      some (.failure, (rule index).enter rules source start state) := by
  have opened : (rule index).run rules (steps + 1) = rules.invoke (run rules steps) index := rfl
  have entered : (rule index).enter rules source start state =
      state.recordAll (rules.invocationEvents index start) :=
    rfl
  rw [opened, entered]
  unfold Rules.body? at undefined
  unfold Rules.invoke Rules.invocationEvents
  cases found : rules[index]? with
  | none => rfl
  | some rule =>
      rw [found] at undefined
      cases rule with
      | recursive tag cells body => cases undefined
      | forward definition =>
          cases undefined
          rfl

theorem finishes_settled {settled : Nat → Outcome ν}
    (shape : grammar.form rules source = .settled settled) (start : Nat)
    (state : ParserState ν) :
    grammar.Finishes rules source start state
      (settled start, grammar.enter rules source start state) := by
  by_cases named : ∃ index, grammar = .rule index
  · obtain ⟨index, rfl⟩ := named
    cases defined : rules.body? index with
    | some body => cases (form_rule_of_defined defined).symm.trans shape
    | none =>
        cases (form_rule_of_undefined defined).symm.trans shape
        exact ⟨1, run_rule_undefined defined 0⟩
  · obtain ⟨invoke, opened⟩ := exists_parser_of_run rules 1
    refine ⟨1, ?_⟩
    rw [opened]
    exact parser_settled 0 invoke shape (not_exists.mp named)

theorem finishes_settled_iff {settled : Nat → Outcome ν}
    (shape : grammar.form rules source = .settled settled) :
    grammar.Finishes rules source start state (result, final) ↔
      result = settled start ∧ final = grammar.enter rules source start state := by
  have settles := finishes_settled shape start state
  constructor
  · intro finishes
    cases finishes.unique settles
    exact ⟨rfl, rfl⟩
  · rintro ⟨rfl, rfl⟩
    exact settles

theorem finishes_of_remembered {cell : Nat} {inner : Grammar ε ν} {width : Nat} {value : ν}
    (remembered : (state.table cell).lookup? start = some (width, value)) :
    (memoized cell inner).Finishes rules source start state
      (.success width value, state.answered cell start width) :=
  ⟨0, Parser.memoized_of_remembered cell _ source start state remembered⟩

/-- A grammar that adjusts a part finishes when the part does, unless a memo table answers. -/
theorem finishes_adjusted_iff (shape : grammar.form rules source = .adjusted part adjust)
    (unanswered : grammar.answer? start state = none) :
    grammar.Finishes rules source start state (result, final) ↔
      ∃ outcome middle,
        part.Finishes rules source start (grammar.enter rules source start state)
            (outcome, middle) ∧
          result = adjust start outcome ∧ final = grammar.leave start state outcome middle := by
  by_cases named : ∃ index, grammar = .rule index
  · obtain ⟨index, rfl⟩ := named
    cases defined : rules.body? index with
    | none => cases (form_rule_of_undefined defined).symm.trans shape
    | some body =>
        cases (form_rule_of_defined defined).symm.trans shape
        constructor
        · rintro ⟨steps, finished⟩
          cases steps with
          | zero => cases finished
          | succ steps =>
              rw [run_rule_defined defined] at finished
              exact ⟨result, final, ⟨steps, finished⟩, rfl, rfl⟩
        · rintro ⟨outcome, middle, ⟨steps, begun⟩, rfl, rfl⟩
          refine ⟨steps + 1, ?_⟩
          rw [run_rule_defined defined]
          exact begun
  · have noRule := not_exists.mp named
    constructor
    · rintro ⟨steps, finished⟩
      rw [run_adjusted steps shape noRule unanswered] at finished
      obtain ⟨⟨outcome, middle⟩, begun, ended⟩ := Option.map_eq_some_iff.mp finished
      cases ended
      exact ⟨outcome, middle, ⟨steps, begun⟩, rfl, rfl⟩
    · rintro ⟨outcome, middle, ⟨steps, begun⟩, rfl, rfl⟩
      refine ⟨steps, ?_⟩
      rw [run_adjusted steps shape noRule unanswered, begun]
      rfl

theorem finishes_of_forgotten {cell : Nat} {inner : Grammar ε ν}
    (forgotten : (state.table cell).lookup? start = none)
    (inside : inner.Finishes rules source start (state.missed cell start) (outcome, final)) :
    (memoized cell inner).Finishes rules source start state
      (outcome, final.remembering cell start outcome) := by
  have shape : (memoized cell inner).form rules source =
      .adjusted inner fun _ outcome => outcome :=
    rfl
  exact (finishes_adjusted_iff shape forgotten).mpr ⟨outcome, final, inside, rfl, rfl⟩

/-- When its item fails, a repetition ends without a further attempt. -/
theorem finishes_repetition_failure (item : Grammar ε ν) (collector : ValueCollector ν)
    (bounds : RepeatBounds) (start : Nat) (state : ParserState ν) :
    (repetition item collector bounds .failure).Finishes rules source start state
      (closing collector bounds, state) := by
  have settles := finishes_settled
    (form_repetition_failure rules source item collector bounds) start state
  have unchanged :
      (repetition item collector bounds .failure).enter rules source start state = state := by
    by_cases few : 0 < bounds.minimum
    · simp only [repetition, few, if_true]
      rfl
    · simp only [repetition, few, if_false]
      rfl
  rw [unchanged] at settles
  exact settles

/-! A repetition runs a loop, and the loop over what is left runs with one round less but with the
same item.  Both are finished with the larger allotment. -/

section Repetitions

variable {item : Grammar ε ν} {collector : ValueCollector ν} {bounds : RepeatBounds}
  {middle : ParserState ν}

theorem finishes_repeated_of_parts (more : bounds.allowsMore 0)
    (beginning : item.Finishes rules source start (state.recordAll collector.supply.emitted)
      (outcome, middle))
    (following : (repetition item collector bounds outcome).Finishes rules source
      (start + outcome.advance)
      (middle.recordAll ((repeated item collector bounds).eventsAfter start outcome))
      (result, final)) :
    (repeated item collector bounds).Finishes rules source start state
      (result.advancedBy outcome.advance, final) := by
  obtain ⟨steps, begun⟩ := beginning
  cases outcome with
  | success width value =>
      obtain ⟨others, followed⟩ := following
      -- The items that are left may need more steps than the first one.
      let rounds := max steps others
      have larger : (item.run rules others).Approximates (item.run rules (rounds + 1)) :=
        item.run_approximates rules (by omega)
      have first : item.run rules (rounds + 1) source start
          (state.recordAll collector.supply.emitted) = some (.success width value, middle) :=
        run_mono (by omega) begun
      have rest : Parser.repeated rounds (item.run rules (rounds + 1))
          (journaled (collector.taking value)) (bounds.drop 1) source (start + width)
          (middle.recordAll (collector.accumulate collector.supply.value value).emitted) =
            some (result, final) := by
        have enough : others ≤ rounds := by omega
        apply larger.repeated (journaled (collector.taking value)) _ enough source
        rw [← run_repeated]
        exact followed
      refine ⟨rounds + 1, ?_⟩
      rw [run_repeated, repeated_succ_apply rounds more, first]
      simp only [Option.bind_some, rest]
      rfl
  | failure =>
      cases following.unique (finishes_repetition_failure item collector bounds _ _)
      have first : item.run rules (steps + 1) source start
          (state.recordAll collector.supply.emitted) = some (.failure, middle) :=
        run_mono (by omega) begun
      refine ⟨steps + 1, ?_⟩
      rw [run_repeated, repeated_succ_apply steps more, first]
      simp [Outcome.advance, eventsAfter]

theorem exists_parts_of_finishes_repeated (more : bounds.allowsMore 0)
    (finishes : (repeated item collector bounds).Finishes rules source start state
      (result, final)) :
    ∃ outcome middle ended,
      item.Finishes rules source start (state.recordAll collector.supply.emitted)
          (outcome, middle) ∧
        (repetition item collector bounds outcome).Finishes rules source (start + outcome.advance)
            (middle.recordAll ((repeated item collector bounds).eventsAfter start outcome))
            (ended, final) ∧
          result = ended.advancedBy outcome.advance := by
  obtain ⟨steps, finished⟩ := finishes
  rw [run_repeated] at finished
  cases steps with
  | zero => cases finished
  | succ rounds =>
      rw [repeated_succ_apply rounds more] at finished
      obtain ⟨⟨outcome, middle⟩, begun, rest⟩ := Option.bind_eq_some_iff.mp finished
      cases outcome with
      | success width value =>
          obtain ⟨⟨ended, last⟩, followed, advanced⟩ := Option.map_eq_some_iff.mp rest
          cases advanced
          have larger := Parser.Approximates.refl (item.run rules (rounds + 1))
          have longer := larger.repeated (journaled (collector.taking value)) (bounds.drop 1)
            (Nat.le_succ rounds) source _ _ _ followed
          rw [← run_repeated] at longer
          exact ⟨.success width value, middle, ended, ⟨_, begun⟩, ⟨_, longer⟩, rfl⟩
      | failure =>
          cases rest
          refine ⟨.failure, middle, _, ⟨_, begun⟩,
            finishes_repetition_failure item collector bounds _ _, ?_⟩
          simp [Outcome.advance]

end Repetitions

/-- A grammar that goes on behind a first part finishes when the part does, and then the grammar
that its outcome chooses. -/
theorem finishes_continued_iff (shape : grammar.form rules source = .continued first next) :
    grammar.Finishes rules source start state (result, final) ↔
      ∃ outcome middle ended,
        first.Finishes rules source start (grammar.enter rules source start state)
            (outcome, middle) ∧
          (next outcome).Finishes rules source (start + outcome.advance)
              (grammar.leave start state outcome middle) (ended, final) ∧
            result = ended.advancedBy outcome.advance := by
  by_cases loops : ∃ item collector bounds, grammar = .repeated item collector bounds
  · obtain ⟨item, collector, bounds, rfl⟩ := loops
    by_cases more : bounds.allowsMore 0
    · cases (form_repeated_of_more more).symm.trans shape
      rw [enter_repeated_of_more more]
      constructor
      · exact exists_parts_of_finishes_repeated more
      · rintro ⟨outcome, middle, ended, beginning, following, rfl⟩
        exact finishes_repeated_of_parts more beginning following
    · cases (form_repeated_of_exhausted more).symm.trans shape
  · have once (item : Grammar ε ν) (collector : ValueCollector ν) (bounds : RepeatBounds) :
        grammar ≠ .repeated item collector bounds :=
      fun equal => loops ⟨item, collector, bounds, equal⟩
    constructor
    · rintro ⟨steps, finished⟩
      rw [run_continued steps shape once] at finished
      obtain ⟨⟨outcome, middle⟩, begun, rest⟩ := Option.bind_eq_some_iff.mp finished
      obtain ⟨⟨ended, last⟩, followed, advanced⟩ := Option.map_eq_some_iff.mp rest
      cases advanced
      exact ⟨outcome, middle, ended, ⟨steps, begun⟩, ⟨steps, followed⟩, rfl⟩
    · rintro ⟨outcome, middle, ended, ⟨steps, begun⟩, ⟨others, followed⟩, rfl⟩
      refine ⟨max steps others, ?_⟩
      rw [run_continued _ shape once, run_mono (Nat.le_max_left steps others) begun,
        Option.bind_some, run_mono (Nat.le_max_right steps others) followed]
      rfl

end Grammar

end RecursiveDescent
