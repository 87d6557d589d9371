import RecursiveDescent.Proofs.Watches

/-!
# Watched attempts leave a nested trace

The trace of a run is what it enters into the journal.  Each attempt of a watched parser contributes
a block to it: the record that opens the attempt, what the parser inside enters, and the record that
closes it at the same position with the outcome that the caller sees.

So the trace is a properly nested word, with as many openings as closings of every watch.  This
holds whatever becomes of the attempts: a lookahead may forget that they consumed anything, a
choice or a repetition may turn their failure into a match, and a memo table may save further
attempts.
-/

namespace RecursiveDescent

variable {ε ν : Type}

section Nesting

variable [DecidableEq ε] (rules : Rules ε ν) (source : Array ε)

/-- In the given state, an attempt of the watched grammar comes to the outcome, and the grammar
inside enters the given events between the records that open and close the attempt. -/
def Watch.Encloses (watch : Watch) (inner : Grammar ε ν) (position : Nat)
    (before : ParserState ν) (outcome : Outcome ν) (inside : List (Event ν)) : Prop :=
  ∃ middle,
    inner.Finishes rules source position (before.record (watch.opening source position))
        (outcome, middle) ∧
      middle.events = before.events ++ watch.opening source position :: inside ∧
      (watch.around inner).Finishes rules source position before
        (outcome, middle.record (watch.closing position outcome))

/-- The events, entered behind some journal in the course of a run, are properly nested.  They are
records of the attempts of chosen grammars that the run consists of, each attempt with all that is
entered inside, and events apart from these. -/
inductive NestedTrace (chosen : Watch → Grammar ε ν → Prop) (run : Situation ε ν) :
    List (Event ν) → List (Event ν) → Prop where
  | nil {journal} : NestedTrace chosen run journal []
  | apart {journal event events} (apart : event.Apart chosen)
      (rest : NestedTrace chosen run (journal ++ [event]) events) :
      NestedTrace chosen run journal (event :: events)
  | attempt {journal watch inner position before outcome inside events}
      (marked : chosen watch inner)
      (attempted : Relation.ReflTransGen (Grammar.During rules source)
        (watch.around inner, position, before) run)
      (begun : before.events = journal)
      (encloses : watch.Encloses rules source inner position before outcome inside)
      (nested : NestedTrace chosen run (journal ++ [watch.opening source position]) inside)
      (rest : NestedTrace chosen run
        (journal ++ watch.opening source position ::
          (inside ++ [watch.closing position outcome])) events) :
      NestedTrace chosen run journal
        (watch.opening source position :: (inside ++ watch.closing position outcome :: events))

variable {rules source} {chosen : Watch → Grammar ε ν → Prop}

namespace NestedTrace

variable {run outer : Situation ε ν} {journal events more : List (Event ν)}

theorem of_apart (apart : ∀ event ∈ events, event.Apart chosen) :
    NestedTrace rules source chosen run journal events := by
  induction events generalizing journal with
  | nil => exact .nil
  | cons event events induction =>
      apply NestedTrace.apart (apart event List.mem_cons_self)
      apply induction
      intro other member
      exact apart other (List.mem_cons_of_mem _ member)

theorem append (first : NestedTrace rules source chosen run journal events)
    (second : NestedTrace rules source chosen run (journal ++ events) more) :
    NestedTrace rules source chosen run journal (events ++ more) := by
  induction first with
  | nil =>
      rw [List.append_nil] at second
      exact second
  | apart apart _ restCase =>
      apply NestedTrace.apart apart
      apply restCase
      rw [List.append_assoc]
      exact second
  | @attempt journal watch inner position before outcome inside events marked attempted begun
      encloses nested rest nestedCase restCase =>
      have following := restCase (by simpa using second)
      have joined := NestedTrace.attempt marked attempted begun encloses nested following
      simpa using joined

/-- A trace of an attempt is nested in a run that consists, among others, of the attempt. -/
theorem within (nested : NestedTrace rules source chosen run journal events)
    (attempted : Relation.ReflTransGen (Grammar.During rules source) run outer) :
    NestedTrace rules source chosen outer journal events := by
  induction nested with
  | nil => exact .nil
  | apart apart _ restCase => exact .apart apart restCase
  | attempt marked way begun encloses _ _ nestedCase restCase =>
      exact .attempt marked (way.trans attempted) begun encloses nestedCase restCase

/-- A nested trace opens as many attempts under a watch as it closes. -/
theorem countP_opens {watch : Watch} {inner : Grammar ε ν} (marked : chosen watch inner)
    (nested : NestedTrace rules source chosen run journal events) :
    events.countP (fun event => event.role = .opens watch) =
      events.countP fun event => event.role = .closes watch := by
  induction nested with
  | nil => rfl
  | apart apart _ restCase =>
      obtain ⟨noOpening, noClosing⟩ := apart watch inner marked
      simp [noOpening, noClosing, restCase]
  | attempt _ _ _ _ _ _ nestedCase restCase =>
      simp [List.countP_cons, List.countP_append, nestedCase, restCase]
      omega

end NestedTrace

/-- What has been entered from the situation to the final state is nested. -/
def EntersNested (rules : Rules ε ν) (source : Array ε) (chosen : Watch → Grammar ε ν → Prop)
    (run : Situation ε ν) (final : ParserState ν) : Prop :=
  ∃ events, final.events = run.2.2.events ++ events ∧
    NestedTrace rules source chosen run run.2.2.events events

namespace EntersNested

variable {grammar part first : Grammar ε ν} {adjust : Nat → Outcome ν → Outcome ν}
  {next : Outcome ν → Grammar ε ν} {start : Nat} {outcome : Outcome ν}
  {state middle final : ParserState ν}

theorem around {watch : Watch} (marked : chosen watch part)
    (begun : part.Finishes rules source start (state.record (watch.opening source start))
      (outcome, middle))
    (inside : EntersNested rules source chosen
      (part, start, state.record (watch.opening source start)) middle) :
    EntersNested rules source chosen (watch.around part, start, state)
      (middle.record (watch.closing start outcome)) := by
  obtain ⟨events, entered, nested⟩ := inside
  simp only [ParserState.events_record] at entered nested
  have enclosed : middle.events = state.events ++ watch.opening source start :: events := by
    simp [entered]
  have finishes := Watch.finishes_around_iff.mpr ⟨middle, begun, rfl⟩
  have within := nested.within (watch.attempted_around part start state).to_reflTransGen
  have block := NestedTrace.attempt marked .refl rfl ⟨middle, begun, enclosed, finishes⟩ within .nil
  refine ⟨_, ?_, block⟩
  simp [enclosed]

theorem of_remembered {cell width : Nat} (inner : Grammar ε ν) :
    EntersNested rules source chosen (.memoized cell inner, start, state)
      (state.answered cell start width) :=
  ⟨_, state.events_answered cell start width, .apart (Event.apart_of_neither rfl) .nil⟩

theorem of_settled (quiet : grammar.Quiet chosen) :
    EntersNested rules source chosen (grammar, start, state)
      (grammar.enter rules source start state) :=
  ⟨_, grammar.events_enter rules source start state,
    .of_apart (quiet.eventsOfEntry rules source start)⟩

theorem of_adjusted (quiet : grammar.Quiet chosen)
    (shape : grammar.form rules source = .adjusted part adjust)
    (unanswered : grammar.answer? start state = none) (outcome : Outcome ν)
    (inside : EntersNested rules source chosen
      (part, start, grammar.enter rules source start state) middle) :
    EntersNested rules source chosen (grammar, start, state)
      (grammar.leave start state outcome middle) := by
  obtain ⟨events, entered, nested⟩ := inside
  simp only [Grammar.events_enter] at entered nested
  have within := nested.within (.single (.part shape unanswered))
  have before : NestedTrace rules source chosen (grammar, start, state) state.events _ :=
    .of_apart (quiet.eventsOfEntry rules source start)
  have after (journal : List (Event ν)) : NestedTrace rules source chosen (grammar, start, state)
      journal (grammar.eventsAfter start outcome) :=
    .of_apart (quiet.eventsAfter start outcome)
  refine ⟨_, ?_, before.append (within.append (after _))⟩
  simp [entered]

theorem of_continued (quiet : grammar.Quiet chosen)
    (shape : grammar.form rules source = .continued first next)
    (beginning : first.Finishes rules source start (grammar.enter rules source start state)
      (outcome, middle))
    (begins : EntersNested rules source chosen
      (first, start, grammar.enter rules source start state) middle)
    (follows : EntersNested rules source chosen
      (next outcome, start + outcome.advance, grammar.leave start state outcome middle) final) :
    EntersNested rules source chosen (grammar, start, state) final := by
  obtain ⟨events, entered, nested⟩ := begins
  obtain ⟨more, enteredLater, nestedLater⟩ := follows
  simp only [Grammar.events_enter] at entered nested
  simp only [Grammar.events_leave, entered] at enteredLater nestedLater
  have before : NestedTrace rules source chosen (grammar, start, state) state.events _ :=
    .of_apart (quiet.eventsOfEntry rules source start)
  have within := nested.within (.single (.first shape))
  have between (journal : List (Event ν)) : NestedTrace rules source chosen
      (grammar, start, state) journal (grammar.eventsAfter start outcome) :=
    .of_apart (quiet.eventsAfter start outcome)
  have later := nestedLater.within (.single (.next shape beginning))
  refine ⟨_, enteredLater.trans ?_,
    before.append (within.append ((between _).append later))⟩
  simp

end EntersNested

variable {grammar : Grammar ε ν} {start : Nat} {outcome : Outcome ν} {state final : ParserState ν}

/-- What a run enters is nested.  The induction is on the attempts that the run consists of, also on
those that its attempts consist of: three attempts lead from a watched grammar to the one inside. -/
theorem Grammar.Finishes.entersNested
    (finishes : grammar.Finishes rules source start state (outcome, final))
    (rulesWatched : rules.Watched chosen) (watched : grammar.Watched chosen) :
    EntersNested rules source chosen (grammar, start, state) final := by
  have descent := finishes.acc.transGen
  generalize named : (grammar, start, state) = run at descent
  induction descent generalizing grammar start state outcome final with
  | intro run _ attemptCase =>
      obtain rfl := named
      cases watched with
      | @watched watch inner marked inside =>
          -- Hooks alone are not watched, so nothing is known of the two attempts in between.
          obtain ⟨middle, begun, rfl⟩ := Watch.finishes_around_iff.mp finishes
          have nested := attemptCase _ (watch.attempted_around inner start state) begun inside rfl
          exact .around marked begun nested
      | built quiet parts =>
          have partsWatched := quiet.form parts rulesWatched source
          cases shape : grammar.form rules source with
          | settled settled =>
              obtain ⟨-, rfl⟩ := (Grammar.finishes_settled_iff shape).mp finishes
              exact .of_settled quiet
          | adjusted part adjust =>
              rw [shape] at partsWatched
              cases answered : grammar.answer? start state with
              | some entry =>
                  obtain ⟨width, value⟩ := entry
                  obtain ⟨cell, inner, rfl, remembered⟩ :=
                    Grammar.exists_memoized_of_answer answered
                  cases finishes.unique (Grammar.finishes_of_remembered remembered)
                  exact .of_remembered inner
              | none =>
                  obtain ⟨result, middle, inside, -, rfl⟩ :=
                    (Grammar.finishes_adjusted_iff shape answered).mp finishes
                  have nested :=
                    attemptCase _ (.single (.part shape answered)) inside partsWatched rfl
                  exact .of_adjusted quiet shape answered result nested
          | continued first next =>
              rw [shape] at partsWatched
              obtain ⟨result, middle, ended, beginning, following, -⟩ :=
                (Grammar.finishes_continued_iff shape).mp finishes
              have begins := attemptCase _ (.single (.first shape)) beginning partsWatched.1 rfl
              have follows := attemptCase _ (.single (.next shape beginning)) following
                (partsWatched.2 result) rfl
              exact .of_continued quiet shape beginning begins follows

/-- An attempt of a watched grammar in the course of a run contributes its block to the trace. -/
theorem Watch.exists_encloses (watch : Watch) {inner : Grammar ε ν} {position : Nat}
    {before : ParserState ν}
    (finishes : grammar.Finishes rules source start state (outcome, final))
    (attempted : Relation.ReflTransGen (Grammar.During rules source)
      (watch.around inner, position, before) (grammar, start, state)) :
    ∃ result inside earlier later,
      watch.Encloses rules source inner position before result inside ∧
        before.events = state.events ++ earlier ∧
        final.events = before.events ++ watch.opening source position ::
          (inside ++ watch.closing position result :: later) := by
  obtain ⟨result, last, around, ⟨earlier, begun⟩, ⟨later, ended⟩⟩ :=
    Grammar.exists_finishes_of_attempted attempted finishes
  obtain ⟨middle, insideFinishes, rfl⟩ := Watch.finishes_around_iff.mp around
  obtain ⟨inside, entered⟩ := insideFinishes.events_prefix
  simp only [ParserState.events_record] at entered ended
  have enclosed : middle.events = before.events ++ watch.opening source position :: inside := by
    simp [← entered]
  refine ⟨result, inside, earlier, later, ⟨middle, insideFinishes, enclosed, around⟩, begun.symm, ?_⟩
  simp [← ended, enclosed]

/-- When all records of chosen watches come from watches around chosen grammars, every run that
finishes enters a properly nested trace, which opens and closes each of these watches equally often.
Conversely, each attempt of a watched grammar that the run consists of has its block in the trace:
the record that opens it, what the grammar inside enters, and the record that closes it with the
outcome that the attempt comes to. -/
theorem Grammar.watched_attempts_nest (rulesWatched : rules.Watched chosen)
    (watched : grammar.Watched chosen)
    (finishes : grammar.Finishes rules source start state (outcome, final)) :
    (∃ events, final.events = state.events ++ events ∧
      NestedTrace rules source chosen (grammar, start, state) state.events events ∧
      ∀ watch inner, chosen watch inner →
        events.countP (fun event => event.role = .opens watch) =
          events.countP fun event => event.role = .closes watch) ∧
    ∀ watch inner position before,
      Relation.ReflTransGen (Grammar.During rules source)
          (Watch.around watch inner, position, before) (grammar, start, state) →
        ∃ result inside earlier later,
          watch.Encloses rules source inner position before result inside ∧
            before.events = state.events ++ earlier ∧
            final.events = before.events ++ watch.opening source position ::
              (inside ++ watch.closing position result :: later) := by
  constructor
  · obtain ⟨events, entered, nested⟩ := finishes.entersNested rulesWatched watched
    exact ⟨events, entered, nested, fun watch inner marked => nested.countP_opens marked⟩
  · intro watch inner position before attempted
    exact watch.exists_encloses finishes attempted

end Nesting

/-! The sum of the even numbers ahead, if there are any.  The head is looked at first, the last
attempt of a number fails and is turned into an empty sum, and the attempts of sums are inside one
another. -/

namespace Grammar

def even : Grammar Nat Nat :=
  .element (fun found => found % 2 = 0) id

def sumOfEvens : Grammar Nat Nat :=
  .choice (.sequence (Watch.around (.hooks "even") even) (.rule 0) (· + ·))
    (Watch.around (.trace "rest") (.succeed 0))

def someEvens : Grammar Nat Nat :=
  .sequence (.ahead (Watch.around (.hooks "even") even)) (.rule 0) fun _ total => total

def sumRules : Rules Nat Nat :=
  #[.forward (some (Watch.around (.hooks "sum") sumOfEvens))]

/-- One tag for each of the parsers that are watched. -/
inductive EvensWatch : Watch → Grammar Nat Nat → Prop where
  | even : EvensWatch (.hooks "even") even
  | sum : EvensWatch (.hooks "sum") sumOfEvens
  | rest : EvensWatch (.trace "rest") (.succeed 0)

theorem watched_even : (Watch.around (.hooks "even") even).Watched EvensWatch :=
  .watched .even (.built trivial fun _ isPart => isPart.elim)

theorem watched_someEvens : someEvens.Watched EvensWatch := by
  refine .built trivial ?_
  rintro part (rfl | rfl)
  · exact watched_even.of_part trivial fun _ => id
  · exact watched_rule 0

theorem watched_sumRules : sumRules.Watched EvensWatch := by
  intro index body found
  obtain rfl := Rules.eq_of_body?_single found
  apply Watched.watched EvensWatch.sum
  refine .built trivial ?_
  rintro part (rfl | rfl)
  · refine .built trivial ?_
    rintro part (rfl | rfl)
    · exact watched_even
    · exact watched_rule 0
  · exact .watched .rest (watched_succeed 0)

def evensEvents : List (Event Nat) :=
  [.attempted "even" 0, .succeeded "even" 0 1 4,
    .attempted "sum" 0, .attempted "even" 0, .succeeded "even" 0 1 4,
      .attempted "sum" 1, .attempted "even" 1, .failed "even" 1,
        .logged (.trying "rest" 1 2), .logged (.matched "rest" 0 1),
      .succeeded "sum" 1 0 0,
    .succeeded "sum" 0 1 4]

theorem finishes_someEvens (state : ParserState Nat) :
    someEvens.Finishes sumRules #[4, 3] 0 state (.success 1 4, state.recordAll evensEvents) :=
  ⟨3, rfl⟩

theorem watched_attempts_nest_someEvens :
    NestedTrace sumRules #[4, 3] EvensWatch (someEvens, 0, .initial) [] evensEvents ∧
      evensEvents.countP (fun event => event.role = .opens (.hooks "even")) =
        evensEvents.countP (fun event => event.role = .closes (.hooks "even")) ∧
      ∃ result inside later,
        Watch.Encloses sumRules #[4, 3] (.hooks "even") even 0 .initial result inside ∧
          evensEvents =
            .attempted "even" 0 :: (inside ++ Watch.closing (.hooks "even") 0 result :: later) := by
  obtain ⟨⟨events, entered, nested, counted⟩, blocks⟩ := watched_attempts_nest watched_sumRules
    watched_someEvens (finishes_someEvens .initial)
  rw [ParserState.events_recordAll] at entered blocks
  obtain rfl := List.append_cancel_left entered
  have lookahead : Relation.ReflTransGen (During sumRules #[4, 3])
      (Watch.around (.hooks "even") even, 0, .initial) (someEvens, 0, .initial) := by
    have inside : During sumRules #[4, 3] (Watch.around (.hooks "even") even, 0, .initial)
        (.ahead (Watch.around (.hooks "even") even), 0, .initial) :=
      .part_of_enter_eq rfl rfl rfl
    have begins : During sumRules #[4, 3] (.ahead (Watch.around (.hooks "even") even), 0,
        someEvens.enter sumRules #[4, 3] 0 .initial) (someEvens, 0, .initial) :=
      .first rfl
    exact .tail (.single inside) begins
  obtain ⟨result, inside, earlier, later, encloses, -, enclosed⟩ := blocks _ _ _ _ lookahead
  exact ⟨nested, counted _ _ .even, result, inside, later, encloses, enclosed⟩

end Grammar

end RecursiveDescent
