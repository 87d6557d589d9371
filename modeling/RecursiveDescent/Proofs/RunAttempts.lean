import RecursiveDescent.Proofs.FinishedRuns

/-!
# The attempts that a run consists of

`Grammar.During` relates a run to the attempts that it consists of.  Each of these is made at a
position and in a state, and the state tells what has happened before: what the memo tables
remember by then, and which events have been entered.

A run finishes exactly when there is no endless descent into such attempts, which is
`Grammar.exists_finishes_iff_acc`.  So a property of finished runs can be shown by induction on the
attempts that they consist of.
-/

namespace RecursiveDescent

variable {ε ν : Type}

/-- A grammar to be matched from a position on, in a state. -/
abbrev Situation (ε ν : Type) : Type 1 :=
  Grammar ε ν × Nat × ParserState ν

namespace Grammar

variable [DecidableEq ε] (rules : Rules ε ν) (source : Array ε)

/-- The run in the second situation consists, among others, of an attempt in the first one. -/
inductive During : Situation ε ν → Situation ε ν → Prop where
  | part {grammar part adjust start state}
      (shape : grammar.form rules source = .adjusted part adjust)
      (unanswered : grammar.answer? start state = none) :
      During (part, start, grammar.enter rules source start state) (grammar, start, state)
  | first {grammar first next start state}
      (shape : grammar.form rules source = .continued first next) :
      During (first, start, grammar.enter rules source start state) (grammar, start, state)
  | next {grammar first next start state outcome middle}
      (shape : grammar.form rules source = .continued first next)
      (beginning : first.Finishes rules source start (grammar.enter rules source start state)
        (outcome, middle)) :
      During (next outcome, start + outcome.advance, grammar.leave start state outcome middle)
        (grammar, start, state)

variable {rules source} {grammar part first : Grammar ε ν}
  {adjust : Nat → Outcome ν → Outcome ν} {next : Outcome ν → Grammar ε ν} {start : Nat}
  {outcome : Outcome ν} {state final : ParserState ν}

theorem During.part_of_enter_eq {entered : ParserState ν}
    (shape : grammar.form rules source = .adjusted part adjust)
    (unanswered : grammar.answer? start state = none)
    (entering : grammar.enter rules source start state = entered) :
    During rules source (part, start, entered) (grammar, start, state) := by
  rw [← entering]
  exact .part shape unanswered

theorem acc_during_of_settled {settled : Nat → Outcome ν} (start : Nat) (state : ParserState ν)
    (shape : grammar.form rules source = .settled settled) :
    Acc (During rules source) (grammar, start, state) := by
  constructor
  intro inner during
  cases during with
  | part other _ => cases shape.symm.trans other
  | first other => cases shape.symm.trans other
  | next other _ => cases shape.symm.trans other

theorem acc_during_of_adjusted (shape : grammar.form rules source = .adjusted part adjust)
    (inside : grammar.answer? start state = none →
      Acc (During rules source) (part, start, grammar.enter rules source start state)) :
    Acc (During rules source) (grammar, start, state) := by
  constructor
  intro inner during
  cases during with
  | part other unanswered =>
      cases shape.symm.trans other
      exact inside unanswered
  | first other => cases shape.symm.trans other
  | next other _ => cases shape.symm.trans other

theorem acc_during_of_continued (shape : grammar.form rules source = .continued first next)
    (beginning : Acc (During rules source)
      (first, start, grammar.enter rules source start state))
    (following : ∀ outcome middle,
      first.Finishes rules source start (grammar.enter rules source start state)
          (outcome, middle) →
        Acc (During rules source)
          (next outcome, start + outcome.advance, grammar.leave start state outcome middle)) :
    Acc (During rules source) (grammar, start, state) := by
  constructor
  intro inner during
  cases during with
  | part other _ => cases shape.symm.trans other
  | first other =>
      cases shape.symm.trans other
      exact beginning
  | next other begun =>
      cases shape.symm.trans other
      exact following _ _ begun

/-- Where the parser finishes, there is no endless descent from the grammar. -/
def Grounded (rules : Rules ε ν) (source : Array ε) (grammar : Grammar ε ν)
    (parser : Parser (ParserState ν) ε ν) : Prop :=
  ∀ start state result, parser source start state = some result →
    Acc (During rules source) (grammar, start, state)

theorem grounded_of_settled {settled : Nat → Outcome ν} {parser : Parser (ParserState ν) ε ν}
    (shape : grammar.form rules source = .settled settled) :
    grammar.Grounded rules source parser :=
  fun start state _ _ => acc_during_of_settled start state shape

theorem grounded_of_adjusted {steps : Nat}
    (shape : grammar.form rules source = .adjusted part adjust)
    (noRule : ∀ index, grammar ≠ .rule index)
    (inside : part.Grounded rules source (part.run rules steps)) :
    grammar.Grounded rules source (grammar.run rules steps) := by
  intro start state result finished
  apply acc_during_of_adjusted shape
  intro unanswered
  rw [run_adjusted steps shape noRule unanswered] at finished
  obtain ⟨begun, reached, _⟩ := Option.map_eq_some_iff.mp finished
  exact inside _ _ begun reached

theorem grounded_of_continued {steps : Nat}
    (shape : grammar.form rules source = .continued first next)
    (once : ∀ item collector bounds, grammar ≠ .repeated item collector bounds)
    (begins : first.Grounded rules source (first.run rules steps))
    (follows : ∀ outcome, (next outcome).Grounded rules source ((next outcome).run rules steps)) :
    grammar.Grounded rules source (grammar.run rules steps) := by
  intro start state result finished
  rw [run_continued steps shape once] at finished
  obtain ⟨⟨outcome, middle⟩, begun, rest⟩ := Option.bind_eq_some_iff.mp finished
  obtain ⟨ended, followed, _⟩ := Option.map_eq_some_iff.mp rest
  apply acc_during_of_continued shape (begins _ _ _ begun)
  intro other last beginning
  cases beginning.unique ⟨steps, begun⟩
  exact follows outcome _ _ ended followed

theorem grounded_repeated {steps : Nat} {item : Grammar ε ν}
    (items : item.Grounded rules source (item.run rules steps)) (rounds : Nat)
    (collector : ValueCollector ν) (bounds : RepeatBounds) :
    (repeated item collector bounds).Grounded rules source
      (Parser.repeated rounds (item.run rules steps) (journaled collector) bounds) := by
  induction rounds generalizing collector bounds with
  | zero =>
      intro start state result finished
      cases finished
  | succ rounds induction =>
      intro start state result finished
      by_cases more : bounds.allowsMore 0
      · rw [repeated_succ_apply rounds more] at finished
        obtain ⟨⟨outcome, middle⟩, begun, rest⟩ := Option.bind_eq_some_iff.mp finished
        apply acc_during_of_continued (form_repeated_of_more more)
        · rw [enter_repeated_of_more more]
          exact items _ _ _ begun
        · intro other last beginning
          rw [enter_repeated_of_more more] at beginning
          cases beginning.unique ⟨steps, begun⟩
          cases outcome with
          | success width value =>
              obtain ⟨ended, followed, _⟩ := Option.map_eq_some_iff.mp rest
              exact induction _ _ _ _ ended followed
          | failure =>
              exact acc_during_of_settled _ _
                (form_repetition_failure rules source item collector bounds)
      · exact acc_during_of_settled start state (form_repeated_of_exhausted more)

theorem grounded_sequence {steps : Nat} {second : Grammar ε ν} (combine : ν → ν → ν)
    (begins : first.Grounded rules source (first.run rules steps))
    (follows : second.Grounded rules source (second.run rules steps)) :
    (sequence first second combine).Grounded rules source
      ((sequence first second combine).run rules steps) := by
  refine grounded_of_continued rfl nofun begins fun outcome => ?_
  cases outcome with
  | success width value => exact grounded_of_adjusted rfl nofun follows
  | failure => exact grounded_of_settled rfl

theorem grounded_pairs {steps : Nat} {item delimiter : Grammar ε ν} (combine : ν → ν → ν)
    (headCollector : ν → ValueCollector ν)
    (items : item.Grounded rules source (item.run rules steps))
    (delimiters : delimiter.Grounded rules source (delimiter.run rules steps))
    (outcome : Outcome ν) :
    (pairs item delimiter combine headCollector outcome).Grounded rules source
      ((pairs item delimiter combine headCollector outcome).run rules steps) := by
  cases outcome with
  | success width head =>
      unfold pairs
      rw [run_repeated]
      exact grounded_repeated (grounded_sequence combine delimiters items) steps _ _
  | failure => exact grounded_of_settled rfl

/-- A run that finishes consists of no endless descent.  The induction is on the steps, of which a
rule spends one, and then on the grammar; a loop descends in its rounds. -/
theorem grounded_run (steps : Nat) (grammar : Grammar ε ν) :
    grammar.Grounded rules source (grammar.run rules steps) := by
  induction steps using Nat.strongRecOn generalizing grammar with
  | ind steps fewerCase =>
      induction grammar with
      | element _ _ | literal _ _ | fixedWidth _ _ | succeed _ | fail | endOfInput _
      | ofFunction _ => exact grounded_of_settled rfl
      | sequence first second combine firstCase secondCase =>
          exact grounded_sequence combine firstCase secondCase
      | choice first second firstCase secondCase =>
          refine grounded_of_continued rfl nofun firstCase fun outcome => ?_
          cases outcome with
          | success width value => exact grounded_of_settled rfl
          | failure => exact secondCase
      | repeated item collector bounds itemCase =>
          rw [run_repeated]
          exact grounded_repeated itemCase steps collector bounds
      | delimited item delimiter combine headCollector itemCase delimiterCase =>
          exact grounded_of_continued rfl nofun itemCase
            (grounded_pairs combine headCollector itemCase delimiterCase)
      | separated item delimiter collector itemCase delimiterCase =>
          exact grounded_of_continued rfl nofun itemCase
            (grounded_pairs (fun _ value => value) collector.accept itemCase delimiterCase)
      | bind first binder firstCase binderCase =>
          exact grounded_of_continued rfl nofun firstCase binderCase
      | rule index =>
          intro start state result finished
          cases defined : rules.body? index with
          | none => exact acc_during_of_settled start state (form_rule_of_undefined defined)
          | some body =>
              cases steps with
              | zero => cases finished
              | succ steps =>
                  -- The definition is no part of the grammar, but it is run with one step less.
                  rw [run_rule_defined defined] at finished
                  apply acc_during_of_adjusted (form_rule_of_defined defined)
                  intro _
                  exact fewerCase steps (Nat.lt_succ_self steps) body _ _ result finished
      | optional _ _ innerCase | ahead _ innerCase | notAhead _ _ innerCase | map _ _ innerCase
      | tryMap _ _ innerCase | filter _ _ innerCase | recognize _ _ innerCase
      | before _ _ innerCase | onSuccess _ _ innerCase | onFailure _ _ innerCase
      | traced _ _ innerCase | memoized _ _ innerCase | rebuilt _ _ innerCase
      | deferred _ _ innerCase => exact grounded_of_adjusted rfl nofun innerCase

theorem Finishes.acc {result : Outcome ν × ParserState ν}
    (finishes : grammar.Finishes rules source start state result) :
    Acc (During rules source) (grammar, start, state) := by
  obtain ⟨steps, finished⟩ := finishes
  exact grounded_run steps grammar start state result finished

/-- A run finishes when all attempts that it consists of do. -/
theorem exists_finishes_of_acc {situation : Situation ε ν}
    (descent : Acc (During rules source) situation) :
    ∃ result, situation.1.Finishes rules source situation.2.1 situation.2.2 result := by
  induction descent with
  | intro situation _ innerCase =>
      obtain ⟨grammar, start, state⟩ := situation
      cases shape : grammar.form rules source with
      | settled settled => exact ⟨_, finishes_settled shape start state⟩
      | adjusted part adjust =>
          cases answered : grammar.answer? start state with
          | some entry =>
              obtain ⟨width, value⟩ := entry
              obtain ⟨cell, inner, rfl, remembered⟩ := exists_memoized_of_answer answered
              exact ⟨_, finishes_of_remembered remembered⟩
          | none =>
              obtain ⟨result, inside⟩ := innerCase _ (.part shape answered)
              exact ⟨_, (finishes_adjusted_iff shape answered).mpr ⟨_, _, inside, rfl, rfl⟩⟩
      | continued first next =>
          obtain ⟨begun, beginning⟩ := innerCase _ (.first shape)
          obtain ⟨ended, following⟩ := innerCase _ (.next shape beginning)
          exact ⟨_, (finishes_continued_iff shape).mpr ⟨_, _, _, beginning, following, rfl⟩⟩

/-- A run finishes, in any state, exactly when there is no endless descent into the attempts that
it consists of. -/
theorem exists_finishes_iff_acc (grammar : Grammar ε ν) (start : Nat) (state : ParserState ν) :
    (∃ result, grammar.Finishes rules source start state result) ↔
      Acc (During rules source) (grammar, start, state) :=
  ⟨fun ⟨_, finishes⟩ => finishes.acc, exists_finishes_of_acc⟩

/-! ### The journal of a run holds those of its attempts -/

/-- A run only adds events to the journal. -/
theorem Finishes.events_prefix
    (finishes : grammar.Finishes rules source start state (outcome, final)) :
    state.events <+: final.events := by
  have descent := finishes.acc
  generalize named : (grammar, start, state) = situation at descent
  induction descent generalizing grammar start state outcome final with
  | intro situation _ innerCase =>
      obtain rfl := named
      have entered : state.events <+: (grammar.enter rules source start state).events := by simp
      cases shape : grammar.form rules source with
      | settled settled =>
          obtain ⟨-, rfl⟩ := (finishes_settled_iff shape).mp finishes
          exact entered
      | adjusted part adjust =>
          cases answered : grammar.answer? start state with
          | some entry =>
              obtain ⟨width, value⟩ := entry
              obtain ⟨cell, inner, rfl, remembered⟩ := exists_memoized_of_answer answered
              cases finishes.unique (finishes_of_remembered remembered)
              simp
          | none =>
              obtain ⟨result, middle, inside, -, rfl⟩ :=
                (finishes_adjusted_iff shape answered).mp finishes
              have within := innerCase _ (.part shape answered) inside rfl
              rw [events_leave]
              exact (entered.trans within).trans (List.prefix_append _ _)
      | continued first next =>
          obtain ⟨result, middle, ended, beginning, following, -⟩ :=
            (finishes_continued_iff shape).mp finishes
          have begun := innerCase _ (.first shape) beginning rfl
          have followed := innerCase _ (.next shape beginning) following rfl
          rw [events_leave] at followed
          exact ((entered.trans begun).trans (List.prefix_append _ _)).trans followed

/-- An attempt that a finished run consists of finishes too, and its events are among those of the
run. -/
theorem During.exists_finishes {inner outer : Situation ε ν}
    (during : During rules source inner outer)
    (finishes : outer.1.Finishes rules source outer.2.1 outer.2.2 (outcome, final)) :
    ∃ result last, inner.1.Finishes rules source inner.2.1 inner.2.2 (result, last) ∧
      outer.2.2.events <+: inner.2.2.events ∧ last.events <+: final.events := by
  cases during with
  | part shape unanswered =>
      obtain ⟨result, middle, inside, -, rfl⟩ :=
        (finishes_adjusted_iff shape unanswered).mp finishes
      exact ⟨result, middle, inside, by simp, by simp⟩
  | first shape =>
      obtain ⟨result, middle, ended, beginning, following, -⟩ :=
        (finishes_continued_iff shape).mp finishes
      have followed := following.events_prefix
      rw [events_leave] at followed
      exact ⟨result, middle, beginning, by simp, (List.prefix_append _ _).trans followed⟩
  | next shape beginning =>
      obtain ⟨result, middle, ended, begun, following, -⟩ :=
        (finishes_continued_iff shape).mp finishes
      cases beginning.unique begun
      have before := beginning.events_prefix
      rw [events_enter] at before
      refine ⟨ended, final, following, ?_, List.prefix_rfl⟩
      rw [events_leave]
      exact ((List.prefix_append _ _).trans before).trans (List.prefix_append _ _)

/-- The same of the attempts that these consist of, and so on. -/
theorem exists_finishes_of_attempted {inner outer : Situation ε ν}
    (attempted : Relation.ReflTransGen (During rules source) inner outer)
    (finishes : outer.1.Finishes rules source outer.2.1 outer.2.2 (outcome, final)) :
    ∃ result last, inner.1.Finishes rules source inner.2.1 inner.2.2 (result, last) ∧
      outer.2.2.events <+: inner.2.2.events ∧ last.events <+: final.events := by
  induction attempted generalizing outcome final with
  | refl => exact ⟨outcome, final, finishes, List.prefix_rfl, List.prefix_rfl⟩
  | tail _ during attemptedCase =>
      obtain ⟨result, last, middle, before, after⟩ := during.exists_finishes finishes
      obtain ⟨inside, least, innermost, earlier, later⟩ := attemptedCase middle
      exact ⟨inside, least, innermost, before.trans earlier, later.trans after⟩

end Grammar

end RecursiveDescent
