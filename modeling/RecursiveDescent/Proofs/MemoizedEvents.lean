import RecursiveDescent.Proofs.Transparency

/-!
# What memoization leaves of the journal

A memo table that answers saves an attempt, and with it everything that the attempt would have
entered into the journal.  Apart from that the journal of a memoized grammar is the journal of the
grammar without its tables: the same events in the same order, between the records that the
tables enter themselves.

Both sides are accounts of runs.  The run without tables enters exactly the events that the
grammar records; the run on sound tables enters some of them, and records of memo tables.
-/

namespace RecursiveDescent

variable {ε ν : Type}

/-- Whether the event says what a memo table was used for. -/
def Event.isTableRecord : Event ν → Bool
  | .logged (.memoHit _ _ _) => true
  | .logged (.memoMiss _ _) => true
  | _ => false

def Event.isHook : Event ν → Bool
  | .attempted _ _ => true
  | .succeeded _ _ _ _ => true
  | .failed _ _ => true
  | _ => false

theorem Event.not_isTableRecord_of_isHook {event : Event ν} (hook : event.isHook) :
    !event.isTableRecord := by
  cases event with
  | attempted _ _ | succeeded _ _ _ _ | failed _ _ => rfl
  | resolved _ | expanded _ | supplied _ | accumulated _ _ | finished _ | logged _ => cases hook

/-- The events of a run, apart from what it used memo tables for. -/
def Event.ordinary (events : List (Event ν)) : List (Event ν) :=
  events.filter fun event => !event.isTableRecord

def Event.hooks (events : List (Event ν)) : List (Event ν) :=
  events.filter Event.isHook

theorem Event.ordinary_append (first second : List (Event ν)) :
    Event.ordinary (first ++ second) = Event.ordinary first ++ Event.ordinary second := by
  simp [Event.ordinary]

theorem Event.hooks_ordinary (events : List (Event ν)) :
    Event.hooks (Event.ordinary events) = Event.hooks events := by
  unfold Event.hooks Event.ordinary
  rw [List.filter_filter]
  apply List.filter_congr
  intro event _
  cases hook : event.isHook with
  | false => rfl
  | true => simpa using Event.not_isTableRecord_of_isHook hook

/-! ### The run without memo tables -/

/-- The engine that runs on a journal alone. -/
def Engine.untabled : Engine (ParserState ν) ε ν where
  record event state := state.record event
  memoized _ inner := inner
  withFreshTables _ inner := inner

theorem Parser.withFreshTables_nil (inner : Parser (ParserState ν) ε ν) :
    Parser.withFreshTables [] inner = inner := by
  funext source start state
  rw [Parser.withFreshTables_apply]
  exact congrFun Option.map_id _

namespace Grammar

variable [DecidableEq ε]

theorem parserOn_withoutTables (rounds : Nat) (invoke : Nat → Parser (ParserState ν) ε ν)
    (grammar : Grammar ε ν) :
    grammar.withoutTables.parserOn Engine.tables rounds invoke =
      grammar.parserOn Engine.untabled rounds invoke := by
  induction grammar with
  | rebuilt cells inner innerCase =>
      simp only [withoutTables, parserOn, innerCase]
      exact Parser.withFreshTables_nil _
  | _ => simp only [withoutTables, parserOn, *] <;> rfl

theorem run_withoutTables (rules : Rules ε ν) (steps : Nat) (grammar : Grammar ε ν) :
    grammar.withoutTables.run rules.withoutTables steps =
      grammar.runOn Engine.untabled rules steps := by
  rw [run_eq_runOn]
  induction steps generalizing grammar with
  | zero => exact parserOn_withoutTables _ _ grammar
  | succ steps induction =>
      unfold runOn
      rw [parserOn_withoutTables]
      congr 1
      funext index source start
      unfold Rules.invokeOn Rules.withoutTables
      rw [Array.getElem?_map]
      cases rules[index]? with
      | none => rfl
      | some rule =>
          cases rule with
          | recursive tag cells body =>
              simp only [Option.map_some, Rule.withoutTables, ← induction]
              rfl
          | forward definition =>
              cases definition with
              | none => rfl
              | some definition =>
                  simp only [Option.map_some, Rule.withoutTables, ← induction]
                  rfl

end Grammar

section Accounts

variable [DecidableEq ε] (rules : Rules ε ν) (source : Array ε) (owner : Nat → Grammar ε ν)

/-- Without memo tables a run enters the events that the grammar records, and no others. -/
def journalAccount : Account Engine.untabled rules source owner where
  sound _ := True
  change _ events before after := after.events = before.events ++ events
  change_nil _ state := by rw [List.append_nil]
  change_append _ events more first second third entered following := by
    rw [following, entered, List.append_assoc]
  change_within _ _ _ _ _ _ entered := entered
  sound_record _ _ _ := trivial
  change_record _ event state := ParserState.events_record state event
  records_memoized cell start parser records state outcome final sound finished := by
    obtain ⟨events, recorded, kept, entered⟩ := records state outcome final sound finished
    exact ⟨events, .passed rfl rfl rfl recorded, kept, entered⟩
  records_withFreshTables cells inner start parser records state outcome final sound finished := by
    obtain ⟨events, recorded, kept, entered⟩ := records state outcome final sound finished
    exact ⟨events, .passed rfl rfl rfl recorded, kept, entered⟩

/-- A run has entered some of the given events, in their order, and uses of memo tables. -/
def ParserState.EntersOf (events : List (Event ν)) (before after : ParserState ν) : Prop :=
  ∃ entered, after.events = before.events ++ entered ∧ (Event.ordinary entered).Sublist events

/-- On sound memo tables a run enters some of the events that the grammar records. -/
def memoizedAccount : Account Engine.tables rules source owner where
  sound := ParserState.Sound rules source owner
  change _ := ParserState.EntersOf
  change_nil _ state := ⟨[], (List.append_nil _).symm, .refl []⟩
  change_append _ events more first second third := by
    rintro ⟨entered, begun, some⟩ ⟨later, ended, others⟩
    refine ⟨entered ++ later, ?_, ?_⟩
    · rw [ended, begun, List.append_assoc]
    · rw [Event.ordinary_append]
      exact some.append others
  change_within _ _ _ _ _ _ entered := entered
  sound_record event _ sound := sound.record event
  change_record _ event state :=
    ⟨[event], ParserState.events_record state event, List.filter_sublist⟩
  records_memoized := by
    intro cell start parser records state outcome final sound finished
    cases found : (state.table cell).lookup? start with
    | some entry =>
        -- The attempt that is saved would have recorded events, of which none is entered.
        obtain ⟨width, value⟩ := entry
        have answer := Parser.memoized_of_remembered cell parser source start state found
        cases answer.symm.trans finished
        obtain ⟨events, recorded⟩ := (sound cell start width value found).exists_records
        refine ⟨events, .passed rfl rfl rfl recorded, sound.answered cell start width, ?_⟩
        exact ⟨_, state.events_answered cell start width, List.nil_sublist _⟩
    | none =>
        have opened := Parser.memoized_of_forgotten cell parser source start state found
        obtain ⟨⟨result, middle⟩, begun, ended⟩ :=
          Option.map_eq_some_iff.mp (opened.symm.trans finished)
        cases ended
        obtain ⟨events, recorded, kept, entered, within, fewer⟩ :=
          records _ result middle (sound.missed cell start) begun
        refine ⟨events, .passed rfl rfl rfl recorded, kept.remembering recorded.yields, ?_⟩
        refine ⟨.logged (.memoMiss cell start) :: entered, ?_, fewer⟩
        rw [ParserState.events_remembering, within, ParserState.events_missed]
        simp
  records_withFreshTables := by
    intro cells inner start parser records state outcome final sound finished
    have opened := Parser.withFreshTables_apply cells parser source start state
    obtain ⟨⟨result, middle⟩, begun, ended⟩ :=
      Option.map_eq_some_iff.mp (opened.symm.trans finished)
    cases ended
    obtain ⟨events, recorded, kept, entered, within, fewer⟩ :=
      records _ result middle (sound.cleared cells) begun
    refine ⟨events, .passed rfl rfl rfl recorded, kept.restored sound cells, entered, ?_, fewer⟩
    rw [ParserState.events_restored, within, ParserState.events_cleared]

end Accounts

namespace Grammar

variable [DecidableEq ε] {rules : Rules ε ν} {source : Array ε} {owner : Nat → Grammar ε ν}
  {grammar : Grammar ε ν} {start : Nat} {outcome : Outcome ν} {state final : ParserState ν}

/-- A grammar without memo tables enters exactly the events that it records. -/
theorem Finishes.events_withoutTables
    (finishes : grammar.withoutTables.Finishes rules.withoutTables source start state
      (outcome, final))
    (rulesTabulated : rules.Tabulate owner) (tabulated : grammar.Tabulates owner) :
    ∃ events, grammar.Records rules source start outcome events ∧
      final.events = state.events ++ events := by
  obtain ⟨steps, finished⟩ := finishes
  rw [run_withoutTables] at finished
  obtain ⟨events, records, _, entered⟩ := (journalAccount rules source owner).realizes_runOn
    rulesTabulated steps grammar tabulated start state outcome final trivial finished
  exact ⟨events, records, entered⟩

/-- On sound memo tables a grammar enters some of the events that it records. -/
theorem Finishes.entersOf
    (finishes : grammar.Finishes rules source start state (outcome, final))
    (rulesTabulated : rules.Tabulate owner) (tabulated : grammar.Tabulates owner)
    (sound : state.Sound rules source owner) :
    ∃ events, grammar.Records rules source start outcome events ∧
      final.Sound rules source owner ∧ state.EntersOf events final := by
  obtain ⟨steps, finished⟩ := finishes
  rw [run_eq_runOn] at finished
  exact (memoizedAccount rules source owner).realizes_runOn rulesTabulated steps grammar
    tabulated start state outcome final sound finished

/-- A call that its memo table answers enters the use of the table and nothing else. -/
theorem finishes_of_answer (inner : Grammar ε ν) {cell position width : Nat} {value : ν}
    (remembered : (state.table cell).lookup? position = some (width, value)) :
    ∃ last,
      (memoized cell inner).Finishes rules source position state (.success width value, last) ∧
        last.events = state.events ++ [.logged (.memoHit cell position width)] := by
  have answers := Parser.memoized_of_remembered cell (inner.parserOn Engine.tables 0 fun _ _ _ =>
    Attempt.unfinished) source position state remembered
  refine ⟨_, ⟨0, ?_⟩, state.events_answered cell position width⟩
  rw [run_eq_runOn]
  exact answers

/-- Calls on sound memo tables enter some of the events of the same calls without tables. -/
theorem exists_calls_withoutTables (rulesTabulated : rules.Tabulate owner)
    (tabulated : grammar.Tabulates owner) {starts : List Nat} {outcomes : List (Outcome ν)}
    (calls : grammar.FinishesEach rules source starts state outcomes final)
    (sound : state.Sound rules source owner) {bare : ParserState ν}
    (bareSound : bare.Sound rules.withoutTables source fun _ => fail) :
    ∃ events last,
      grammar.withoutTables.FinishesEach rules.withoutTables source starts bare outcomes last ∧
        last.events = bare.events ++ events ∧ state.EntersOf events final := by
  have bareTabulated := grammar.tabulates_withoutTables fun _ => (fail : Grammar ε ν)
  have bareRulesTabulated := tabulate_withoutTables rules fun _ => (fail : Grammar ε ν)
  induction calls generalizing bare with
  | nil state =>
      exact ⟨[], bare, .nil bare, (List.append_nil _).symm, [], (List.append_nil _).symm, .refl []⟩
  | @cons start starts state outcome middle outcomes final call rest restCase =>
      obtain ⟨events, records, soundMiddle, entered, within, fewer⟩ :=
        call.entersOf rulesTabulated tabulated sound
      obtain ⟨bareMiddle, bareCall⟩ := records.yields.withoutTables.completes
        bareRulesTabulated bareTabulated bare bareSound
      have bareSoundMiddle :=
        (bareCall.yields bareRulesTabulated bareTabulated bareSound).2
      obtain ⟨bareEvents, bareRecords, bareEntered⟩ :=
        bareCall.events_withoutTables rulesTabulated tabulated
      obtain ⟨-, rfl⟩ := records.unique bareRecords
      obtain ⟨others, last, bareRest, otherEntered, later, following, fewerOthers⟩ :=
        restCase soundMiddle bareSoundMiddle
      refine ⟨events ++ others, last, .cons bareCall bareRest, ?_, entered ++ later, ?_, ?_⟩
      · rw [otherEntered, bareEntered, List.append_assoc]
      · rw [following, within, List.append_assoc]
      · rw [Event.ordinary_append]
        exact fewer.append fewerOthers

/-- The hooks of a memoized grammar, called on memo tables that remember nothing at first, enter a
subsequence of what they enter without tables.  A call that a table answers enters no event of the
grammar inside. -/
theorem memoization_removes_events (rulesTabulated : rules.Tabulate owner)
    (tabulated : grammar.Tabulates owner)
    (forgotten : ∀ cell position, (state.table cell).lookup? position = none)
    {starts : List Nat} {outcomes : List (Outcome ν)}
    (calls : grammar.FinishesEach rules source starts state outcomes final) :
    (∃ entered bare, final.events = state.events ++ entered ∧
      grammar.withoutTables.FinishesEach rules.withoutTables source starts .initial outcomes bare ∧
      (Event.hooks entered).Sublist (Event.hooks bare.events)) ∧
    ∀ cell inner position (reached : ParserState ν) width value,
      (reached.table cell).lookup? position = some (width, value) →
        ∃ last,
          (memoized cell inner).Finishes rules source position reached
            (.success width value, last) ∧
          last.events = reached.events ++ [.logged (.memoHit cell position width)] := by
  have begins : state.Sound rules source owner := ParserState.sound_of_forgotten forgotten
  have bareBegins : (ParserState.initial : ParserState ν).Sound rules.withoutTables source
      fun _ => fail :=
    ParserState.sound_of_forgotten fun cell position => by simp
  constructor
  · obtain ⟨events, bare, bareCalls, bareEvents, entered, within, fewer⟩ :=
      exists_calls_withoutTables rulesTabulated tabulated calls begins bareBegins
    refine ⟨entered, bare, within, bareCalls, ?_⟩
    have noneBefore : (ParserState.initial : ParserState ν).events = [] := rfl
    rw [bareEvents, noneBefore, List.nil_append, ← Event.hooks_ordinary entered]
    exact fewer.filter _
  · intro cell inner position reached width value remembered
    exact finishes_of_answer inner remembered

/-! Elements greater than zero with a hook inside the memo table of the element, which both
alternatives share, and one in front of it. -/

/-- An element greater than zero, announced when it matches. -/
def announced : Grammar Nat Nat :=
  .onSuccess "one" positive

def announcedPositives : Grammar Nat Nat :=
  .choice (.sequence (.before "item" (.memoized 0 announced)) (.rule 0) (· + ·))
    (.memoized 0 announced)

theorem tabulate_announcedPositives :
    Rules.Tabulate #[.forward (some announcedPositives)] fun _ => announced :=
  Rules.throughout_single
    ⟨trivial, ⟨trivial, ⟨trivial, rfl, trivial, trivial⟩, trivial⟩, rfl, trivial, trivial⟩

theorem withoutTables_announcedPositives :
    Rules.withoutTables #[.forward (some announcedPositives)] =
      #[.forward (some announcedPositives.withoutTables)] := by
  simp [Rules.withoutTables, Rule.withoutTables]

theorem memoization_removes_events_announcedPositives :
    ∃ final, (rule 0).FinishesEach #[.forward (some announcedPositives)] #[3] [0] .initial
        [.success 1 1] final ∧
      (∃ entered, final.events = entered ∧ (Event.hooks entered).Sublist
        [.attempted "item" 0, .succeeded "one" 0 1 1, .attempted "item" 1,
          .succeeded "one" 0 1 1]) ∧
      ∃ last, (memoized 0 announced).Finishes #[.forward (some announcedPositives)] #[3] 0
          (ParserState.initial.remembering 0 0 (.success 1 1)) (.success 1 1, last) ∧
        last.events = [.logged (.memoHit 0 0 1)] := by
  have bareRun : (rule 0).Finishes #[.forward (some announcedPositives.withoutTables)] #[3] 0
      .initial (.success 1 1, _) := ⟨5, rfl⟩
  have yields : (rule 0).Yields #[.forward (some announcedPositives)] #[3] 0 (.success 1 1) := by
    rw [← exists_finishes_withoutTables_iff, withoutTables_announcedPositives]
    exact ⟨_, bareRun⟩
  have tabulated : (rule 0).Tabulates fun _ => announced := trivial
  obtain ⟨final, finishes⟩ := yields.completes tabulate_announcedPositives tabulated
    .initial (ParserState.sound_of_forgotten fun cell position => by simp)
  obtain ⟨⟨entered, bare, within, bareCalls, fewer⟩, answered⟩ :=
    memoization_removes_events tabulate_announcedPositives tabulated
      (fun cell position => by simp) (.cons finishes (.nil final))
  obtain ⟨last, hit, enteredHit⟩ := answered 0 announced 0
    (ParserState.initial.remembering 0 0 (.success 1 1)) 1 1
    (by simp [ParserState.lookup?_remembering_success])
  refine ⟨final, .cons finishes (.nil final), ⟨entered, within, ?_⟩, last, hit, enteredHit⟩
  rw [withoutTables_announcedPositives] at bareCalls
  cases bareCalls with
  | cons call rest =>
      cases rest
      cases call.unique bareRun
      exact fewer

end Grammar

end RecursiveDescent
