import RecursiveDescent.Proofs.Engine
import RecursiveDescent.Proofs.Throughout
import RecursiveDescent.Proofs.Trace

/-!
# Accounts of runs

A memo table may answer for its parser only if its entries are what the parser yields.  So what a
run comes to depends on an invariant of the states it passes through, and the invariant depends
on what the run comes to.  An *account* joins the two: it names the sound states of an engine, and
for every attempt the changes that it may make to them when it records certain events.  It asks
the three operations of the engine to respect both.

The main statement is `Account.realizes_runOn`: every finished run from a sound state comes to an
outcome and to events that the grammar records, ends in a sound state, and has changed the state
as an attempt with these events may.

All this needs that a memo cell has one owner.  `Grammar.Tabulates` says that wherever a grammar
uses a cell, it memoizes the owner of the cell there.
-/

namespace RecursiveDescent

variable {σ ε ν : Type}

/-! ### The owners of memo cells -/

/-- A memo cell that occurs here remembers matches of its owner. -/
def Grammar.Owned (owner : Nat → Grammar ε ν) : Grammar ε ν → Prop
  | .memoized cell inner => owner cell = inner
  | _ => True

theorem Grammar.hereditary_owned (owner : Nat → Grammar ε ν) :
    Hereditary (Grammar.Owned owner) where
  fail := trivial
  succeed _ := trivial
  map _ _ := trivial
  sequence _ _ _ := trivial
  left _ _ _ _ _ := trivial
  pairs _ _ _ _ _ _ := trivial
  separatedPairs _ _ _ _ _ := trivial

/-- Every memo cell that occurs in the grammar remembers matches of its owner. -/
abbrev Grammar.Tabulates (owner : Nat → Grammar ε ν) (grammar : Grammar ε ν) : Prop :=
  grammar.Throughout (Grammar.Owned owner)

/-- Every memo cell that occurs in a rule remembers matches of its owner. -/
abbrev Rules.Tabulate (rules : Rules ε ν) (owner : Nat → Grammar ε ν) : Prop :=
  rules.Throughout (Grammar.Owned owner)

variable [DecidableEq ε]

/-- All that the attempt finishes from a sound state is what the site records, and leads to a sound
state by a change that the site may make with these events behind the given ones. -/
def Attempt.Records (rules : Rules ε ν) (source : Array ε) (sound : σ → Prop)
    (change : Site ε ν → List (Event ν) → σ → σ → Prop) (earlier : List (Event ν))
    (site : Site ε ν) (attempt : Attempt σ (Outcome ν)) : Prop :=
  ∀ state outcome final, sound state → attempt state = some (outcome, final) →
    ∃ events, site.1.Records rules source site.2 outcome events ∧ sound final ∧
      change site (earlier ++ events) state final

/-- The sound states of an engine and the changes that attempts may make to them, given the events
that they record. -/
structure Account (engine : Engine σ ε ν) (rules : Rules ε ν) (source : Array ε)
    (owner : Nat → Grammar ε ν) where
  /-- The states in which memo tables may answer. -/
  sound : σ → Prop
  /-- The changes that the attempt of a site may make when it records some events. -/
  change : Site ε ν → List (Event ν) → σ → σ → Prop
  change_nil : ∀ site state, change site [] state state
  change_append : ∀ site events more first second third,
    change site events first second → change site more second third →
      change site (events ++ more) first third
  change_within : ∀ inner outer events first second, Grammar.Within rules source inner outer →
    change inner events first second → change outer events first second
  sound_record : ∀ event state, sound state → sound (engine.record event state)
  change_record : ∀ site event state, change site [event] state (engine.record event state)
  records_memoized : ∀ cell start (parser : Parser σ ε ν),
    (parser source start).Records rules source sound change [] (owner cell, start) →
      (engine.memoized cell parser source start).Records rules source sound change []
        (.memoized cell (owner cell), start)
  records_withFreshTables : ∀ cells inner start (parser : Parser σ ε ν),
    (parser source start).Records rules source sound change [] (inner, start) →
      (engine.withFreshTables cells parser source start).Records rules source sound change []
        (.rebuilt cells inner, start)

namespace Account

variable {engine : Engine σ ε ν} {rules : Rules ε ν} {source : Array ε}
  {owner : Nat → Grammar ε ν} (account : Account engine rules source owner)

/-- An attempt that keeps to the account behind some events. -/
abbrev RecordsBehind (earlier : List (Event ν)) (site : Site ε ν)
    (attempt : Attempt σ (Outcome ν)) : Prop :=
  attempt.Records rules source account.sound account.change earlier site

abbrev Realizes (site : Site ε ν) (attempt : Attempt σ (Outcome ν)) : Prop :=
  account.RecordsBehind [] site attempt

/-- An effect that leads from sound states to sound states as recording the events does, at any
site. -/
def Enters (events : List (Event ν)) (effect : σ → σ) : Prop :=
  ∀ state, account.sound state →
    account.sound (effect state) ∧ ∀ site, account.change site events state (effect state)

theorem enters_nil : account.Enters [] id :=
  fun state sound => ⟨sound, fun site => account.change_nil site state⟩

theorem enters_record (event : Event ν) : account.Enters [event] (engine.record event) :=
  fun state sound => ⟨account.sound_record event state sound,
    fun site => account.change_record site event state⟩

theorem enters_recordAll (events : List (Event ν)) :
    account.Enters events (engine.recordAll events) := by
  induction events with
  | nil => exact account.enters_nil
  | cons event events induction =>
      intro state sound
      obtain ⟨recorded, entered⟩ := account.enters_record event state sound
      obtain ⟨rest, following⟩ := induction _ recorded
      exact ⟨rest, fun site => account.change_append site [event] events _ _ _ (entered site)
        (following site)⟩

/-- An attempt that begins with an effect. -/
theorem recordsBehind_of_enters {events earlier : List (Event ν)} {site : Site ε ν}
    {effect : σ → σ} {attempt : Attempt σ (Outcome ν)} (enters : account.Enters events effect)
    (records : account.RecordsBehind earlier site attempt) :
    account.RecordsBehind (events ++ earlier) site fun state => attempt (effect state) := by
  intro state outcome final sound finished
  obtain ⟨soundEntered, changed⟩ := enters state sound
  obtain ⟨recorded, records, kept, following⟩ :=
    records (effect state) outcome final soundEntered finished
  refine ⟨recorded, records, kept, ?_⟩
  rw [List.append_assoc]
  exact account.change_append site _ _ _ _ _ (changed site) following

/-! ### One lemma for each form of a grammar -/

theorem realizes_settled {grammar : Grammar ε ν} {settled : Nat → Outcome ν}
    (shape : grammar.form rules source = .settled settled) {start : Nat} {effect : σ → σ}
    (enters : account.Enters (grammar.eventsBefore rules source start) effect) :
    account.Realizes (grammar, start) fun state => some (settled start, effect state) := by
  intro state outcome final sound finished
  cases finished
  obtain ⟨kept, changed⟩ := enters state sound
  exact ⟨_, .settled shape, kept, changed _⟩

theorem realizes_ofFunction {grammar : Grammar ε ν} (function : Array ε → Nat → Outcome ν)
    (shape : grammar.form rules source = .settled (function source)) (start : Nat)
    (quiet : grammar.eventsBefore rules source start = []) :
    account.Realizes (grammar, start) (Parser.ofFunction function source start) :=
  account.realizes_settled shape (by rw [quiet]; exact account.enters_nil)

theorem realizes_adjusted {grammar part : Grammar ε ν}
    (adjust : Array ε → Nat → Outcome ν → Outcome ν) {parser : Parser σ ε ν} {start : Nat}
    (shape : grammar.form rules source = .adjusted part (adjust source))
    (quietBefore : grammar.eventsBefore rules source start = [])
    (quietAfter : ∀ outcome, grammar.eventsAfter start outcome = [])
    (inside : account.Realizes (part, start) (parser source start)) :
    account.Realizes (grammar, start) (Parser.adjusted adjust parser source start) := by
  intro state result final sound finished
  obtain ⟨outcome, middle, begun, ended⟩ := (Attempt.bind_eq_some_iff _ _ _ _).mp finished
  cases ended
  obtain ⟨events, records, kept, changed⟩ := inside state outcome _ sound begun
  have recorded := Grammar.Records.adjusted shape records
  rw [quietBefore, quietAfter, List.append_nil] at recorded
  exact ⟨_, recorded, kept, account.change_within _ _ _ _ _ (.part shape) changed⟩

theorem realizes_attended {grammar part : Grammar ε ν} {enter : Array ε → Nat → σ → σ}
    {leave : Array ε → Nat → Outcome ν → σ → σ} {parser : Parser σ ε ν} {start : Nat}
    (shape : grammar.form rules source = .adjusted part fun _ outcome => outcome)
    (entering : account.Enters (grammar.eventsBefore rules source start) (enter source start))
    (leaving : ∀ outcome,
      account.Enters (grammar.eventsAfter start outcome) (leave source start outcome))
    (inside : account.Realizes (part, start) (parser source start)) :
    account.Realizes (grammar, start) (Parser.attended enter leave parser source start) := by
  intro state result final sound finished
  obtain ⟨_, entered, entry, rest⟩ := (Attempt.bind_eq_some_iff _ _ _ _).mp finished
  cases entry
  obtain ⟨outcome, middle, begun, ending⟩ := (Attempt.bind_eq_some_iff _ _ _ _).mp rest
  obtain ⟨_, left, exit, ended⟩ := (Attempt.bind_eq_some_iff _ _ _ _).mp ending
  cases exit
  cases ended
  obtain ⟨soundEntered, changedEntering⟩ := entering state sound
  obtain ⟨events, records, soundMiddle, changedInside⟩ := inside _ _ _ soundEntered begun
  obtain ⟨soundLeft, changedLeaving⟩ := leaving result middle soundMiddle
  refine ⟨_, .adjusted shape records, soundLeft, ?_⟩
  have changedWithin : account.change (grammar, start) events _ _ :=
    account.change_within _ _ _ _ _ (.part shape) changedInside
  rw [List.nil_append]
  exact account.change_append _ _ _ _ _ _ (changedEntering _)
    (account.change_append _ _ _ _ _ _ changedWithin (changedLeaving _))

theorem realizes_continued {grammar first : Grammar ε ν} {next : Outcome ν → Grammar ε ν}
    {beginning : Attempt σ (Outcome ν)} {following : Outcome ν → Attempt σ (Outcome ν)}
    {start : Nat} (shape : grammar.form rules source = .continued first next) {enter : σ → σ}
    (entering : account.Enters (grammar.eventsBefore rules source start) enter)
    (begins : account.Realizes (first, start) beginning)
    (follows : ∀ outcome, account.RecordsBehind (grammar.eventsAfter start outcome)
      (next outcome, start + outcome.advance) (following outcome)) :
    account.Realizes (grammar, start) fun state =>
      (do
        let outcome ← beginning
        let result ← following outcome
        return result.advancedBy outcome.advance : Attempt σ (Outcome ν)) (enter state) := by
  intro state result final sound finished
  obtain ⟨outcome, middle, begun, rest⟩ := (Attempt.bind_eq_some_iff _ _ _ _).mp finished
  obtain ⟨following, last, continued, ended⟩ := (Attempt.bind_eq_some_iff _ _ _ _).mp rest
  cases ended
  obtain ⟨soundEntered, changedEntering⟩ := entering state sound
  obtain ⟨events, recordsFirst, soundMiddle, changedFirst⟩ :=
    begins _ outcome middle soundEntered begun
  obtain ⟨more, recordsNext, soundFinal, changedNext⟩ :=
    follows outcome middle following final soundMiddle continued
  refine ⟨_, .continued shape recordsFirst recordsNext, soundFinal, ?_⟩
  have changedWithin : account.change (grammar, start) events _ _ :=
    account.change_within _ _ _ _ _ (.first shape) changedFirst
  have changedBehind :=
    account.change_within _ _ _ _ _ (.next shape recordsFirst.yields) changedNext
  rw [List.nil_append]
  exact account.change_append _ _ _ _ _ _ (changedEntering _)
    (account.change_append _ _ _ _ _ _ changedWithin changedBehind)

/-- A grammar that goes on behind a first part without any events of its own. -/
theorem realizes_bind {grammar first : Grammar ε ν} {next : Outcome ν → Grammar ε ν}
    {beginning : Attempt σ (Outcome ν)} {following : Outcome ν → Attempt σ (Outcome ν)}
    {start : Nat} (shape : grammar.form rules source = .continued first next)
    (quietBefore : grammar.eventsBefore rules source start = [])
    (quietAfter : ∀ outcome, grammar.eventsAfter start outcome = [])
    (begins : account.Realizes (first, start) beginning)
    (follows : ∀ outcome, account.Realizes (next outcome, start + outcome.advance)
      (following outcome)) :
    account.Realizes (grammar, start) (do
      let outcome ← beginning
      let result ← following outcome
      return result.advancedBy outcome.advance) := by
  have entering : account.Enters (grammar.eventsBefore rules source start) id := by
    rw [quietBefore]
    exact account.enters_nil
  refine account.realizes_continued shape entering begins fun outcome => ?_
  rw [quietAfter outcome]
  exact follows outcome

theorem realizes_sequence {first second : Grammar ε ν} (combine : ν → ν → ν)
    {beginning following : Parser σ ε ν} (start : Nat)
    (begins : ∀ start, account.Realizes (first, start) (beginning source start))
    (follows : ∀ start, account.Realizes (second, start) (following source start)) :
    account.Realizes (.sequence first second combine, start)
      (Parser.sequence beginning following combine source start) := by
  rw [Parser.sequence_eq_bind]
  refine account.realizes_bind rfl rfl (fun _ => rfl) (begins start) fun outcome => ?_
  cases outcome with
  | failure => exact account.realizes_ofFunction (fun _ _ => .failure) rfl _ rfl
  | success width value =>
      exact account.realizes_adjusted (fun _ _ => Outcome.map (combine value)) rfl rfl
        (fun _ => rfl) (follows _)

omit [DecidableEq ε] in
/-- Ending a repetition without a match only enters the events of the end. -/
theorem closeRepetition_journaled (collector : ValueCollector ν) (bounds : RepeatBounds) :
    Parser.closeRepetition (engine.journaled collector) bounds 0 0 collector.supply.value =
      fun state => some (Grammar.closing collector bounds,
        engine.recordAll (Grammar.closingEvents collector bounds) state) := by
  unfold Parser.closeRepetition Grammar.closing Grammar.closingEvents
  by_cases few : 0 < bounds.minimum
  · simp only [few, if_true]
    rfl
  · simp only [few, if_false]
    rfl

omit [DecidableEq ε] in
theorem eventsBefore_repetition_failure (rules : Rules ε ν) (source : Array ε)
    (item : Grammar ε ν) (collector : ValueCollector ν) (bounds : RepeatBounds) (start : Nat) :
    (Grammar.repetition item collector bounds .failure).eventsBefore rules source start = [] := by
  by_cases few : 0 < bounds.minimum <;> simp [Grammar.repetition, few, Grammar.eventsBefore]

/-- What follows the first attempt of the item of a repetition. -/
theorem recordsBehind_afterItem {item : Grammar ε ν} (collector : ValueCollector ν)
    (bounds : RepeatBounds) {parser : Parser σ ε ν} {rounds start : Nat}
    (rest : ∀ collector bounds start, account.Realizes (.repeated item collector bounds, start)
      (Parser.repeated rounds parser (engine.journaled collector) bounds source start))
    (outcome : Outcome ν) :
    account.RecordsBehind ((Grammar.repeated item collector bounds).eventsAfter start outcome)
      (Grammar.repetition item collector bounds outcome, start + outcome.advance)
      (Parser.afterItem rounds parser (engine.journaled collector) bounds source start
        collector.supply.value outcome) := by
  cases outcome with
  | failure =>
      have quiet := eventsBefore_repetition_failure rules source item collector bounds start
      have ends : account.Realizes (Grammar.repetition item collector bounds .failure, start)
          fun state => some (Grammar.closing collector bounds, id state) :=
        account.realizes_settled
          (Grammar.form_repetition_failure rules source item collector bounds)
          (by rw [quiet]; exact account.enters_nil)
      have behind := account.recordsBehind_of_enters
        (account.enters_recordAll (Grammar.closingEvents collector bounds)) ends
      rw [List.append_nil] at behind
      unfold Parser.afterItem
      rw [closeRepetition_journaled]
      exact behind
  | success width value =>
      have behind := account.recordsBehind_of_enters
        (account.enters_recordAll (collector.accumulate collector.supply.value value).emitted)
        (rest (collector.taking value) (bounds.drop 1) (start + width))
      rw [List.append_nil] at behind
      exact behind

/-- A repetition realizes its grammar, whatever its collector has taken in already. -/
theorem realizes_repeated {item : Grammar ε ν} (collector : ValueCollector ν)
    (bounds : RepeatBounds) {parser : Parser σ ε ν} (rounds start : Nat)
    (items : ∀ start, account.Realizes (item, start) (parser source start)) :
    account.Realizes (.repeated item collector bounds, start)
      (Parser.repeated rounds parser (engine.journaled collector) bounds source start) := by
  induction rounds generalizing collector bounds start with
  | zero =>
      intro state result final sound finished
      cases finished
  | succ rounds induction =>
      rw [Parser.repeated_succ]
      by_cases more : bounds.allowsMore 0
      · have supplies := account.enters_recordAll collector.supply.emitted
        have before : (Grammar.repeated item collector bounds).eventsBefore rules source start =
            collector.supply.emitted := if_pos more
        rw [← before] at supplies
        have realized := account.realizes_continued (Grammar.form_repeated_of_more more) supplies
          (items start) (account.recordsBehind_afterItem collector bounds induction)
        simp only [more, if_true]
        rw [before] at realized
        exact realized
      · have ends := account.enters_recordAll
          (collector.supply.emitted ++ Grammar.closingEvents collector bounds)
        have before : (Grammar.repeated item collector bounds).eventsBefore rules source start =
            collector.supply.emitted ++ Grammar.closingEvents collector bounds := if_neg more
        rw [← before] at ends
        have realized := account.realizes_settled (Grammar.form_repeated_of_exhausted more) ends
        simp only [more, if_false, Bool.false_eq_true]
        intro state outcome final sound finished
        refine realized state outcome final sound (Eq.trans ?_ finished)
        simp only [before, engine.recordAll_append]
        exact (congrFun (closeRepetition_journaled collector bounds) _).symm

/-- The pairs behind the head of a list. -/
theorem realizes_pairs {item delimiter : Grammar ε ν} (combine : ν → ν → ν)
    (headCollector : ν → ValueCollector ν) {itemParser delimiterParser : Parser σ ε ν}
    (rounds start : Nat)
    (items : ∀ start, account.Realizes (item, start) (itemParser source start))
    (delimiters : ∀ start, account.Realizes (delimiter, start) (delimiterParser source start))
    (outcome : Outcome ν) :
    account.Realizes (Grammar.pairs item delimiter combine headCollector outcome, start)
      ((match outcome with
        | .success _ head =>
            Parser.repeated rounds (Parser.sequence delimiterParser itemParser combine)
              (engine.journaled (headCollector head)) .zeroOrMore
        | .failure => Parser.fail) source start) := by
  cases outcome with
  | failure => exact account.realizes_ofFunction (fun _ _ => .failure) rfl start rfl
  | success width head =>
      exact account.realizes_repeated (headCollector head) .zeroOrMore rounds start
        fun start => account.realizes_sequence combine start delimiters items

/-! ### Whole grammars -/

/-- A parser realizes its grammar when the invocations of rules realize the rules. -/
theorem realizes_parserOn (rounds : Nat) {invoke : Nat → Parser σ ε ν}
    (invocations : ∀ index start, account.Realizes (.rule index, start)
      (invoke index source start))
    (grammar : Grammar ε ν) (tabulated : grammar.Tabulates owner) (start : Nat) :
    account.Realizes (grammar, start)
      (grammar.parserOn engine rounds invoke source start) := by
  induction grammar generalizing start with
  | element test value =>
      unfold Grammar.parserOn
      rw [Parser.element_eq_ofFunction]
      exact account.realizes_ofFunction _ rfl start rfl
  | literal expected value =>
      unfold Grammar.parserOn
      rw [Parser.literal_eq_ofFunction]
      exact account.realizes_ofFunction _ rfl start rfl
  | fixedWidth width read =>
      unfold Grammar.parserOn
      rw [Parser.fixedWidth_eq_ofFunction]
      exact account.realizes_ofFunction _ rfl start rfl
  | succeed value =>
      exact account.realizes_ofFunction (fun _ _ => .success 0 value) rfl start rfl
  | fail => exact account.realizes_ofFunction (fun _ _ => .failure) rfl start rfl
  | endOfInput value =>
      unfold Grammar.parserOn
      rw [Parser.endOfInput_eq_ofFunction]
      exact account.realizes_ofFunction _ rfl start rfl
  | ofFunction function => exact account.realizes_ofFunction function rfl start rfl
  | sequence first second combine firstCase secondCase =>
      exact account.realizes_sequence combine start (firstCase tabulated.2.1)
        (secondCase tabulated.2.2)
  | choice first second firstCase secondCase =>
      unfold Grammar.parserOn
      rw [Parser.choice_eq_bind]
      refine account.realizes_bind rfl rfl (fun _ => rfl) (firstCase tabulated.2.1 start)
        fun outcome => ?_
      cases outcome with
      | failure => exact secondCase tabulated.2.2 _
      | success width value =>
          exact account.realizes_ofFunction (fun _ _ => .success 0 value) rfl _ rfl
  | optional inner fallback innerCase =>
      unfold Grammar.parserOn
      rw [Parser.optional_eq_adjusted]
      exact account.realizes_adjusted _ rfl rfl (fun _ => rfl) (innerCase tabulated.2 start)
  | repeated item collector bounds itemCase =>
      exact account.realizes_repeated collector bounds rounds start (itemCase tabulated.2)
  | ahead inner innerCase =>
      unfold Grammar.parserOn
      rw [Parser.ahead_eq_adjusted]
      exact account.realizes_adjusted _ rfl rfl (fun _ => rfl) (innerCase tabulated.2 start)
  | notAhead inner value innerCase =>
      unfold Grammar.parserOn
      rw [Parser.notAhead_eq_adjusted]
      exact account.realizes_adjusted _ rfl rfl (fun _ => rfl) (innerCase tabulated.2 start)
  | delimited item delimiter combine headCollector itemCase delimiterCase =>
      unfold Grammar.parserOn
      rw [Parser.delimited_eq_bind]
      exact account.realizes_bind rfl rfl (fun _ => rfl) (itemCase tabulated.2.1 start)
        fun outcome => account.realizes_pairs combine headCollector rounds _
          (itemCase tabulated.2.1) (delimiterCase tabulated.2.2) outcome
  | separated item delimiter collector itemCase delimiterCase =>
      unfold Grammar.parserOn
      rw [Parser.separated_eq_bind]
      simp only [← engine.journaled_accept]
      exact account.realizes_bind rfl rfl (fun _ => rfl) (itemCase tabulated.2.1 start)
        fun outcome => account.realizes_pairs (fun _ value => value) collector.accept rounds _
          (itemCase tabulated.2.1) (delimiterCase tabulated.2.2) outcome
  | bind first binder firstCase binderCase =>
      exact account.realizes_bind rfl rfl (fun _ => rfl) (firstCase tabulated.2.1 start)
        fun outcome => binderCase outcome (tabulated.2.2 outcome) _
  | map inner function innerCase =>
      exact account.realizes_adjusted (fun _ _ => Outcome.map function) rfl rfl (fun _ => rfl)
        (innerCase tabulated.2 start)
  | tryMap inner function innerCase =>
      exact account.realizes_adjusted (fun _ _ => Outcome.filterMap function) rfl rfl
        (fun _ => rfl) (innerCase tabulated.2 start)
  | filter inner accepts innerCase =>
      unfold Grammar.parserOn
      rw [Parser.filter_eq_adjusted]
      exact account.realizes_adjusted _ rfl rfl (fun _ => rfl) (innerCase tabulated.2 start)
  | recognize inner read innerCase =>
      unfold Grammar.parserOn
      rw [Parser.recognize_eq_adjusted]
      exact account.realizes_adjusted _ rfl rfl (fun _ => rfl) (innerCase tabulated.2 start)
  | before tag inner innerCase =>
      unfold Grammar.parserOn
      rw [Parser.before_eq_attended]
      exact account.realizes_attended rfl (account.enters_record _) (fun _ => account.enters_nil)
        (innerCase tabulated.2 start)
  | onSuccess tag inner innerCase =>
      unfold Grammar.parserOn
      rw [Parser.onSuccess_eq_attended]
      refine account.realizes_attended rfl account.enters_nil (fun outcome => ?_)
        (innerCase tabulated.2 start)
      cases outcome with
      | success width value => exact account.enters_record _
      | failure => exact account.enters_nil
  | onFailure tag inner innerCase =>
      unfold Grammar.parserOn
      rw [Parser.onFailure_eq_attended]
      refine account.realizes_attended rfl account.enters_nil (fun outcome => ?_)
        (innerCase tabulated.2 start)
      cases outcome with
      | success width value => exact account.enters_nil
      | failure => exact account.enters_record _
  | traced name inner innerCase =>
      refine account.realizes_attended rfl (account.enters_record _) (fun outcome => ?_)
        (innerCase tabulated.2 start)
      cases outcome <;> exact account.enters_record _
  | memoized cell inner innerCase =>
      obtain ⟨rfl, inside⟩ := tabulated
      exact account.records_memoized cell start _ (innerCase inside start)
  | rebuilt cells inner innerCase =>
      exact account.records_withFreshTables cells inner start _ (innerCase tabulated.2 start)
  | deferred tag inner innerCase =>
      unfold Grammar.parserOn
      rw [Parser.before_eq_attended]
      exact account.realizes_attended rfl (account.enters_record _) (fun _ => account.enters_nil)
        (innerCase tabulated.2 start)
  | rule index => exact invocations index start

/-- The invocation of a rule realizes the rule when the run of its definition does. -/
theorem realizes_invokeOn {run : Grammar ε ν → Parser σ ε ν} (tabulated : rules.Tabulate owner)
    (definitions : ∀ grammar, grammar.Tabulates owner → ∀ start,
      account.Realizes (grammar, start) (run grammar source start))
    (index start : Nat) :
    account.Realizes (.rule index, start) (rules.invokeOn engine run index source start) := by
  have undefined (missing : rules.body? index = none)
      (before : rules.invocationEvents index start = [.logged (.undefinedRule start)]) :
      account.Realizes (.rule index, start) (do
        modify (engine.record (.logged (.undefinedRule start)))
        return .failure) := by
    have enters := account.enters_record (.logged (.undefinedRule start))
    rw [← before] at enters
    exact account.realizes_settled (Grammar.form_rule_of_undefined missing) enters
  have defined {body : Grammar ε ν} (found : rules.body? index = some body)
      {events : List (Event ν)}
      (before : rules.invocationEvents index start = events) :
      account.Realizes (.rule index, start) (do
        modify (engine.recordAll events)
        run body source start) := by
    intro state outcome final sound finished
    obtain ⟨soundEntered, changedEntering⟩ := account.enters_recordAll events state sound
    obtain ⟨more, records, kept, changed⟩ := definitions body (tabulated index body found) start
      _ outcome final soundEntered finished
    have shape : (Grammar.rule index).form rules source =
        .adjusted body fun _ outcome => outcome := Grammar.form_rule_of_defined found
    have recorded : (Grammar.rule index).Records rules source start outcome
        (rules.invocationEvents index start ++ (more ++ [])) := .adjusted shape records
    rw [before, List.append_nil] at recorded
    have changedWithin : account.change (.rule index, start) more _ _ :=
      account.change_within _ _ _ _ _ (.part shape) changed
    refine ⟨_, recorded, kept, ?_⟩
    rw [List.nil_append]
    exact account.change_append _ _ _ _ _ _ (changedEntering _) changedWithin
  unfold Rules.invokeOn
  unfold Rules.body? Rules.invocationEvents at undefined defined
  cases found : rules[index]? with
  | none => exact undefined (by rw [found]) (by rw [found])
  | some rule =>
      cases rule with
      | recursive tag cells body => exact defined (by rw [found]) (by rw [found])
      | forward definition =>
          cases definition with
          | none => exact undefined (by rw [found]) (by rw [found])
          | some definition => exact defined (by rw [found]) (by rw [found])

/-- Every finished run comes to what the grammar records. -/
theorem realizes_runOn (rulesTabulated : rules.Tabulate owner) (steps : Nat)
    (grammar : Grammar ε ν) (tabulated : grammar.Tabulates owner) (start : Nat) :
    account.Realizes (grammar, start) (grammar.runOn engine rules steps source start) := by
  induction steps generalizing grammar start with
  | zero =>
      refine account.realizes_parserOn 0 (fun index start => ?_) grammar tabulated start
      intro state outcome final sound finished
      cases finished
  | succ steps induction =>
      exact account.realizes_parserOn (steps + 1)
        (account.realizes_invokeOn rulesTabulated induction) grammar tabulated start

end Account

end RecursiveDescent
