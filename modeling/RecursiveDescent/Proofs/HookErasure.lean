import RecursiveDescent.Proofs.Projection
import RecursiveDescent.Proofs.Transparency

/-!
# Hooks and traces do not interfere

Hooks and traced grammars write into the journal, and nothing that is run reads the journal.  So
two grammars that differ in hooks alone come to the same outcomes from the same memo tables, leave
the same memo tables behind, and are unfinished alike.  This needs no assumption about the tables:
their entries may be stale, from another source or from another grammar.

The proof forgets the journal.  On the engine `Engine.silent`, which enters no events, a hook is
nothing at all, and every run on memo tables and a journal projects to a run on that engine.
-/

namespace RecursiveDescent

variable {ε ν α : Type}

/-! ### Erasing hooks -/

/-- The grammar without its hooks and traces. -/
def Grammar.withoutHooks : Grammar ε ν → Grammar ε ν
  | .element test value => .element test value
  | .literal expected value => .literal expected value
  | .fixedWidth width read => .fixedWidth width read
  | .succeed value => .succeed value
  | .fail => .fail
  | .endOfInput value => .endOfInput value
  | .ofFunction function => .ofFunction function
  | .sequence first second combine => .sequence first.withoutHooks second.withoutHooks combine
  | .choice first second => .choice first.withoutHooks second.withoutHooks
  | .optional inner fallback => .optional inner.withoutHooks fallback
  | .repeated item collector bounds => .repeated item.withoutHooks collector bounds
  | .ahead inner => .ahead inner.withoutHooks
  | .notAhead inner value => .notAhead inner.withoutHooks value
  | .delimited item delimiter combine headCollector =>
      .delimited item.withoutHooks delimiter.withoutHooks combine headCollector
  | .separated item delimiter collector =>
      .separated item.withoutHooks delimiter.withoutHooks collector
  | .bind first binder => .bind first.withoutHooks fun outcome => (binder outcome).withoutHooks
  | .map inner function => .map inner.withoutHooks function
  | .tryMap inner function => .tryMap inner.withoutHooks function
  | .filter inner accepts => .filter inner.withoutHooks accepts
  | .recognize inner read => .recognize inner.withoutHooks read
  | .before _ inner | .onSuccess _ inner | .onFailure _ inner | .traced _ inner =>
      inner.withoutHooks
  | .memoized cell inner => .memoized cell inner.withoutHooks
  | .rebuilt cells inner => .rebuilt cells inner.withoutHooks
  | .deferred tag inner => .deferred tag inner.withoutHooks
  | .rule index => .rule index

def Rule.withoutHooks : Rule ε ν → Rule ε ν
  | .recursive tag cells body => .recursive tag cells body.withoutHooks
  | .forward definition => .forward (definition.map Grammar.withoutHooks)

def Rules.withoutHooks (rules : Rules ε ν) : Rules ε ν :=
  rules.map Rule.withoutHooks

/-! ### Runs without a journal -/

namespace ParserState

theorem foldl_withoutEvents {change : ParserState ν → α → ParserState ν}
    (commutes : ∀ state item, change state.withoutEvents item = (change state item).withoutEvents)
    (items : List α) (state : ParserState ν) :
    items.foldl change state.withoutEvents = (items.foldl change state).withoutEvents := by
  induction items generalizing state with
  | nil => rfl
  | cons item items induction => rw [List.foldl_cons, List.foldl_cons, commutes, induction]

theorem cleared_withoutEvents (state : ParserState ν) (cells : List Nat) :
    state.withoutEvents.cleared cells = (state.cleared cells).withoutEvents :=
  foldl_withoutEvents (fun _ _ => rfl) cells state

theorem restored_withoutEvents (former state : ParserState ν) (cells : List Nat) :
    restored cells former.withoutEvents state.withoutEvents =
      (restored cells former state).withoutEvents :=
  foldl_withoutEvents (fun _ _ => rfl) _ state

theorem remembering_withoutEvents (state : ParserState ν) (cell start : Nat)
    (outcome : Outcome ν) :
    state.withoutEvents.remembering cell start outcome =
      (state.remembering cell start outcome).withoutEvents := by
  cases outcome <;> rfl

theorem withoutEvents_eq_iff {first second : ParserState ν} :
    first.withoutEvents = second.withoutEvents ↔ first.tables = second.tables := by
  simp [withoutEvents]

end ParserState

namespace Engine

/-- The engine that enters no events. -/
def silent : Engine (ParserState ν) ε ν where
  record _ state := state
  memoized cell inner source start state :=
    match (state.table cell).lookup? start with
    | some (width, value) => some (.success width value, state.updateTable cell MemoTable.countHit)
    | none =>
        (inner source start (state.updateTable cell MemoTable.countMiss)).map fun result =>
          (result.1, result.2.remembering cell start result.1)
  withFreshTables := Parser.withFreshTables

theorem memoized_projectsTo_silent (cell : Nat) {first second : Parser (ParserState ν) ε ν}
    (inside : first.ProjectsTo ParserState.withoutEvents second) :
    (Parser.memoized cell first).ProjectsTo ParserState.withoutEvents
      (silent.memoized cell second) := by
  intro source start state
  have sameTable : state.withoutEvents.table cell = state.table cell := rfl
  simp only [silent, sameTable]
  cases found : (state.table cell).lookup? start with
  | some entry =>
      obtain ⟨width, value⟩ := entry
      rw [Parser.memoized_of_remembered cell first source start state found]
      rfl
  | none =>
      have begun := inside source start (state.missed cell start)
      rw [Parser.memoized_of_forgotten cell first source start state found, Option.map_map]
      change (second source start (state.missed cell start).withoutEvents).map _ = _
      rw [begun, Option.map_map]
      congr 1
      funext result
      exact congrArg (Prod.mk result.1)
        (result.2.remembering_withoutEvents cell start result.1)

theorem withFreshTables_projectsTo_silent (cells : List Nat)
    {first second : Parser (ParserState ν) ε ν}
    (inside : first.ProjectsTo ParserState.withoutEvents second) :
    (Parser.withFreshTables cells first).ProjectsTo ParserState.withoutEvents
      (Parser.withFreshTables cells second) := by
  intro source start state
  have begun := inside source start (state.cleared cells)
  rw [Parser.withFreshTables_apply, Parser.withFreshTables_apply,
    state.cleared_withoutEvents cells, begun, Option.map_map, Option.map_map]
  congr 1
  funext result
  exact congrArg (Prod.mk result.1) (state.restored_withoutEvents result.2 cells)

/-- Forgetting the journal commutes with everything that a run does. -/
def forgetJournal : Projection (tables : Engine (ParserState ν) ε ν) silent where
  view := ParserState.withoutEvents
  record _ _ := rfl
  memoized cell _ _ := memoized_projectsTo_silent cell
  withFreshTables cells _ _ := withFreshTables_projectsTo_silent cells

end Engine

/-! ### Hooks on the engine without events -/

/-- Effects that leave every state as it is make no difference around an attempt. -/
theorem Parser.attended_of_idle {σ : Type} {enter : Array ε → Nat → σ → σ}
    {leave : Array ε → Nat → Outcome α → σ → σ}
    (entering : ∀ source start state, enter source start state = state)
    (leaving : ∀ source start outcome state, leave source start outcome state = state)
    (inner : Parser σ ε α) : Parser.attended enter leave inner = inner := by
  funext source start state
  unfold Parser.attended
  rw [Attempt.bind_apply, Attempt.modify_apply, Option.bind_some, entering, Attempt.bind_apply]
  cases inner source start state with
  | none => rfl
  | some result =>
      rw [Option.bind_some, Attempt.bind_apply, Attempt.modify_apply, Option.bind_some, leaving]
      rfl

namespace Grammar

variable [DecidableEq ε]

theorem parserOn_withoutHooks (rounds : Nat) (invoke : Nat → Parser (ParserState ν) ε ν)
    (grammar : Grammar ε ν) :
    grammar.withoutHooks.parserOn Engine.silent rounds invoke =
      grammar.parserOn Engine.silent rounds invoke := by
  induction grammar with
  | before tag inner innerCase =>
      simp only [withoutHooks, parserOn, Parser.before_eq_attended]
      exact innerCase.trans
        (Parser.attended_of_idle (fun _ _ _ => rfl) (fun _ _ _ _ => rfl) _).symm
  | onSuccess tag inner innerCase =>
      simp only [withoutHooks, parserOn, Parser.onSuccess_eq_attended]
      refine innerCase.trans (Parser.attended_of_idle (fun _ _ _ => rfl) ?_ _).symm
      intro source start outcome state
      cases outcome <;> rfl
  | onFailure tag inner innerCase =>
      simp only [withoutHooks, parserOn, Parser.onFailure_eq_attended]
      refine innerCase.trans (Parser.attended_of_idle (fun _ _ _ => rfl) ?_ _).symm
      intro source start outcome state
      cases outcome <;> rfl
  | traced name inner innerCase =>
      simp only [withoutHooks, parserOn]
      refine innerCase.trans (Parser.attended_of_idle (fun _ _ _ => rfl) ?_ _).symm
      intro source start outcome state
      cases outcome <;> rfl
  | _ => simp only [withoutHooks, parserOn, *]

theorem runOn_withoutHooks (rules : Rules ε ν) (steps : Nat) (grammar : Grammar ε ν) :
    grammar.withoutHooks.runOn Engine.silent rules.withoutHooks steps =
      grammar.runOn Engine.silent rules steps := by
  induction steps generalizing grammar with
  | zero => exact parserOn_withoutHooks _ _ grammar
  | succ steps induction =>
      unfold runOn
      rw [parserOn_withoutHooks]
      congr 1
      funext index source start
      unfold Rules.invokeOn Rules.withoutHooks
      rw [Array.getElem?_map]
      cases rules[index]? with
      | none => rfl
      | some rule =>
          cases rule with
          | recursive tag cells body =>
              simp only [Option.map_some, Rule.withoutHooks, ← induction]
              rfl
          | forward definition =>
              cases definition with
              | none => rfl
              | some definition =>
                  simp only [Option.map_some, Rule.withoutHooks, ← induction]
                  rfl

/-- A run without its journal is the run, without events, of the grammar without hooks. -/
theorem run_withoutEvents (rules : Rules ε ν) (steps : Nat) (grammar : Grammar ε ν)
    (source : Array ε) (start : Nat) (state : ParserState ν) :
    (grammar.run rules steps source start state).map
        (fun result => (result.1, result.2.withoutEvents)) =
      grammar.withoutHooks.runOn Engine.silent rules.withoutHooks steps source start
        state.withoutEvents := by
  rw [run_eq_runOn, runOn_withoutHooks]
  exact (Engine.forgetJournal.runOn rules steps grammar source start state).symm

/-! ### Grammars that differ in hooks alone -/

variable {grammar other : Grammar ε ν} {rules others : Rules ε ν} {state stateToo : ParserState ν}

theorem Finishes.of_withoutHooks_eq {source : Array ε} {start : Nat} {outcome : Outcome ν}
    {final : ParserState ν} (finishes : grammar.Finishes rules source start state (outcome, final))
    (same : grammar.withoutHooks = other.withoutHooks)
    (sameRules : rules.withoutHooks = others.withoutHooks)
    (sameTables : state.tables = stateToo.tables) :
    ∃ last, other.Finishes others source start stateToo (outcome, last) ∧
      last.tables = final.tables := by
  obtain ⟨steps, finished⟩ := finishes
  have sameState := ParserState.withoutEvents_eq_iff.mpr sameTables
  have left := grammar.run_withoutEvents rules steps source start state
  have right := other.run_withoutEvents others steps source start stateToo
  rw [← same, ← sameRules, ← sameState, ← left, finished] at right
  obtain ⟨⟨result, last⟩, finishedToo, equal⟩ := Option.map_eq_some_iff.mp right
  obtain ⟨rfl, sameFinal⟩ := Prod.mk.inj equal
  exact ⟨last, ⟨steps, finishedToo⟩, ParserState.withoutEvents_eq_iff.mp sameFinal⟩

theorem Performs.of_withoutHooks_eq {calls : List (Call ε)}
    {outcomes : List (Outcome ν)} {final : ParserState ν}
    (performs : grammar.Performs rules calls state outcomes final)
    (same : grammar.withoutHooks = other.withoutHooks)
    (sameRules : rules.withoutHooks = others.withoutHooks)
    (sameTables : state.tables = stateToo.tables) :
    ∃ last, other.Performs others calls stateToo outcomes last ∧
      last.tables = final.tables := by
  induction performs generalizing stateToo with
  | nil state => exact ⟨stateToo, .nil stateToo, sameTables.symm⟩
  | parse call _ restCase =>
      obtain ⟨middle, callToo, sameMiddle⟩ := call.of_withoutHooks_eq same sameRules sameTables
      obtain ⟨last, rest, sameLast⟩ := restCase sameMiddle.symm
      exact ⟨last, .parse callToo rest, sameLast⟩
  | @clear cell calls state outcomes final _ restCase =>
      have sameCleared : (state.clearTable cell).tables = (stateToo.clearTable cell).tables :=
        congrArg (fun tables => tables.insert cell MemoTable.empty) sameTables
      obtain ⟨last, rest, sameLast⟩ := restCase sameCleared
      exact ⟨last, .clear rest, sameLast⟩

/-- Grammars that differ in hooks and traces alone, in themselves and in their rules, can be
matched on any sources and have their memo tables cleared with the same outcomes.  The memo tables
that this leads to are the same, with their entries and their counts of hits and misses. -/
theorem hooks_do_not_interfere (same : grammar.withoutHooks = other.withoutHooks)
    (sameRules : rules.withoutHooks = others.withoutHooks)
    (sameTables : state.tables = stateToo.tables) (calls : List (Call ε))
    (outcomes : List (Outcome ν)) (tables : Std.HashMap Nat (MemoTable ν)) :
    (∃ final, grammar.Performs rules calls state outcomes final ∧ final.tables = tables) ↔
      ∃ final, other.Performs others calls stateToo outcomes final ∧
        final.tables = tables := by
  constructor
  · rintro ⟨final, performs, rfl⟩
    exact performs.of_withoutHooks_eq same sameRules sameTables
  · rintro ⟨final, performs, rfl⟩
    exact performs.of_withoutHooks_eq same.symm sameRules.symm sameTables.symm

/-! A memoized element with hooks inside its table and a trace around it.  The last call is on
another source and gets a stale answer. -/

def memoizedPositive : Grammar Nat Nat :=
  .memoized 0 positive

def watchedPositive : Grammar Nat Nat :=
  .traced "item" (.memoized 0 (.onFailure "one" (.onSuccess "one" (.before "one" positive))))

theorem finishes_positive_failure (state : ParserState Nat) :
    positive.Finishes #[] #[0] 0 state (.failure, state) :=
  ⟨0, rfl⟩

theorem finishes_positive_success (state : ParserState Nat) :
    positive.Finishes #[] #[3] 0 state (.success 1 1, state) :=
  ⟨0, rfl⟩

theorem performs_memoizedPositive {state : ParserState Nat}
    (forgotten : (state.table 0).lookup? 0 = none) :
    memoizedPositive.Performs #[] [.parse #[0] 0, .clear 0, .parse #[3] 0, .parse #[0] 0] state
      [.failure, .success 1 1, .success 1 1]
      (((((state.missed 0 0).clearTable 0).missed 0 0).remembering 0 0 (.success 1 1)).answered 0 0
        1) := by
  have cleared : (((state.missed 0 0).clearTable 0).table 0).lookup? 0 = none := by
    simp [ParserState.clearTable, ParserState.table_setTable]
  have first := finishes_of_forgotten forgotten (finishes_positive_failure _)
  have second := finishes_of_forgotten cleared (finishes_positive_success _)
  refine .parse first (.clear (.parse second (.parse (finishes_of_remembered ?_) (.nil _))))
  simp [ParserState.lookup?_remembering_success]

theorem hooks_do_not_interfere_watchedPositive :
    ∃ final, watchedPositive.Performs #[]
        [.parse #[0] 0, .clear 0, .parse #[3] 0, .parse #[0] 0] .initial
        [.failure, .success 1 1, .success 1 1] final ∧
      (final.table 0).hits = 1 ∧ (final.table 0).misses = 1 ∧
      (final.table 0).lookup? 0 = some (1, 1) := by
  have forgotten : ((ParserState.initial : ParserState Nat).table 0).lookup? 0 = none := by simp
  have same : memoizedPositive.withoutHooks = watchedPositive.withoutHooks := rfl
  obtain ⟨final, watched, sameTables⟩ := (hooks_do_not_interfere same rfl rfl _ _ _).mp
    ⟨_, performs_memoizedPositive forgotten, rfl⟩
  have sameTable := congrArg (fun tables => tables.getD 0 MemoTable.empty) sameTables
  change final.table 0 = ParserState.table _ 0 at sameTable
  rw [ParserState.table_answered, if_pos rfl] at sameTable
  refine ⟨final, watched, ?_⟩
  rw [sameTable]
  simp [ParserState.table_remembering_success, ParserState.table_missed,
    ParserState.clearTable, ParserState.table_setTable, MemoTable.countHit, MemoTable.countMiss,
    MemoTable.remember, MemoTable.lookup?, MemoTable.empty]

end Grammar

end RecursiveDescent
