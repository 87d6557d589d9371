import RecursiveDescent.GrammarRun.Allotment
import RecursiveDescent.Proofs.NormalForm

/-!
# Engines

Running a grammar touches the state of a parser in three ways only: an event is recorded, a memo
table is used, or memo tables are set aside for an attempt on empty ones.  An *engine* says what
these three mean for a state of any type.  `Grammar.run` is the run on the engine of the memo
tables, and an engine whose states carry more keeps a record of what the tables are used for.
-/

namespace RecursiveDescent

variable {σ τ ε ν α β γ : Type}

/-- The effects that running a grammar has on a state of type `σ`. -/
structure Engine (σ ε ν : Type) where
  /-- Enters an event. -/
  record : Event ν → σ → σ
  /-- Answers from the memo table in a cell when it can, and fills it otherwise. -/
  memoized : Nat → Parser σ ε ν → Parser σ ε ν
  /-- Runs a parser on empty tables in some cells, and puts the former tables back. -/
  withFreshTables : List Nat → Parser σ ε ν → Parser σ ε ν

namespace Engine

/-- The engine whose states are memo tables and a journal. -/
def tables : Engine (ParserState ν) ε ν where
  record event state := state.record event
  memoized := Parser.memoized
  withFreshTables := Parser.withFreshTables

variable (engine : Engine σ ε ν)

/-- Enters events, the first one first. -/
def recordAll (events : List (Event ν)) (state : σ) : σ :=
  events.foldl (fun state event => engine.record event state) state

def absorb (emission : Emission (Event ν) α) : StateM σ α := fun state =>
  (emission.value, engine.recordAll emission.emitted state)

def journaled (collector : ValueCollector ν) : Collector (StateM σ) ν ν :=
  collector.transport engine.absorb

@[simp]
theorem absorb_apply (emission : Emission (Event ν) α) (state : σ) :
    engine.absorb emission state =
      (emission.value, engine.recordAll emission.emitted state) :=
  rfl

theorem recordAll_append (first second : List (Event ν)) (state : σ) :
    engine.recordAll (first ++ second) state =
      engine.recordAll second (engine.recordAll first state) :=
  List.foldl_append

theorem journaled_accept (collector : ValueCollector ν) (head : ν) :
    engine.journaled (collector.accept head) = (engine.journaled collector).accept head := by
  have supplied : engine.absorb (collector.accept head).supply =
      ((engine.journaled collector).accept head).supply := by
    funext state
    exact congrArg (Prod.mk _) (engine.recordAll_append _ _ state)
  exact congrArg (Collector.suppliedBy (engine.journaled collector)) supplied

end Engine

namespace Grammar

theorem tracing_eq_attended (name : String) (inner : Parser (ParserState ν) ε ν) :
    tracing name inner =
      Parser.attended
        (fun source start state => state.log (.trying name start source.size))
        (fun _ start outcome =>
          match outcome with
          | .success consumed _ => ParserState.log (.matched name consumed start)
          | .failure => ParserState.log (.unmatched name start)) inner := by
  funext source start
  refine bind_congr fun _ => bind_congr fun outcome => ?_
  cases outcome <;> rfl

variable [DecidableEq ε]

/-- The parser that a grammar describes on an engine, when `invoke` is what a rule does. -/
def parserOn (engine : Engine σ ε ν) (rounds : Nat) (invoke : Nat → Parser σ ε ν) :
    Grammar ε ν → Parser σ ε ν
  | .element test value => Parser.element test value
  | .literal expected value => Parser.literal expected value
  | .fixedWidth width read => Parser.fixedWidth width read
  | .succeed value => Parser.succeed value
  | .fail => Parser.fail
  | .endOfInput value => Parser.endOfInput value
  | .ofFunction function => Parser.ofFunction function
  | .sequence first second combine =>
      Parser.sequence (first.parserOn engine rounds invoke)
        (second.parserOn engine rounds invoke) combine
  | .choice first second =>
      Parser.choice (first.parserOn engine rounds invoke) (second.parserOn engine rounds invoke)
  | .optional inner fallback => Parser.optional (inner.parserOn engine rounds invoke) fallback
  | .repeated item collector bounds =>
      Parser.repeated rounds (item.parserOn engine rounds invoke) (engine.journaled collector)
        bounds
  | .ahead inner => Parser.ahead (inner.parserOn engine rounds invoke)
  | .notAhead inner value => Parser.notAhead (inner.parserOn engine rounds invoke) value
  | .delimited item delimiter combine headCollector =>
      Parser.delimited rounds (item.parserOn engine rounds invoke)
        (delimiter.parserOn engine rounds invoke) combine
        fun head => engine.journaled (headCollector head)
  | .separated item delimiter collector =>
      Parser.separated rounds (item.parserOn engine rounds invoke)
        (delimiter.parserOn engine rounds invoke) (engine.journaled collector)
  | .bind first binder =>
      Parser.bind (first.parserOn engine rounds invoke) fun outcome =>
        (binder outcome).parserOn engine rounds invoke
  | .map inner function => Parser.map (inner.parserOn engine rounds invoke) function
  | .tryMap inner function => Parser.tryMap (inner.parserOn engine rounds invoke) function
  | .filter inner accepts => Parser.filter (inner.parserOn engine rounds invoke) accepts
  | .recognize inner read => Parser.recognize (inner.parserOn engine rounds invoke) read
  | .before tag inner =>
      Parser.before (fun _ start => engine.record (.attempted tag start))
        (inner.parserOn engine rounds invoke)
  | .onSuccess tag inner =>
      Parser.onSuccess
        (fun _ start width value => engine.record (.succeeded tag start width value))
        (inner.parserOn engine rounds invoke)
  | .onFailure tag inner =>
      Parser.onFailure (fun _ start => engine.record (.failed tag start))
        (inner.parserOn engine rounds invoke)
  | .traced name inner =>
      Parser.attended
        (fun source start => engine.record (.logged (.trying name start source.size)))
        (fun _ start outcome =>
          match outcome with
          | .success consumed _ => engine.record (.logged (.matched name consumed start))
          | .failure => engine.record (.logged (.unmatched name start)))
        (inner.parserOn engine rounds invoke)
  | .memoized cell inner => engine.memoized cell (inner.parserOn engine rounds invoke)
  | .rebuilt cells inner => engine.withFreshTables cells (inner.parserOn engine rounds invoke)
  | .deferred tag inner =>
      Parser.before (fun _ _ => engine.record (.resolved tag))
        (inner.parserOn engine rounds invoke)
  | .rule index => invoke index

end Grammar

/-- What the invocation of a rule does on an engine, when `run` runs its definition. -/
def Rules.invokeOn (rules : Rules ε ν) (engine : Engine σ ε ν)
    (run : Grammar ε ν → Parser σ ε ν) (index : Nat) : Parser σ ε ν := fun source start =>
  match rules[index]? with
  | some (.recursive tag cells body) => do
      modify (engine.recordAll (tag.elim [] fun tag => [.expanded tag]))
      run (.rebuilt cells body) source start
  | some (.forward (some definition)) => run definition source start
  | _ => do
      modify (engine.record (.logged (.undefinedRule start)))
      return .failure

namespace Grammar

variable [DecidableEq ε]

def runOn (engine : Engine σ ε ν) (rules : Rules ε ν) : Nat → Grammar ε ν → Parser σ ε ν
  | 0, grammar => grammar.parserOn engine 0 fun _ _ _ => Attempt.unfinished
  | steps + 1, grammar =>
      grammar.parserOn engine (steps + 1) (rules.invokeOn engine (runOn engine rules steps))

/-! ### The run on memo tables -/

theorem parser_eq_parserOn (rounds : Nat) (invoke : Nat → Parser (ParserState ν) ε ν)
    (grammar : Grammar ε ν) :
    grammar.parser rounds invoke = grammar.parserOn Engine.tables rounds invoke := by
  induction grammar <;> simp only [parser, parserOn, tracing_eq_attended, *] <;> rfl

end Grammar

theorem Rules.invoke_eq_invokeOn (rules : Rules ε ν)
    (run : Grammar ε ν → Parser (ParserState ν) ε ν) :
    rules.invoke run = rules.invokeOn Engine.tables run := by
  funext index source start
  unfold Rules.invoke Rules.invokeOn
  cases rules[index]? with
  | none => rfl
  | some rule =>
      cases rule with
      | recursive tag cells body => cases tag <;> rfl
      | forward definition => cases definition <;> rfl

theorem Grammar.run_eq_runOn [DecidableEq ε] (rules : Rules ε ν) (steps : Nat)
    (grammar : Grammar ε ν) :
    grammar.run rules steps = grammar.runOn Engine.tables rules steps := by
  induction steps generalizing grammar with
  | zero => exact parser_eq_parserOn _ _ grammar
  | succ steps induction =>
      have definitions : run rules steps = runOn Engine.tables rules steps := funext induction
      unfold run runOn
      rw [definitions, rules.invoke_eq_invokeOn, parser_eq_parserOn]

end RecursiveDescent
