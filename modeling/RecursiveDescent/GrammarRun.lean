import RecursiveDescent.Grammar
import RecursiveDescent.Parser.Instrumentation
import RecursiveDescent.Parser.Memoization
import RecursiveDescent.Parser.Repetition
import RecursiveDescent.Power

/-!
# Running grammars

`Grammar.parser` reads a grammar as a parser, given what it means to invoke a rule and how many
rounds a loop may take; it maps every construct to the combinator of the same name.
`Grammar.run` ties the knot: with `steps` allotted, a loop may take `steps` rounds and a rule is
invoked with one step less.  A run that finishes does so with the same result for every larger
allotment, and a run that is unfinished for every allotment would never end.
-/

namespace RecursiveDescent

variable {ε ν : Type}

namespace Grammar

/-- The collector of a grammar, with its announcements entered into the journal. -/
def journaled (collector : ValueCollector ν) : Collector (StateM (ParserState ν)) ν ν :=
  collector.transport ParserState.absorb

/-- Logs an attempt of a parser and how it ended. -/
def tracing (name : String) (inner : Parser (ParserState ν) ε ν) :
    Parser (ParserState ν) ε ν := fun source start => do
  modify fun state => state.log (.trying name start source.size)
  let outcome ← inner source start
  modify fun state =>
    match outcome with
    | .success consumed _ => state.log (.matched name consumed start)
    | .failure => state.log (.unmatched name start)
  return outcome

/-- The parser that a grammar describes, when `invoke` is what a rule does. -/
def parser [DecidableEq ε] (rounds : Nat) (invoke : Nat → Parser (ParserState ν) ε ν) :
    Grammar ε ν → Parser (ParserState ν) ε ν
  | .element test value => Parser.element test value
  | .literal expected value => Parser.literal expected value
  | .fixedWidth width read => Parser.fixedWidth width read
  | .succeed value => Parser.succeed value
  | .fail => Parser.fail
  | .endOfInput value => Parser.endOfInput value
  | .ofFunction function => Parser.ofFunction function
  | .sequence first second combine =>
    Parser.sequence (first.parser rounds invoke) (second.parser rounds invoke) combine
  | .choice first second =>
    Parser.choice (first.parser rounds invoke) (second.parser rounds invoke)
  | .optional inner fallback => Parser.optional (inner.parser rounds invoke) fallback
  | .repeated item collector bounds =>
    Parser.repeated rounds (item.parser rounds invoke) (journaled collector) bounds
  | .ahead inner => Parser.ahead (inner.parser rounds invoke)
  | .notAhead inner value => Parser.notAhead (inner.parser rounds invoke) value
  | .delimited item delimiter combine headCollector =>
    Parser.delimited rounds (item.parser rounds invoke) (delimiter.parser rounds invoke) combine
      fun head => journaled (headCollector head)
  | .separated item delimiter collector =>
    Parser.separated rounds (item.parser rounds invoke) (delimiter.parser rounds invoke)
      (journaled collector)
  | .bind first binder =>
    Parser.bind (first.parser rounds invoke) fun outcome =>
      (binder outcome).parser rounds invoke
  | .map inner function => Parser.map (inner.parser rounds invoke) function
  | .tryMap inner function => Parser.tryMap (inner.parser rounds invoke) function
  | .filter inner accepts => Parser.filter (inner.parser rounds invoke) accepts
  | .recognize inner read => Parser.recognize (inner.parser rounds invoke) read
  | .before tag inner =>
    Parser.before (fun _ start state => state.record (.attempted tag start))
      (inner.parser rounds invoke)
  | .onSuccess tag inner =>
    Parser.onSuccess
      (fun _ start width value state => state.record (.succeeded tag start width value))
      (inner.parser rounds invoke)
  | .onFailure tag inner =>
    Parser.onFailure (fun _ start state => state.record (.failed tag start))
      (inner.parser rounds invoke)
  | .traced name inner => tracing name (inner.parser rounds invoke)
  | .memoized cell inner => Parser.memoized cell (inner.parser rounds invoke)
  | .rebuilt cells inner => Parser.withFreshTables cells (inner.parser rounds invoke)
  | .deferred tag inner =>
    Parser.before (fun _ _ state => state.record (.resolved tag)) (inner.parser rounds invoke)
  | .rule index => invoke index

end Grammar

namespace Rules

/-- Enters the evaluation of a definition into the journal, if it has a tag. -/
def noteExpansion (tag : Option String) (state : ParserState ν) : ParserState ν :=
  match tag with
  | some tag => state.record (.expanded tag)
  | none => state

/-- What the invocation of a rule does, when `run` runs the grammar of its definition.  A
declaration without a definition fails and logs that it was invoked too early. -/
def invoke (rules : Rules ε ν) (run : Grammar ε ν → Parser (ParserState ν) ε ν) (index : Nat) :
    Parser (ParserState ν) ε ν := fun source start =>
  match rules[index]? with
  | some (.recursive tag cells body) => do
    modify (noteExpansion tag)
    run (.rebuilt cells body) source start
  | some (.forward (some definition)) => run definition source start
  | _ => do
    modify fun state => state.log (.undefinedRule start)
    return .failure

end Rules

namespace Grammar

/-- Runs a grammar with an allotment of steps. -/
def run [DecidableEq ε] (rules : Rules ε ν) : Nat → Grammar ε ν → Parser (ParserState ν) ε ν
  | 0, grammar => grammar.parser 0 fun _ _ _ => Attempt.unfinished
  | steps + 1, grammar => grammar.parser (steps + 1) (rules.invoke (run rules steps))

/-- An allotment of steps that no run on a machine can use up. -/
def amplySteps : Nat :=
  2 ^ 62

def parseFrom [DecidableEq ε] (grammar : Grammar ε ν) (rules : Rules ε ν) (source : Array ε)
    (start : Nat) : Attempt (ParserState ν) (Outcome ν) :=
  grammar.run rules amplySteps source start

/-- Runs a grammar on a whole source, of which it has to consume everything: the value, if so. -/
def parseComplete [DecidableEq ε] (grammar : Grammar ε ν) (rules : Rules ε ν)
    (source : Array ε) : Attempt (ParserState ν) (Option ν) := do
  match ← grammar.parseFrom rules source 0 with
  | .success consumed value =>
    if consumed = source.size then return some value else return none
  | .failure => return none

end Grammar

end RecursiveDescent
