import RecursiveDescent.GrammarRun
import RecursiveDescent.Parser.MachineWords

/-!
# Running grammars on a machine

`Grammar.run` calculates with natural numbers.  `Grammar.runOnMachine` is the same run in machine
words: an attempt at a position that is no word, or with an outcome whose width is none, is given
up, and a repetition counts its matches in a word too.  Functions on positions can consume more
than there is, so they can get there; other grammars cannot.
-/

namespace RecursiveDescent

variable {ε ν : Type} [DecidableEq ε]

namespace Grammar

/-- The parser that a grammar describes on a machine, when `invoke` is what a rule does. -/
def machineParser (rounds : Nat) (invoke : Nat → Parser (ParserState ν) ε ν)
    (grammar : Grammar ε ν) : Parser (ParserState ν) ε ν :=
  Parser.withinWords <|
    match grammar with
    | .sequence first second combine =>
      Parser.sequence (first.machineParser rounds invoke) (second.machineParser rounds invoke)
        combine
    | .choice first second =>
      Parser.choice (first.machineParser rounds invoke) (second.machineParser rounds invoke)
    | .optional inner fallback =>
      Parser.optional (inner.machineParser rounds invoke) fallback
    | .repeated item collector bounds =>
      -- After as many matches, their count would be no word.
      Parser.repeated (min rounds (2 ^ 64)) (item.machineParser rounds invoke)
        (journaled collector) bounds
    | .ahead inner => Parser.ahead (inner.machineParser rounds invoke)
    | .notAhead inner value => Parser.notAhead (inner.machineParser rounds invoke) value
    | .delimited item delimiter combine headCollector =>
      Parser.delimited rounds (item.machineParser rounds invoke)
        (delimiter.machineParser rounds invoke) combine fun head => journaled (headCollector head)
    | .separated item delimiter collector =>
      Parser.separated rounds (item.machineParser rounds invoke)
        (delimiter.machineParser rounds invoke) (journaled collector)
    | .bind first binder =>
      Parser.bind (first.machineParser rounds invoke) fun outcome =>
        (binder outcome).machineParser rounds invoke
    | .map inner function => Parser.map (inner.machineParser rounds invoke) function
    | .tryMap inner function => Parser.tryMap (inner.machineParser rounds invoke) function
    | .filter inner accepts => Parser.filter (inner.machineParser rounds invoke) accepts
    | .recognize inner read =>
      Parser.recognize (inner.machineParser rounds invoke).endingInWord read
    | .before tag inner =>
      Parser.before (fun _ start state => state.record (.attempted tag start))
        (inner.machineParser rounds invoke)
    | .onSuccess tag inner =>
      Parser.onSuccess
        (fun _ start width value state => state.record (.succeeded tag start width value))
        (inner.machineParser rounds invoke)
    | .onFailure tag inner =>
      Parser.onFailure (fun _ start state => state.record (.failed tag start))
        (inner.machineParser rounds invoke)
    | .traced name inner => tracing name (inner.machineParser rounds invoke)
    | .memoized cell inner => Parser.memoized cell (inner.machineParser rounds invoke)
    | .rebuilt cells inner => Parser.withFreshTables cells (inner.machineParser rounds invoke)
    | .deferred tag inner =>
      Parser.before (fun _ _ state => state.record (.resolved tag))
        (inner.machineParser rounds invoke)
    | basic => basic.parser rounds invoke

/-- Runs a grammar on a machine with an allotment of steps. -/
def runOnMachine (rules : Rules ε ν) : Nat → Grammar ε ν → Parser (ParserState ν) ε ν
  | 0, grammar => grammar.machineParser 0 fun _ _ _ => Attempt.unfinished
  | steps + 1, grammar =>
    grammar.machineParser (steps + 1) (rules.invoke (runOnMachine rules steps))

def parseOnMachine (grammar : Grammar ε ν) (rules : Rules ε ν) (source : Array ε) (start : Nat) :
    Attempt (ParserState ν) (Outcome ν) :=
  grammar.runOnMachine rules amplySteps source start

/-- Runs a grammar on a machine on a whole source, of which it has to consume everything: the
value, if so. -/
def parseCompleteOnMachine (grammar : Grammar ε ν) (rules : Rules ε ν) (source : Array ε) :
    Attempt (ParserState ν) (Option ν) := do
  match ← grammar.parseOnMachine rules source 0 with
  | .success consumed value =>
    if consumed = source.size then return some value else return none
  | .failure => return none

end Grammar

end RecursiveDescent
