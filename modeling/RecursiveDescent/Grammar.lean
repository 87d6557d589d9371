import RecursiveDescent.Collector
import RecursiveDescent.Emission
import RecursiveDescent.Event
import RecursiveDescent.Outcome
import RecursiveDescent.RepeatBounds

/-!
# Grammars

A grammar describes a parser as data, with functions only for what happens to elements and
values.  Rules and memo tables are named by number: every occurrence of a rule denotes the same
rule, and memoized parsers with the same cell share one table.  What a grammar does to a source
is defined in `RecursiveDescent.GrammarRun`.
-/

namespace RecursiveDescent

/-- A collector of values that may announce its steps as events. -/
abbrev ValueCollector (ν : Type) : Type 1 :=
  Collector (Emission (Event ν)) ν ν

/-- A grammar over elements of type `ε` whose parsers yield values of type `ν`. -/
inductive Grammar (ε ν : Type) : Type 1 where
  /-- One element that passes a test. -/
  | element (test : ε → Bool) (value : ε → ν)
  /-- Exactly these elements. -/
  | literal (expected : List ε) (value : ν)
  /-- A fixed number of elements that can be read as a value. -/
  | fixedWidth (width : Nat) (read : List ε → Option ν)
  /-- Nothing, anywhere. -/
  | succeed (value : ν)
  /-- No match at all. -/
  | fail
  /-- Nothing, where no element remains. -/
  | endOfInput (value : ν)
  /-- Whatever a function makes of source and position. -/
  | ofFunction (function : Array ε → Nat → Outcome ν)
  /-- One grammar behind the other. -/
  | sequence (first second : Grammar ε ν) (combine : ν → ν → ν)
  /-- The second grammar where the first one fails. -/
  | choice (first second : Grammar ε ν)
  /-- Nothing where the grammar fails. -/
  | optional (inner : Grammar ε ν) (fallback : ν)
  /-- As many matches as the bounds allow. -/
  | repeated (item : Grammar ε ν) (collector : ValueCollector ν) (bounds : RepeatBounds)
  /-- A match that consumes nothing. -/
  | ahead (inner : Grammar ε ν)
  /-- Nothing, where the grammar fails and only there. -/
  | notAhead (inner : Grammar ε ν) (value : ν)
  /-- Items with delimiters between them, gathered as the first item says. -/
  | delimited (item delimiter : Grammar ε ν) (combine : ν → ν → ν)
      (headCollector : ν → ValueCollector ν)
  /-- Items with delimiters between them, of which only the items are gathered. -/
  | separated (item delimiter : Grammar ε ν) (collector : ValueCollector ν)
  /-- A grammar whose outcome chooses how to go on. -/
  | bind (first : Grammar ε ν) (binder : Outcome ν → Grammar ε ν)
  /-- A match with its value transformed. -/
  | map (inner : Grammar ε ν) (function : ν → ν)
  /-- A match with its value transformed, if it can be. -/
  | tryMap (inner : Grammar ε ν) (function : ν → Option ν)
  /-- A match with a value that is accepted. -/
  | filter (inner : Grammar ε ν) (accepts : ν → Bool)
  /-- A match that yields a reading of the consumed elements. -/
  | recognize (inner : Grammar ε ν) (read : List ε → ν)
  /-- Enters an event before every attempt. -/
  | before (tag : String) (inner : Grammar ε ν)
  /-- Enters an event after every match. -/
  | onSuccess (tag : String) (inner : Grammar ε ν)
  /-- Enters an event after every failure. -/
  | onFailure (tag : String) (inner : Grammar ε ν)
  /-- Logs every attempt and how it ended. -/
  | traced (name : String) (inner : Grammar ε ν)
  /-- Remembers matches in the memo table of a cell. -/
  | memoized (cell : Nat) (inner : Grammar ε ν)
  /-- Builds the grammar anew for every attempt, so that the memo tables in these cells start
  empty and belong to one attempt only. -/
  | rebuilt (cells : List Nat) (inner : Grammar ε ν)
  /-- Looks the grammar up, and says so, at every attempt. -/
  | deferred (tag : String) (inner : Grammar ε ν)
  /-- The rule with this number. -/
  | rule (index : Nat)

namespace Grammar

variable {ε ν : Type}

/-- The name under which a traced grammar is logged. -/
def traceName? : Grammar ε ν → Option String
  | .traced name _ => some name
  | _ => none

def repeatBounds? : Grammar ε ν → Option RepeatBounds
  | .repeated _ _ bounds => some bounds
  | _ => none

end Grammar

/-- What a rule number stands for. -/
inductive Rule (ε ν : Type) : Type 1 where
  /-- A rule whose definition is evaluated at every invocation, which builds its body anew with
  the memo tables in `cells`.  Under a tag, every evaluation is entered into the journal. -/
  | recursive (tag : Option String) (cells : List Nat) (body : Grammar ε ν)
  /-- A declaration that may receive a definition later, once. -/
  | forward (definition : Option (Grammar ε ν))

abbrev Rules (ε ν : Type) : Type 1 :=
  Array (Rule ε ν)

namespace Rules

variable {ε ν : Type}

def isDefined (rules : Rules ε ν) (index : Nat) : Bool :=
  match rules[index]? with
  | some (.recursive _ _ _) => true
  | some (.forward definition) => definition.isSome
  | none => false

/-- Gives a forward declaration its definition.  A rule that has one keeps it. -/
def define (rules : Rules ε ν) (index : Nat) (definition : Grammar ε ν) :
    Except MisuseError (Rules ε ν) :=
  if rules.isDefined index then
    .error .alreadyDefined
  else
    .ok (rules.setIfInBounds index (.forward (some definition)))

end Rules

end RecursiveDescent
