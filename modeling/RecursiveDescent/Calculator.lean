import RecursiveDescent.GrammarRun
import RecursiveDescent.Statistics
import RecursiveDescent.Text.Grammar
import RecursiveDescent.Value.Grammar

/-!
# A calculator

Arithmetic expressions with the usual precedence.  Every level of precedence is a delimited list
whose first operand starts a fold from the left, so `1 - 2 - 3` is `(1 - 2) - 3` without left
recursion:

* an expression is terms with `+` and `-` between them,
* a term is factors with `*` and `/` between them,
* a factor is a minus sign and a factor, or a primary,
* a primary is an expression in parentheses, or a number.

White space may stand before the expression and behind every token.  Primaries are memoized.
-/

namespace RecursiveDescent

namespace Calculator

open Grammar (keepingFirst keepingSecond)
open Text (TextGrammar)

/-- A grammar with white space behind it. -/
def token (inner : TextGrammar) : TextGrammar :=
  keepingFirst inner Text.spaces

/-- A level of precedence: operands with operators between them, folded from the left. -/
def level (operand : TextGrammar) (operators : String) : TextGrammar :=
  .delimited operand (token (Text.oneOf operators)) Value.pair fun head =>
    Collector.aggregate head Value.applyStep

def expressionRule : Nat :=
  0

def factorRule : Nat :=
  1

def primaryCell : Nat :=
  0

/-- An expression in parentheses, or a number. -/
def primary : TextGrammar :=
  .memoized primaryCell <|
    .choice
      (keepingFirst
        (keepingSecond (token (Text.character '(')) (.rule expressionRule))
        (token (Text.character ')')))
      (token Text.decimal)

/-- A minus sign and a factor, or a primary. -/
def factor : TextGrammar :=
  .choice
    (.map (keepingSecond (token (Text.character '-')) (.rule factorRule)) Value.negate)
    primary

/-- Factors with `*` and `/` between them. -/
def term : TextGrammar :=
  level (.rule factorRule) "*/"

/-- Terms with `+` and `-` between them. -/
def sum : TextGrammar :=
  level term "+-"

def rules : Rules Char Value :=
  #[.forward (some (.traced "expr" sum)), .recursive none [] factor]

/-- A whole input: an expression with white space around it. -/
def whole : TextGrammar :=
  keepingSecond Text.spaces (.rule expressionRule)

/-- What the calculator makes of an input: its value unless there is a syntax error, the
statistics of the memo table of primaries, and the events on the way. -/
structure Line where
  value : Option Value
  statistics : Statistics
  events : List (Event Value)

/-- Evaluates an input after emptying the memo table and the journal.  There is no answer if the
evaluation did not end within its allotment of steps. -/
def evaluate (state : ParserState Value) (input : String) :
    Option (Line × ParserState Value) :=
  let start := (state.clearTable primaryCell).withoutEvents
  match whole.parseComplete rules input.toList.toArray start with
  | some (value, state) =>
    some (⟨value, (state.table primaryCell).statistics, state.events⟩, state)
  | none => none

def evaluateAll (state : ParserState Value) : List String → Option (List Line)
  | [] => some []
  | input :: inputs => do
    let (line, state) ← evaluate state input
    let lines ← evaluateAll state inputs
    return line :: lines

end Calculator

end RecursiveDescent
