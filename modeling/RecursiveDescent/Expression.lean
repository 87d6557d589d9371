import RecursiveDescent.Grammar
import RecursiveDescent.Value

/-!
# Grammar expressions

Grammars are written as expressions in which rules have names and memoized parsers have no
numbers yet.  Resolving an expression looks every name up, gives each memoized parser a cell of
its own and each recursive rule a number, and checks the bounds of repetitions.

A name means the innermost recursive rule around it that has this name, and otherwise the rule of
that name in the surrounding scope.  Names are looked up when the expression is resolved, so a
later change of the scope does not reach into the grammar.
-/

namespace RecursiveDescent

variable {ε : Type}

/-- A grammar with names for its rules. -/
inductive Expression (ε : Type) : Type 1 where
  /-- A grammar that mentions no names. -/
  | basic (grammar : Grammar ε Value)
  /-- A construct around one expression. -/
  | around (construct : Grammar ε Value → Grammar ε Value) (inner : Expression ε)
  /-- A construct of two expressions. -/
  | between (construct : Grammar ε Value → Grammar ε Value → Grammar ε Value)
      (first second : Expression ε)
  /-- A repetition, with bounds that may turn out to be invalid. -/
  | repeated (item : Expression ε) (collector : ValueCollector Value)
      (bounds : RepeatBounds.Request)
  /-- A choice of how to go on: one way after a success of the first expression, another after
  a failure. -/
  | branching (first onSuccess onFailure : Expression ε)
  /-- A memoized parser with a table of its own. -/
  | memoized (inner : Expression ε)
  /-- A recursive rule with a name for use in its body. -/
  | recursive (name : String) (tag : Option String) (body : Expression ε)
  /-- The rule of a name. -/
  | reference (name : String)

/-- Why an expression does not denote a grammar. -/
inductive ResolutionError where
  /-- The expression asks for something that the interface refuses. -/
  | misuse (error : MisuseError)
  /-- The name stands for no rule. -/
  | unknownName (name : String)

/-- What names stand for, the innermost first. -/
abbrev Scope (ε : Type) : Type 1 :=
  List (String × Grammar ε Value)

/-- The numbers that are taken: the rules so far, and how many memo cells are in use. -/
structure Numbering (ε : Type) : Type 1 where
  rules : Rules ε Value := #[]
  cells : Nat := 0

namespace Numbering

/-- Takes the next rule number, for a declaration without a definition. -/
def addRule (numbering : Numbering ε) : Numbering ε :=
  { numbering with rules := numbering.rules.push (.forward none) }

/-- Puts a rule in place of the declaration that holds its number. -/
def setRule (numbering : Numbering ε) (index : Nat) (rule : Rule ε Value) : Numbering ε :=
  { numbering with rules := numbering.rules.setIfInBounds index rule }

def addCell (numbering : Numbering ε) : Numbering ε :=
  { numbering with cells := numbering.cells + 1 }

end Numbering

/-- The rest of a grammar as the outcome of its beginning chooses it. -/
def branch (onSuccess onFailure : Grammar ε Value) : Outcome Value → Grammar ε Value
  | .success _ _ => onSuccess
  | .failure => onFailure

namespace Expression

/-- The grammar that an expression denotes in a scope.  The parts of an expression are resolved
from left to right and before the expression itself, and the first error counts.  The memo cells
that the body of a recursive rule takes are those of one invocation of the rule. -/
def resolve (expression : Expression ε) (scope : Scope ε) (numbering : Numbering ε) :
    Except ResolutionError (Grammar ε Value × Numbering ε) :=
  match expression with
  | .basic grammar => .ok (grammar, numbering)
  | .around construct inner => do
    let (inner, numbering) ← inner.resolve scope numbering
    return (construct inner, numbering)
  | .between construct first second => do
    let (first, numbering) ← first.resolve scope numbering
    let (second, numbering) ← second.resolve scope numbering
    return (construct first second, numbering)
  | .repeated item collector request => do
    let (item, numbering) ← item.resolve scope numbering
    match request.bounds with
    | .ok bounds => return (.repeated item collector bounds, numbering)
    | .error error => throw (.misuse error)
  | .branching first onSuccess onFailure => do
    let (first, numbering) ← first.resolve scope numbering
    let (onSuccess, numbering) ← onSuccess.resolve scope numbering
    let (onFailure, numbering) ← onFailure.resolve scope numbering
    return (.bind first (branch onSuccess onFailure), numbering)
  | .memoized inner => do
    let (inner, numbering) ← inner.resolve scope numbering
    return (.memoized numbering.cells inner, numbering.addCell)
  | .recursive name tag body => do
    let index := numbering.rules.size
    let firstCell := numbering.cells
    let (body, numbering) ← body.resolve ((name, .rule index) :: scope) numbering.addRule
    let cells := List.range' firstCell (numbering.cells - firstCell)
    return (.rule index, numbering.setRule index (.recursive tag cells body))
  | .reference name =>
    match scope.lookup name with
    | some grammar => .ok (grammar, numbering)
    | none => .error (.unknownName name)

end Expression

end RecursiveDescent
