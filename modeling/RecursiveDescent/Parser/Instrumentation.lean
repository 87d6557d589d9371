import RecursiveDescent.Parser

/-!
# Instrumented parsers

Hooks have an effect on the state around the attempts of a parser.  The outcome that the caller
sees is the one of the parser inside.
-/

namespace RecursiveDescent

namespace Parser

variable {σ ε α : Type}

/-- Has an effect before every attempt. -/
def before (hook : Array ε → Nat → σ → σ) (inner : Parser σ ε α) : Parser σ ε α :=
  fun source start => do
    modify (hook source start)
    inner source start

/-- Has an effect after every match, of which it knows the width and the value. -/
def onSuccess (hook : Array ε → Nat → Nat → α → σ → σ) (inner : Parser σ ε α) :
    Parser σ ε α := fun source start => do
  let outcome ← inner source start
  modify fun state =>
    match outcome with
    | .success width value => hook source start width value state
    | .failure => state
  return outcome

/-- Has an effect after every failure. -/
def onFailure (hook : Array ε → Nat → σ → σ) (inner : Parser σ ε α) : Parser σ ε α :=
  fun source start => do
    let outcome ← inner source start
    modify fun state =>
      match outcome with
      | .success _ _ => state
      | .failure => hook source start state
    return outcome

end Parser

end RecursiveDescent
