import RecursiveDescent.Decimal.Reading
import RecursiveDescent.Grammar
import RecursiveDescent.Value

/-!
# Grammars of values over any elements

Constructs that work for every kind of source and are only about positions and values.
-/

namespace RecursiveDescent

namespace Grammar

variable {ε : Type}

def paired (first second : Grammar ε Value) : Grammar ε Value :=
  .sequence first second Value.pair

def keepingFirst (first second : Grammar ε Value) : Grammar ε Value :=
  .sequence first second fun value _ => value

def keepingSecond (first second : Grammar ε Value) : Grammar ε Value :=
  .sequence first second fun _ value => value

/-- Claims to consume a number of elements, whether there are as many or not. -/
def skip (count : Nat) (value : Value) : Grammar ε Value :=
  .ofFunction fun _ _ => .success count value

/-- Consumes everything from a position of the source on; yields how many elements there were. -/
def rest : Grammar ε Value :=
  .ofFunction fun source start =>
    if start ≤ source.size then
      .success (source.size - start) (Value.ofNat (source.size - start))
    else
      .failure

/-- Yields the outcome of what went before as an optional value, and matches nothing. -/
def telling : Outcome Value → Grammar ε Value
  | .success consumed value => .succeed (.some (.pair (Value.ofNat consumed) value))
  | .failure => .succeed .none

/-- How many repetitions an outcome asks for: as many as its value says, which is a natural number
or a decimal digit, and none otherwise. -/
def requestedCount : Outcome Value → Nat
  | .success _ (.int number) => if number < 2 ^ 64 then number.toNat else 0
  | .success _ (.char found) =>
    if Decimal.isDigit found then Decimal.digitValue found else 0
  | _ => 0

/-- Repeats an item as often as the outcome of what went before asks for. -/
def counted (item : Grammar ε Value) (collector : ValueCollector Value)
    (outcome : Outcome Value) : Grammar ε Value :=
  .repeated item collector (.exactly (requestedCount outcome))

end Grammar

end RecursiveDescent
