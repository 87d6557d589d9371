import RecursiveDescent.Parser
import RecursiveDescent.Power

/-!
# Parsers in machine words

Positions and widths are natural numbers for the combinators, so sums of them are exact.  On a
machine they are 64-bit words, and every sum is checked: an addition that overflows ends the whole
attempt without an outcome.  The parsers of this file are given up in the same places.

A sum is always either the position of a further attempt or the width of an outcome, so it is
enough to look at the two ends of each attempt.
-/

namespace RecursiveDescent

variable {σ ε α : Type}

/-- Gives an attempt up when its result does not pass the test. -/
def Attempt.passing (test : α → Bool) (attempt : Attempt σ α) : Attempt σ α := do
  let result ← attempt
  if test result then return result else unfinished

namespace Parser

/-- Gives up where the position of the attempt, or the width of the outcome, is no word. -/
def withinWords (inner : Parser σ ε α) : Parser σ ε α := fun source start =>
  if start < 2 ^ 64 then
    (inner source start).passing fun outcome => outcome.advance < 2 ^ 64
  else
    Attempt.unfinished

/-- Gives up where the position behind the match is no word. -/
def endingInWord (inner : Parser σ ε α) : Parser σ ε α := fun source start =>
  (inner source start).passing fun outcome => start + outcome.advance < 2 ^ 64

end Parser

end RecursiveDescent
