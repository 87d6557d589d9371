import RecursiveDescent.Calculator

/-!
# The calculator as a program

Evaluates every argument, or some examples when there are none, and prints the values together
with the statistics of the memo table of primaries.
-/

namespace RecursiveDescent

namespace Calculator

/-- The inputs that stand in for missing arguments. -/
def examples : List String :=
  ["1 + 2 * 3", "(1 + 2) * 3", "10 - 4 - 3", "-(2.5 * 4) / 5", "1e3 / (2 + 3) - -1", "2 * (3 + "]

/-- A text padded with blanks to the width of the first column. -/
def column (text : String) : String :=
  text ++ String.ofList (List.replicate (24 - text.length) ' ')

/-- What is printed about an input, unless the statistics have no text. -/
def Line.report (line : Line) (input : String) : Option (List String) := do
  let result :=
    match line.value with
    | some value => column input ++ " = " ++ value.display
    | none => column input ++ " : syntax error"
  let cache ← line.statistics.text
  return [result, column "" ++ "   primary cache: " ++ cache]

end Calculator

end RecursiveDescent

open RecursiveDescent in
/-- Prints the value of every argument. -/
def main (arguments : List String) : IO UInt32 := do
  let inputs := if arguments.isEmpty then Calculator.examples else arguments
  let lines? := Calculator.evaluateAll .initial inputs
  let reports? := lines?.bind fun lines => (inputs.zip lines).mapM fun (input, line) =>
    line.report input
  match reports? with
  | some reports =>
    for text in reports.flatten do
      IO.println text
    return 0
  | none =>
    return 1
