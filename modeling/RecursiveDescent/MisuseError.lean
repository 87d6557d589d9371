/-!
# Misuse of the parsing interface

A parser that does not match its input reports an ordinary failed outcome.  The errors of this
file are about something else: a caller who reads the value of a failed outcome, asks for a
repetition that no input can satisfy, or defines a forward declaration twice.  Each error is a
cause together with the data that explains it, and `MisuseError.message` puts it into words.
-/

namespace RecursiveDescent

/-- A mistake made in using the parsing interface.  An input that fails to match is never one. -/
inductive MisuseError where
  /-- The named field of a failed outcome was read. -/
  | failureAccess (field : String)
  /-- No number of matches lies within the two bounds. -/
  | invalidRepeatBounds (minimum maximum : Int)
  /-- A forward declaration received a second definition. -/
  | alreadyDefined
  deriving DecidableEq

namespace MisuseError

/-- The sentence shown to the caller.  For invalid bounds it names the first of three faults that
applies: a negative minimum, a maximum below the mark `-1` for "unbounded", and otherwise a
minimum above the maximum. -/
def message : MisuseError → String
  | .failureAccess field => s!"Cannot read `{field}` of a failed parse outcome"
  | .invalidRepeatBounds minimum maximum =>
    if minimum < 0 then
      s!"Invalid repeat bounds: minimum {minimum} is negative (maximum {maximum})"
    else if maximum < -1 then
      s!"Invalid repeat bounds: maximum {maximum} is below -1 (unbounded)"
    else
      s!"Invalid repeat bounds: minimum {minimum} exceeds maximum {maximum}"
  | .alreadyDefined => "Forward parser is already defined"

/-- A character as it is written between double quotes.  Quotes, backslashes and the usual control
characters have escapes of their own, and other control characters are written by their code. -/
private def escaped (character : Char) : List Char :=
  match character with
  | '"' => ['\\', '"']
  | '\\' => ['\\', '\\']
  | '\t' => ['\\', 't']
  | '\n' => ['\\', 'n']
  | '\r' => ['\\', 'r']
  | '\x00' => ['\\', '0']
  | other =>
    let code := other.toNat
    if code < 0x20 ∨ (0x7f ≤ code ∧ code < 0xa0) then
      "\\u\x7b".toList ++ Nat.toDigits 16 code ++ "\x7d".toList
    else
      [other]

private def quoted (text : String) : String :=
  "\"" ++ String.ofList (text.toList.flatMap escaped) ++ "\""

/-- The cause and its data written out as a term, for a developer who inspects the error. -/
def inspect : MisuseError → String
  | .failureAccess field => "FailureAccess \x7b field: " ++ quoted field ++ " \x7d"
  | .invalidRepeatBounds minimum maximum =>
    "InvalidRepeatBounds \x7b min: " ++ toString minimum ++ ", max: " ++ toString maximum ++ " \x7d"
  | .alreadyDefined => "AlreadyDefined"

end MisuseError

end RecursiveDescent
