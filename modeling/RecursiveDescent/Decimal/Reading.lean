import RecursiveDescent.Decimal.Significand

/-!
# Reading decimal literals

A literal has an optional sign, digits, an optional fraction behind a point, and an optional
exponent behind `e` or `E`.  Its value is the binary64 number nearest to the decimal, which is
infinite when the decimal is too large.  An exponent is read only until it has reached
`exponentBound`, which lies far beyond the exponents of all numbers of moderate length.
-/

namespace RecursiveDescent

namespace Decimal

/-- Whether a character is one of the ten ASCII digits. -/
def isDigit (character : Char) : Bool :=
  '0' ≤ character ∧ character ≤ '9'

def digitValue (character : Char) : Nat :=
  character.toNat - '0'.toNat

/-- The number that a run of digits stands for. -/
def numeral (run : List Char) : Nat :=
  run.foldl (fun total character => 10 * total + digitValue character) 0

/-- Splits a sign off a text; no sign counts as plus. -/
def splitSign : List Char → Bool × List Char
  | '-' :: rest => (true, rest)
  | '+' :: rest => (false, rest)
  | text => (false, text)

/-- The number that a sign and digits stand for. -/
def signedNumeral (text : List Char) : Int :=
  let (negative, run) := splitSign text
  if negative then -Int.ofNat (numeral run) else Int.ofNat (numeral run)

/-- An exponent that has reached this bound is read no further. -/
def exponentBound : Nat :=
  2 ^ 16

/-- The number that the digits of an exponent stand for.  Digits behind a number that has reached
the bound do not count, so exponents stay small however many digits they have. -/
def exponentNumeral (run : List Char) : Nat :=
  run.foldl
    (fun total character =>
      if total < exponentBound then 10 * total + digitValue character else total)
    0

/-- The number that the sign and the digits of an exponent stand for. -/
def signedExponent (text : List Char) : Int :=
  let (negative, run) := splitSign text
  if negative then -Int.ofNat (exponentNumeral run) else Int.ofNat (exponentNumeral run)

/-- The largest decimal order that any finite number reaches, and the least one that is not
rounded to zero, are far inside this bound. -/
def orderLimit : Int :=
  400

/-- The binary64 number nearest to the decimal with the given digits, the last of which counts
`10 ^ exponent`.  A decimal of an order beyond every finite number, or below every positive one,
needs no arithmetic. -/
def nearest (run : List Char) (exponent : Int) : Binary64 :=
  let significant := run.dropWhile fun character => character = '0'
  let order := exponent + significant.length
  if significant.isEmpty ∨ order < -orderLimit then
    .zero
  else if orderLimit < order then
    .infinity
  else if exponent < 0 then
    .ofFloat (Float.ofScientific (numeral significant) true (-exponent).toNat)
  else
    .ofFloat (Float.ofScientific (numeral significant) false exponent.toNat)

def unsignedValue (text : List Char) : Binary64 :=
  let whole := text.takeWhile isDigit
  let afterWhole := text.dropWhile isDigit
  let fraction :=
    match afterWhole with
    | '.' :: rest => rest.takeWhile isDigit
    | _ => []
  let afterFraction :=
    match afterWhole with
    | '.' :: rest => rest.dropWhile isDigit
    | rest => rest
  let exponent := signedExponent (afterFraction.drop 1)
  nearest (whole ++ fraction) (exponent - fraction.length)

def value (text : List Char) : Binary64 :=
  let (negative, rest) := splitSign text
  if negative then -unsignedValue rest else unsignedValue rest

end Decimal

end RecursiveDescent
