import RecursiveDescent.Binary64

/-!
# Binary64 numbers as significand and exponent

Every finite binary64 number is `± significand * 2 ^ exponent` with natural significand.  The
exponent is at least `-1074`, and the significand has 53 bits unless the exponent is the least.
-/

namespace RecursiveDescent

namespace Decimal

/-- A magnitude `significand * 2 ^ exponent`. -/
structure Magnitude where
  significand : Nat
  exponent : Int
  deriving DecidableEq

/-- The number of bits of a binary64 significand that are stored. -/
def storedBits : Nat :=
  52

def leastExponent : Int :=
  -1074

/-- The magnitude of a finite number. -/
def magnitude (number : Binary64) : Magnitude :=
  let bits := number.bits.toNat
  let fraction : Nat := bits % 2 ^ storedBits
  let biased : Nat := bits / 2 ^ storedBits % 2 ^ 11
  if biased = 0 then
    ⟨fraction, leastExponent⟩
  else
    ⟨2 ^ storedBits + fraction, leastExponent + biased - 1⟩

/-- A power of an integer exponent, as numerator and denominator. -/
def power (base : Nat) (exponent : Int) : Nat × Nat :=
  (base ^ exponent.toNat, base ^ (-exponent).toNat)

def digits (number : Nat) : List Char :=
  Nat.toDigits 10 number

end Decimal

end RecursiveDescent
