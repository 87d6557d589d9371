import RecursiveDescent.Decimal.Significand

/-!
# Decimals with a fixed number of places

A finite number is rounded on its exact value to a multiple of a power of ten; a value half way
between two multiples goes to the even one.
-/

namespace RecursiveDescent

namespace Decimal

/-- A quotient rounded to the nearest whole number, a half to the even neighbour. -/
def roundedQuotient (numerator denominator : Nat) : Nat :=
  let below := numerator / denominator
  let rest := 2 * (numerator % denominator)
  if rest < denominator then below
  else if denominator < rest then below + 1
  else if below % 2 = 0 then below
  else below + 1

/-- A magnitude in whole units of `10 ^ -places`, rounded. -/
def Magnitude.rounded (number : Magnitude) (places : Nat) : Nat :=
  let scale := power 2 number.exponent
  roundedQuotient (number.significand * scale.1 * 10 ^ places) scale.2

/-- A finite number written with one decimal place. -/
def tenthsText (number : Binary64) : String :=
  let tenths := (magnitude number).rounded 1
  let sign := if number.isNegative then "-" else ""
  sign ++ toString (tenths / 10) ++ "." ++ toString (tenths % 10)

end Decimal

end RecursiveDescent
