import RecursiveDescent.Decimal.Significand

/-!
# The shortest decimal that reads back

A binary64 number stands for all reals that round to it: an interval around its value, whose ends
belong to it exactly when the significand is even.  The shortest decimal of the number is the
point of that interval on the coarsest decimal grid that has one there.  Of two such points the
one nearer to the value is taken, and the upper one when they are equally near.

The number is written without an exponent: `shortestText` gives `100`, `-0`, `0.1`, and `inf`,
`-inf` or `NaN` for what is not finite.
-/

namespace RecursiveDescent

namespace Decimal

/-- The reals that round to a number, in quarters of a unit of its last significand bit.  Below a
power of two the neighbouring numbers lie half as far apart as above it. -/
structure RoundingInterval where
  low : Nat
  value : Nat
  high : Nat
  closed : Bool
  /-- The exponent of a quarter unit. -/
  exponent : Int

/-- The reals that round to a positive magnitude. -/
def roundingInterval (number : Magnitude) : RoundingInterval where
  low :=
    if number.significand = 2 ^ storedBits ∧ leastExponent < number.exponent then
      4 * number.significand - 1
    else
      4 * number.significand - 2
  value := 4 * number.significand
  high := 4 * number.significand + 2
  closed := number.significand % 2 = 0
  exponent := number.exponent - 2

/-- A decimal number `coefficient * 10 ^ exponent`. -/
structure Scientific where
  coefficient : Nat
  exponent : Int
  deriving DecidableEq

/-- The two factors by which points of the grid `10 ^ gridExponent` and quarter units become
whole numbers that can be compared. -/
def commonScale (interval : RoundingInterval) (gridExponent : Int) : Nat × Nat :=
  let grid := power 10 gridExponent
  let quarter := power 2 interval.exponent
  (grid.1 * quarter.2, quarter.1 * grid.2)

/-- Whether `point * 10 ^ gridExponent` rounds to the number. -/
def RoundingInterval.contains (interval : RoundingInterval) (gridExponent : Int) (point : Nat) :
    Bool :=
  let scale := commonScale interval gridExponent
  let position := point * scale.1
  let low := interval.low * scale.2
  let high := interval.high * scale.2
  if interval.closed then
    low ≤ position ∧ position ≤ high
  else
    low < position ∧ position < high

/-- The point of the grid `10 ^ gridExponent` that rounds to the number and is nearest to it, if
the grid has one. -/
def RoundingInterval.nearestPoint? (interval : RoundingInterval) (gridExponent : Int) :
    Option Nat :=
  let scale := commonScale interval gridExponent
  let value := interval.value * scale.2
  let below := value / scale.1
  let above := below + 1
  match interval.contains gridExponent below, interval.contains gridExponent above with
  | true, true =>
    if value - below * scale.1 < above * scale.1 - value then some below else some above
  | true, false => some below
  | false, true => some above
  | false, false => none

/-- Tries the grids from `10 ^ gridExponent` downwards. -/
def RoundingInterval.coarsestPoint (interval : RoundingInterval) :
    (grids : Nat) → (gridExponent : Int) → Scientific
  | 0, gridExponent => ⟨0, gridExponent⟩
  | grids + 1, gridExponent =>
    match interval.nearestPoint? gridExponent with
    | some point => ⟨point, gridExponent⟩
    | none => interval.coarsestPoint grids (gridExponent - 1)

/-- An exponent of ten that a positive magnitude stays below, and by less than two orders. -/
def exponentAbove (number : Magnitude) : Int :=
  let scale := power 2 number.exponent
  let numerator := number.significand * scale.1
  Int.subNatNat (digits numerator).length (digits scale.2).length + 1

/-- The shortest decimal of a positive magnitude.  Seventeen digits always suffice. -/
def shortest (number : Magnitude) : Scientific :=
  (roundingInterval number).coarsestPoint 20 (exponentAbove number)

/-- A decimal written without an exponent. -/
def Scientific.positional (number : Scientific) : String :=
  let written := digits number.coefficient
  if 0 ≤ number.exponent then
    String.ofList (written ++ List.replicate number.exponent.toNat '0')
  else
    let places := (-number.exponent).toNat
    let padded := List.replicate (places + 1 - written.length) '0' ++ written
    let whole := padded.take (padded.length - places)
    let fraction := padded.drop (padded.length - places)
    String.ofList (whole ++ '.' :: fraction)

/-- A number written with the fewest digits that read back as the same number. -/
def shortestText (number : Binary64) : String :=
  if number.isNaN then
    "NaN"
  else
    let sign := if number.isNegative then "-" else ""
    let text :=
      if number.isInfinite then
        "inf"
      else
        let size := magnitude number
        if size.significand = 0 then "0" else (shortest size).positional
    sign ++ text

end Decimal

end RecursiveDescent
