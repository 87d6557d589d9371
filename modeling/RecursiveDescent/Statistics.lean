import RecursiveDescent.Decimal.Fixed
import RecursiveDescent.MemoTable

/-!
# Statistics of a memo table

The counts that a memo table reports about itself.  They are 64-bit words, and so is their total.
The addition is checked: for counts whose sum does not fit, which no table can reach, there is no
total, and neither a hit rate nor a text.
-/

namespace RecursiveDescent

/-- How often a memo table could answer, how often it could not, and how many entries it has. -/
structure Statistics where
  hits : UInt64
  misses : UInt64
  entries : UInt64
  deriving DecidableEq

namespace Statistics

/-- The number of invocations, unless the addition overflows. -/
def total (statistics : Statistics) : Option UInt64 :=
  if statistics.hits.toNat + statistics.misses.toNat < 2 ^ 64 then
    some (statistics.hits + statistics.misses)
  else
    none

/-- The part of the invocations that the table could answer, and zero without invocations. -/
def hitRate (statistics : Statistics) : Option Float :=
  statistics.total.map fun total =>
    if 0 < total then statistics.hits.toFloat / total.toFloat else 0.0

/-- The statistics as a line of text, with the hit rate in percent. -/
def text (statistics : Statistics) : Option String :=
  statistics.hitRate.map fun rate =>
    let percentage := Decimal.tenthsText (.ofFloat (rate * 100.0))
    s!"{statistics.hits} hits, {statistics.misses} misses, {statistics.entries} entries " ++
      s!"({percentage}% hit rate)"

/-- The statistics written out as a term. -/
def inspect (statistics : Statistics) : String :=
  "PackratStats \x7b hits: " ++ toString statistics.hits ++ ", misses: " ++
    toString statistics.misses ++ ", entries: " ++ toString statistics.entries ++ " \x7d"

end Statistics

namespace MemoTable

variable {ν : Type}

/-- What a table reports about itself. -/
def statistics (table : MemoTable ν) : Statistics :=
  ⟨table.hits.toUInt64, table.misses.toUInt64, table.size.toUInt64⟩

/-- A table written out as a term, without its entries. -/
def inspect (table : MemoTable ν) : String :=
  "Packrat \x7b stats: " ++ table.statistics.inspect ++ ", .. \x7d"

end MemoTable

end RecursiveDescent
