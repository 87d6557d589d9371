import RecursiveDescent.Collector.Joining
import RecursiveDescent.Collector.Sorted
import RecursiveDescent.Emission
import RecursiveDescent.Event
import RecursiveDescent.Value.Display

/-!
# Collectors of values

The ready-made collectors with values as their results, two collectors about numbers and order,
and the announced collector, which enters an event into the journal before each of its steps.
-/

namespace RecursiveDescent

namespace Value

variable {m : Type → Type} [Monad m]

def listing : Collector m Value Value :=
  Collector.toList.andThen Value.list

def gatheringSet : Collector m Value Value :=
  (Collector.toSet Value.compare).andThen Value.set

/-- A value as a map entry: a pair is a key with its value, and any other value is a key
without one. -/
def entry : Value → Value × Value
  | .pair key value => (key, value)
  | key => (key, .unit)

/-- The map of the values as entries. -/
def gatheringMap : Collector m Value Value :=
  ((Collector.toMap Value.compare).mapInput entry).andThen Value.map

def counting : Collector m Value Value :=
  Collector.counting.andThen ofNat

/-- The unit value, whatever the values. -/
def discarding : Collector m Value Value :=
  Collector.discarding.andThen fun _ => Value.unit

/-- The displays of the values in one string. -/
def stringifying : Collector m Value Value :=
  (Collector.stringify display).andThen Value.string

/-- The displays of the values in one string, with texts around and between them. -/
def joining (texts : Joining) : Collector m Value Value :=
  (Collector.joining texts display).andThen Value.string

/-- The earliest smallest value, if any. -/
def minimum (compare : Value → Value → Ordering) : Collector m Value Value :=
  (Collector.minBy compare).andThen ofOption

/-- The earliest greatest value, if any. -/
def maximum (compare : Value → Value → Ordering) : Collector m Value Value :=
  (Collector.maxBy compare).andThen ofOption

/-- The sum of the numbers so far, as a float, and how many there were. -/
structure RunningMean where
  total : Binary64
  count : Nat

/-- Takes one more value into a mean; what is no number does not count. -/
def RunningMean.include (mean : RunningMean) : Value → RunningMean
  | .int number => ⟨mean.total + Binary64.ofInt number, mean.count + 1⟩
  | .float number => ⟨mean.total + number, mean.count + 1⟩
  | _ => mean

/-- The mean of the numbers, and zero without numbers. -/
def RunningMean.result (mean : RunningMean) : Value :=
  if mean.count = 0 then .float .zero else .float (mean.total / Binary64.ofInt mean.count)

def averaging : Collector m Value Value :=
  Collector.ofFold ⟨.zero, 0⟩ RunningMean.include RunningMean.result

def last : Collector m Value Value :=
  Collector.ofFold Option.none (fun _ value => Option.some value) ofOption

/-- Announces each step of a collector under a tag. -/
def announced {ν α : Type} (tag : String) (collector : Collector (Emission (Event ν)) ν α) :
    Collector (Emission (Event ν)) ν α :=
  collector.announcing (Emission.emit (.supplied tag))
    (fun value => Emission.emit (.accumulated tag value)) (Emission.emit (.finished tag))

end Value

end RecursiveDescent
