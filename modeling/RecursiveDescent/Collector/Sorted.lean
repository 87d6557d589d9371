import RecursiveDescent.Collector
import RecursiveDescent.SortedList

/-!
# Collecting sets and maps

The set of all values, and the map of all entries in which a later entry replaces an earlier one
with the same key.
-/

namespace RecursiveDescent

namespace Collector

variable {m : Type → Type} {α κ ν : Type}

/-- The set of the values, in ascending order. -/
def toSet [Monad m] (compare : α → α → Ordering) : Collector m α (List α) :=
  ofFold [] (fun members value => SortedList.insertMember compare value members) id

/-- The map of the entries, in ascending order of keys.  The last value of a key counts. -/
def toMap [Monad m] (compare : κ → κ → Ordering) : Collector m (κ × ν) (List (κ × ν)) :=
  ofFold [] (fun entries entry => SortedList.insertEntry compare entry.1 entry.2 entries) id

end Collector

end RecursiveDescent
