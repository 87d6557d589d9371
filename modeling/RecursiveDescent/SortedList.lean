/-!
# Sets and finite maps as sorted lists

A set is a list of members in strictly ascending order, and a finite map a list of entries whose
keys are in strictly ascending order.  Inserting keeps the order, so there are no duplicates and
two sets with the same members are the same list.
-/

namespace RecursiveDescent

namespace SortedList

variable {α κ ν : Type}

def insertMember (compare : α → α → Ordering) (member : α) : List α → List α
  | [] => [member]
  | first :: rest =>
    match compare member first with
    | .lt => member :: first :: rest
    | .eq => first :: rest
    | .gt => first :: insertMember compare member rest

/-- Gives a key its value in a map, in place of the value that it had. -/
def insertEntry (compare : κ → κ → Ordering) (key : κ) (value : ν) :
    List (κ × ν) → List (κ × ν)
  | [] => [(key, value)]
  | (first, kept) :: rest =>
    match compare key first with
    | .lt => (key, value) :: (first, kept) :: rest
    | .eq => (first, value) :: rest
    | .gt => (first, kept) :: insertEntry compare key value rest

end SortedList

end RecursiveDescent
