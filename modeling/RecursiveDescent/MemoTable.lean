import Std.Data.HashMap

/-!
# Memo tables

A memo table remembers the matches of one parser by the position at which they start, and counts
how often it could answer.  Failures are not remembered.  A position has at most one entry, and
the table does not know which source its entries were computed on.
-/

namespace RecursiveDescent

/-- The remembered matches of one parser, as width and value by position. -/
structure MemoTable (ν : Type) where
  entries : Std.HashMap Nat (Nat × ν) := {}
  /-- Invocations answered from the table. -/
  hits : Nat := 0
  /-- Invocations that the table could not answer. -/
  misses : Nat := 0

namespace MemoTable

variable {ν : Type}

/-- The table of a parser that was never invoked. -/
def empty : MemoTable ν :=
  {}

/-- The match remembered at a position. -/
def lookup? (table : MemoTable ν) (position : Nat) : Option (Nat × ν) :=
  table.entries[position]?

/-- Counts an answer. -/
def countHit (table : MemoTable ν) : MemoTable ν :=
  { table with hits := table.hits + 1 }

/-- Counts an invocation without an answer. -/
def countMiss (table : MemoTable ν) : MemoTable ν :=
  { table with misses := table.misses + 1 }

/-- Remembers a match, in place of an earlier one at the same position. -/
def remember (table : MemoTable ν) (position consumed : Nat) (value : ν) : MemoTable ν :=
  { table with entries := table.entries.insert position (consumed, value) }

def size (table : MemoTable ν) : Nat :=
  table.entries.size

@[simp] theorem lookup?_empty (position : Nat) :
    (empty : MemoTable ν).lookup? position = none := by
  simp [empty, lookup?]

@[simp] theorem lookup?_countHit (table : MemoTable ν) (position : Nat) :
    table.countHit.lookup? position = table.lookup? position := rfl

@[simp] theorem lookup?_countMiss (table : MemoTable ν) (position : Nat) :
    table.countMiss.lookup? position = table.lookup? position := rfl

theorem lookup?_remember (table : MemoTable ν) (position consumed : Nat) (value : ν)
    (query : Nat) :
    (table.remember position consumed value).lookup? query =
      if position = query then some (consumed, value) else table.lookup? query := by
  simp [remember, lookup?, Std.HashMap.getElem?_insert]

theorem size_remember (table : MemoTable ν) (position consumed : Nat) (value : ν) :
    (table.remember position consumed value).size =
      if (table.lookup? position).isSome then table.size else table.size + 1 := by
  simp [remember, size, lookup?, Std.HashMap.size_insert]

end MemoTable

end RecursiveDescent
