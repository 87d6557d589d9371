import RecursiveDescent.Emission
import RecursiveDescent.Event
import RecursiveDescent.MemoTable

/-!
# The state that a grammar threads

A grammar keeps memo tables, named by the number of their cell, and a journal of events.  Two
memoized parsers with the same cell share one table.  A cell that was never used holds an empty
table.
-/

namespace RecursiveDescent

/-- Memo tables by cell, and the journal with its newest event first. -/
structure ParserState (ν : Type) where
  tables : Std.HashMap Nat (MemoTable ν) := {}
  journal : List (Event ν) := []

namespace ParserState

variable {ν α : Type}

def initial : ParserState ν :=
  {}

def table (state : ParserState ν) (cell : Nat) : MemoTable ν :=
  state.tables.getD cell .empty

def updateTable (cell : Nat) (change : MemoTable ν → MemoTable ν) (state : ParserState ν) :
    ParserState ν :=
  { state with
    tables := state.tables.alter cell fun held => some (change (held.getD .empty)) }

def setTable (cell : Nat) (table : MemoTable ν) (state : ParserState ν) : ParserState ν :=
  { state with tables := state.tables.insert cell table }

/-- Empties a cell, also of its counts. -/
def clearTable (cell : Nat) (state : ParserState ν) : ParserState ν :=
  state.setTable cell .empty

/-- Enters an event into the journal. -/
def record (event : Event ν) (state : ParserState ν) : ParserState ν :=
  { state with journal := event :: state.journal }

def log (logged : LogRecord) (state : ParserState ν) : ParserState ν :=
  state.record (.logged logged)

/-- Enters the notices of an emission into the journal, in their order. -/
def absorb (emission : Emission (Event ν) α) : StateM (ParserState ν) α := fun state =>
  (emission.value, emission.emitted.foldl (fun state event => state.record event) state)

/-- The events so far, oldest first. -/
def events (state : ParserState ν) : List (Event ν) :=
  state.journal.reverse

/-- The same tables with an empty journal. -/
def withoutEvents (state : ParserState ν) : ParserState ν :=
  { state with journal := [] }

@[simp] theorem table_initial (cell : Nat) : (initial : ParserState ν).table cell = .empty := by
  simp [initial, table]

theorem table_setTable (state : ParserState ν) (cell other : Nat) (table : MemoTable ν) :
    (state.setTable cell table).table other =
      if cell = other then table else state.table other := by
  simp [setTable, ParserState.table, Std.HashMap.getD_insert]

theorem table_updateTable (state : ParserState ν) (cell other : Nat)
    (change : MemoTable ν → MemoTable ν) :
    (state.updateTable cell change).table other =
      if cell = other then change (state.table cell) else state.table other := by
  by_cases same : cell = other <;>
    simp [updateTable, table, Std.HashMap.getElem?_alter, same,
      Std.HashMap.getD_eq_getD_getElem?]

@[simp] theorem table_record (state : ParserState ν) (event : Event ν) (cell : Nat) :
    (state.record event).table cell = state.table cell := rfl

@[simp] theorem journal_record (state : ParserState ν) (event : Event ν) :
    (state.record event).journal = event :: state.journal := rfl

@[simp] theorem journal_setTable (state : ParserState ν) (cell : Nat) (table : MemoTable ν) :
    (state.setTable cell table).journal = state.journal := rfl

@[simp] theorem journal_updateTable (state : ParserState ν) (cell : Nat)
    (change : MemoTable ν → MemoTable ν) :
    (state.updateTable cell change).journal = state.journal := rfl

end ParserState

end RecursiveDescent
