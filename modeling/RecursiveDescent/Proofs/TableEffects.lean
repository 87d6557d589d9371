import RecursiveDescent.Parser.Memoization
import RecursiveDescent.Proofs.NormalForm

/-!
# Effects on memo tables

What a memoized parser does to the state has three parts: an answer is counted, a miss is
counted, and an outcome is remembered.  Running a parser on fresh tables clears cells and later
puts their former tables back.  This file names these five changes, says what they do to the
table in a cell, and writes both parsers in terms of them.
-/

namespace RecursiveDescent

variable {ε ν α : Type}

namespace ParserState

def answered (cell start width : Nat) (state : ParserState ν) : ParserState ν :=
  (state.updateTable cell MemoTable.countHit).log (.memoHit cell start width)

def missed (cell start : Nat) (state : ParserState ν) : ParserState ν :=
  (state.updateTable cell MemoTable.countMiss).log (.memoMiss cell start)

/-- A match is remembered in a cell, a failure is not. -/
def remembering (cell start : Nat) (outcome : Outcome ν) (state : ParserState ν) :
    ParserState ν :=
  match outcome with
  | .success width value =>
      state.updateTable cell fun table => table.remember start width value
  | .failure => state

def cleared (cells : List Nat) (state : ParserState ν) : ParserState ν :=
  cells.foldl (fun state cell => state.clearTable cell) state

/-- The tables in some cells are those of a former state. -/
def restored (cells : List Nat) (former state : ParserState ν) : ParserState ν :=
  (cells.zip (cells.map former.table)).foldl (fun state held => state.setTable held.1 held.2)
    state

/-! ### The table in a cell -/

theorem table_answered (state : ParserState ν) (cell start width other : Nat) :
    (state.answered cell start width).table other =
      if cell = other then (state.table cell).countHit else state.table other :=
  state.table_updateTable cell other MemoTable.countHit

theorem table_missed (state : ParserState ν) (cell start other : Nat) :
    (state.missed cell start).table other =
      if cell = other then (state.table cell).countMiss else state.table other :=
  state.table_updateTable cell other MemoTable.countMiss

theorem table_remembering_success (state : ParserState ν) (cell start width other : Nat)
    (value : ν) :
    (state.remembering cell start (.success width value)).table other =
      if cell = other then (state.table cell).remember start width value
      else state.table other :=
  state.table_updateTable cell other _

@[simp]
theorem remembering_failure (state : ParserState ν) (cell start : Nat) :
    state.remembering cell start .failure = state :=
  rfl

theorem table_cleared (state : ParserState ν) (cells : List Nat) (cell : Nat) :
    (state.cleared cells).table cell = if cell ∈ cells then .empty else state.table cell := by
  induction cells generalizing state with
  | nil => simp [cleared]
  | cons first rest induction =>
      have later := induction (state.clearTable first)
      unfold cleared at later ⊢
      rw [List.foldl_cons, later, clearTable, table_setTable]
      by_cases same : first = cell
      · simp [same]
      · have other : ¬ cell = first := fun equal => same equal.symm
        simp [same, other]

theorem table_restored (former state : ParserState ν) (cells : List Nat) (cell : Nat) :
    (restored cells former state).table cell =
      if cell ∈ cells then former.table cell else state.table cell := by
  induction cells generalizing state with
  | nil => simp [restored]
  | cons first rest induction =>
      have later := induction (state.setTable first (former.table first))
      unfold restored at later ⊢
      rw [List.map_cons, List.zip_cons_cons, List.foldl_cons, later, table_setTable]
      by_cases same : first = cell
      · simp [same]
      · have other : ¬ cell = first := fun equal => same equal.symm
        simp [same, other]

/-! ### Remembered matches -/

theorem lookup?_answered (state : ParserState ν) (cell start width other position : Nat) :
    ((state.answered cell start width).table other).lookup? position =
      (state.table other).lookup? position := by
  rw [table_answered]
  by_cases same : cell = other
  · simp [same]
  · simp [same]

theorem lookup?_missed (state : ParserState ν) (cell start other position : Nat) :
    ((state.missed cell start).table other).lookup? position =
      (state.table other).lookup? position := by
  rw [table_missed]
  by_cases same : cell = other
  · simp [same]
  · simp [same]

theorem lookup?_remembering_success (state : ParserState ν)
    (cell start width other position : Nat) (value : ν) :
    ((state.remembering cell start (.success width value)).table other).lookup? position =
      if cell = other ∧ start = position then some (width, value)
      else (state.table other).lookup? position := by
  rw [table_remembering_success]
  by_cases same : cell = other
  · by_cases here : start = position <;> simp [same, here, MemoTable.lookup?_remember]
  · simp [same]

/-! ### The journal -/

@[simp]
theorem events_record (state : ParserState ν) (event : Event ν) :
    (state.record event).events = state.events ++ [event] := by
  simp [events]

@[simp]
theorem events_answered (state : ParserState ν) (cell start width : Nat) :
    (state.answered cell start width).events =
      state.events ++ [.logged (.memoHit cell start width)] := by
  simp [answered, log, events]

@[simp]
theorem events_missed (state : ParserState ν) (cell start : Nat) :
    (state.missed cell start).events = state.events ++ [.logged (.memoMiss cell start)] := by
  simp [missed, log, events]

@[simp]
theorem events_remembering (state : ParserState ν) (cell start : Nat) (outcome : Outcome ν) :
    (state.remembering cell start outcome).events = state.events := by
  cases outcome <;> rfl

theorem journal_foldl_of_unchanged {α : Type} {change : ParserState ν → α → ParserState ν}
    (unchanged : ∀ state item, (change state item).journal = state.journal) (items : List α)
    (state : ParserState ν) : (items.foldl change state).journal = state.journal := by
  induction items generalizing state with
  | nil => rfl
  | cons item items induction => rw [List.foldl_cons, induction, unchanged]

@[simp]
theorem events_cleared (state : ParserState ν) (cells : List Nat) :
    (state.cleared cells).events = state.events := by
  unfold events cleared
  rw [journal_foldl_of_unchanged]
  intro state cell
  rfl

@[simp]
theorem events_restored (former state : ParserState ν) (cells : List Nat) :
    (restored cells former state).events = state.events := by
  unfold events restored
  rw [journal_foldl_of_unchanged]
  intro state held
  rfl

end ParserState

/-! ### The two parsers -/

namespace Parser

theorem memoized_of_remembered (cell : Nat) (inner : Parser (ParserState ν) ε ν)
    (source : Array ε) (start : Nat) (state : ParserState ν) {width : Nat} {value : ν}
    (remembered : (state.table cell).lookup? start = some (width, value)) :
    Parser.memoized cell inner source start state =
      some (.success width value, state.answered cell start width) := by
  unfold Parser.memoized
  rw [Attempt.bind_apply, Attempt.get_apply, Option.bind_some, remembered]
  rfl

theorem memoized_of_forgotten (cell : Nat) (inner : Parser (ParserState ν) ε ν)
    (source : Array ε) (start : Nat) (state : ParserState ν)
    (forgotten : (state.table cell).lookup? start = none) :
    Parser.memoized cell inner source start state =
      (inner source start (state.missed cell start)).map fun result =>
        (result.1, result.2.remembering cell start result.1) := by
  unfold Parser.memoized
  rw [Attempt.bind_apply, Attempt.get_apply, Option.bind_some, forgotten, Option.map_eq_bind]
  rfl

theorem withFreshTables_apply (cells : List Nat) (inner : Parser (ParserState ν) ε α)
    (source : Array ε) (start : Nat) (state : ParserState ν) :
    Parser.withFreshTables cells inner source start state =
      (inner source start (state.cleared cells)).map fun result =>
        (result.1, ParserState.restored cells state result.2) := by
  unfold Parser.withFreshTables
  rw [Option.map_eq_bind]
  rfl

end Parser

end RecursiveDescent
