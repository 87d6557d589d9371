import RecursiveDescent.Proofs.Consumption
import RecursiveDescent.Proofs.Projection
import RecursiveDescent.Proofs.SoundTables
import Mathlib.Logic.Function.Basic

/-!
# Keeping count of the use of memo tables

An observed state carries, beside the memo tables, an account of how each of them was used since
it was empty: how often its parser was invoked, at which positions the parser inside completed
with a match, and how often a match was inserted where there was one already.  Whenever a table
changes, the table and its account are put on record, so that a whole run can be spoken of and
also the tables that belong to a single attempt.

Forgetting the accounts turns a run on observed states into an ordinary run, so the accounts tell
what ordinary runs do.
-/

namespace RecursiveDescent

variable {ε ν : Type}

/-- How a memo table was used since it was empty. -/
structure TableUse where
  /-- Invocations of the memoized parser. -/
  invocations : Nat := 0
  /-- Where the parser inside has completed with a match, the last position first. -/
  completions : List Nat := []
  /-- Insertions at a position that had an entry. -/
  replacements : Nat := 0

namespace TableUse

def invoked (use : TableUse) : TableUse :=
  { use with invocations := use.invocations + 1 }

/-- The parser inside has completed with a match, which goes into the table. -/
def completed (use : TableUse) (position : Nat) (occupied : Bool) : TableUse :=
  { use with
    completions := position :: use.completions
    replacements := if occupied then use.replacements + 1 else use.replacements }

end TableUse

/-- A memo table and how it was used. -/
structure UsedTable (ν : Type) where
  table : MemoTable ν
  use : TableUse

/-- A state, and how its memo tables were used. -/
structure ObservedState (ν : Type) where
  state : ParserState ν
  /-- The use of the table in each cell. -/
  uses : Nat → TableUse
  /-- The tables as they were after each change, the latest first. -/
  seen : List (UsedTable ν)

namespace ObservedState

/-- The beginning of an observation. -/
def ofState (state : ParserState ν) : ObservedState ν where
  state := state
  uses _ := {}
  seen := []

def used (observed : ObservedState ν) (cell : Nat) : UsedTable ν where
  table := observed.state.table cell
  use := observed.uses cell

def record (event : Event ν) (observed : ObservedState ν) : ObservedState ν :=
  { observed with state := observed.state.record event }

/-- The table in a cell has changed with the state, and its use with it. -/
def changing (cell : Nat) (state : ParserState ν) (use : TableUse) (observed : ObservedState ν) :
    ObservedState ν where
  state := state
  uses := Function.update observed.uses cell use
  seen := ⟨state.table cell, use⟩ :: observed.seen

def answered (cell start width : Nat) (observed : ObservedState ν) : ObservedState ν :=
  observed.changing cell (observed.state.answered cell start width)
    (observed.uses cell).invoked

def missed (cell start : Nat) (observed : ObservedState ν) : ObservedState ν :=
  observed.changing cell (observed.state.missed cell start) (observed.uses cell).invoked

def remembering (cell start : Nat) (outcome : Outcome ν) (observed : ObservedState ν) :
    ObservedState ν :=
  match outcome with
  | .success width value =>
      observed.changing cell (observed.state.remembering cell start (.success width value))
        ((observed.uses cell).completed start ((observed.state.table cell).lookup? start).isSome)
  | .failure => observed

/-- The tables in some cells are empty and unused. -/
def cleared (cells : List Nat) (observed : ObservedState ν) : ObservedState ν :=
  { observed with
    state := observed.state.cleared cells
    uses := fun cell => if cell ∈ cells then {} else observed.uses cell }

/-- The tables in some cells are those of a former state, and used as they were then. -/
def restored (cells : List Nat) (former observed : ObservedState ν) : ObservedState ν :=
  { observed with
    state := ParserState.restored cells former.state observed.state
    uses := fun cell => if cell ∈ cells then former.uses cell else observed.uses cell }

/-! ### The table in a cell and its use -/

theorem used_changing_same (observed : ObservedState ν) (cell : Nat) (state : ParserState ν)
    (use : TableUse) :
    (observed.changing cell state use).used cell = ⟨state.table cell, use⟩ := by
  simp [used, changing]

theorem used_changing_other (observed : ObservedState ν) {cell other : Nat}
    {state : ParserState ν} (use : TableUse) (different : cell ≠ other)
    (same : state.table other = observed.state.table other) :
    (observed.changing cell state use).used other = observed.used other := by
  simp [used, changing, same, Function.update_of_ne different.symm]

theorem used_cleared (observed : ObservedState ν) (cells : List Nat) (cell : Nat) :
    (observed.cleared cells).used cell =
      if cell ∈ cells then ⟨.empty, {}⟩ else observed.used cell := by
  by_cases fresh : cell ∈ cells <;> simp [used, cleared, ParserState.table_cleared, fresh]

theorem used_restored (former observed : ObservedState ν) (cells : List Nat) (cell : Nat) :
    (restored cells former observed).used cell =
      if cell ∈ cells then former.used cell else observed.used cell := by
  by_cases fresh : cell ∈ cells <;> simp [used, restored, ParserState.table_restored, fresh]

end ObservedState

namespace Engine

/-- The engine whose states keep an account of the use of memo tables. -/
def observing : Engine (ObservedState ν) ε ν where
  record := ObservedState.record
  memoized cell inner source start := fun observed =>
    match (observed.state.table cell).lookup? start with
    | some (width, value) => some (.success width value, observed.answered cell start width)
    | none =>
        (inner source start (observed.missed cell start)).map fun result =>
          (result.1, result.2.remembering cell start result.1)
  withFreshTables cells inner source start := fun observed =>
    (inner source start (observed.cleared cells)).map fun result =>
      (result.1, ObservedState.restored cells observed result.2)

/-- Forgetting the accounts turns observed runs into runs. -/
def observingProjection : Projection (observing : Engine (ObservedState ν) ε ν) tables where
  view := ObservedState.state
  record _ _ := rfl
  memoized := by
    intro cell first second projects source start observed
    cases found : (observed.state.table cell).lookup? start with
    | some entry =>
        have answer := Parser.memoized_of_remembered cell second source start observed.state found
        simp only [observing, found]
        exact answer
    | none =>
        have opened := Parser.memoized_of_forgotten cell second source start observed.state found
        have inside := projects source start (observed.missed cell start)
        simp only [observing, found]
        refine opened.trans ?_
        have missed : observed.state.missed cell start = (observed.missed cell start).state := rfl
        rw [missed, inside]
        cases first source start (observed.missed cell start) with
        | none => rfl
        | some result =>
            obtain ⟨outcome, final⟩ := result
            cases outcome <;> rfl
  withFreshTables := by
    intro cells first second projects source start observed
    have opened := Parser.withFreshTables_apply cells second source start observed.state
    have inside := projects source start (observed.cleared cells)
    refine opened.trans ?_
    have cleared : observed.state.cleared cells = (observed.cleared cells).state := rfl
    rw [cleared, inside]
    simp only [observing, Option.map_map]
    rfl

end Engine

end RecursiveDescent
