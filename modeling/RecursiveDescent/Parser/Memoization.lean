import RecursiveDescent.Parser
import RecursiveDescent.ParserState

/-!
# Memoized parsers

A memoized parser looks into its memo table first.  A match that is remembered there is the
answer, whatever the source; otherwise the parser inside is attempted and its match, if any, is
remembered.  The look-up is over before the attempt starts, so the attempt may come back to the
same table.

`withFreshTables` runs a parser on empty tables of its own and gives the tables back afterwards.
It stands for a parser that is built anew for every attempt.
-/

namespace RecursiveDescent

namespace Parser

variable {ε ν α : Type}

/-- Answers from the memo table in `cell` when it can, and fills it otherwise. -/
def memoized (cell : Nat) (inner : Parser (ParserState ν) ε ν) : Parser (ParserState ν) ε ν :=
  fun source start => do
    let remembered := ((← get).table cell).lookup? start
    match remembered with
    | some (consumed, value) =>
      modify fun state =>
        (state.updateTable cell MemoTable.countHit).log (.memoHit cell start consumed)
      return .success consumed value
    | none =>
      modify fun state =>
        (state.updateTable cell MemoTable.countMiss).log (.memoMiss cell start)
      let outcome ← inner source start
      modify fun state =>
        match outcome with
        | .success consumed value =>
          state.updateTable cell fun table => table.remember start consumed value
        | .failure => state
      return outcome

/-- Runs `inner` with the given cells empty, and puts their former tables back when it is done. -/
def withFreshTables (cells : List Nat) (inner : Parser (ParserState ν) ε α) :
    Parser (ParserState ν) ε α := fun source start => do
  let former := cells.map (← get).table
  modify fun state => cells.foldl (fun state cell => state.clearTable cell) state
  let outcome ← inner source start
  modify fun state =>
    (cells.zip former).foldl (fun state held => state.setTable held.1 held.2) state
  return outcome

end Parser

end RecursiveDescent
