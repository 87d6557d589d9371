/-!
# Events of a run

A run leaves a journal of events behind.  Hooks, announced collectors and deferred parsers write
entries under a tag of their own; the engine itself writes log records about traced parsers, memo
tables and forward declarations that are used too early.
-/

namespace RecursiveDescent

/-- What the engine logs. -/
inductive LogRecord where
  /-- A traced parser is about to be attempted in a source of the given size. -/
  | trying (name : String) (position size : Nat)
  /-- A traced parser matched. -/
  | matched (name : String) (consumed position : Nat)
  /-- A traced parser failed. -/
  | unmatched (name : String) (position : Nat)
  /-- The memo table in a cell answered. -/
  | memoHit (cell position consumed : Nat)
  /-- The memo table in a cell had no answer. -/
  | memoMiss (cell position : Nat)
  /-- A forward declaration was invoked before it had a definition. -/
  | undefinedRule (position : Nat)
  deriving DecidableEq

/-- The wording of a log record.  It does not tell the memo tables apart. -/
def LogRecord.text : LogRecord → String
  | .trying name position size => s!"{name}: trying at {position} of {size}"
  | .matched name consumed position => s!"{name}: matched {consumed} at {position}"
  | .unmatched name position => s!"{name}: failed at {position}"
  | .memoHit _ position consumed => s!"packrat hit at {position} (consumed {consumed})"
  | .memoMiss _ position => s!"packrat miss at {position}"
  | .undefinedRule position => s!"forward parser invoked at {position} before definition"

/-- An entry of the journal, about values of type `ν`. -/
inductive Event (ν : Type) where
  /-- A hooked parser is about to be attempted. -/
  | attempted (tag : String) (position : Nat)
  /-- A hooked parser matched. -/
  | succeeded (tag : String) (position consumed : Nat) (value : ν)
  /-- A hooked parser failed. -/
  | failed (tag : String) (position : Nat)
  /-- A deferred parser was looked up. -/
  | resolved (tag : String)
  /-- The definition of a recursive rule was evaluated. -/
  | expanded (tag : String)
  /-- An announced collector supplied an accumulator. -/
  | supplied (tag : String)
  /-- An announced collector took a value in. -/
  | accumulated (tag : String) (value : ν)
  /-- An announced collector finished. -/
  | finished (tag : String)
  /-- The engine logged something. -/
  | logged (record : LogRecord)
  deriving DecidableEq

end RecursiveDescent
