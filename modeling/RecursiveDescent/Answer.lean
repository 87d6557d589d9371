import RecursiveDescent.Outcome
import RecursiveDescent.Statistics
import RecursiveDescent.Value

/-!
# Answers

What a session tells its user about an outcome, a rule or a memo table.
-/

namespace RecursiveDescent

inductive Answer where
  /-- The request was carried out and there is nothing to tell. -/
  | done
  | truth (holds : Bool)
  | outcome (outcome : Outcome Value)
  | value (value : Value)
  | statistics (statistics : Statistics)
  | text (text : String)

end RecursiveDescent
