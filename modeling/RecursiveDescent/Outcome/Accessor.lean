import RecursiveDescent.Answer

/-!
# Asking an outcome for its parts

The questions that a user can put to the outcome of a parse, and the answers to them.
-/

namespace RecursiveDescent

/-- A question to an outcome. -/
inductive OutcomeAccessor where
  /-- The outcome itself. -/
  | outcome
  /-- The outcome put together again from its parts. -/
  | reassembled
  /-- The outcome with its value transformed. -/
  | mapped (function : Value → Value)
  /-- Whether it is a success. -/
  | isSuccess
  /-- Whether it is a failure. -/
  | isFailure
  /-- How many elements were consumed. -/
  | consumed
  /-- The value. -/
  | value
  /-- Both parts, if it is a success. -/
  | parts
  /-- The value, if it is a success. -/
  | optionalValue

namespace OutcomeAccessor

def answer (outcome : Outcome Value) : OutcomeAccessor → Except MisuseError Answer
  | .outcome => .ok (.outcome outcome)
  | .reassembled => .ok (.outcome (Outcome.ofParts outcome.parts))
  | .mapped function => .ok (.outcome (outcome.map function))
  | .isSuccess => .ok (.truth outcome.isSuccess)
  | .isFailure => .ok (.truth outcome.isFailure)
  | .consumed => outcome.consumed.map fun consumed => .value (Value.ofNat consumed)
  | .value => outcome.value.map Answer.value
  | .parts =>
    let pair? := outcome.parts.map fun parts => Value.pair (Value.ofNat parts.1) parts.2
    .ok (.value (Value.ofOption pair?))
  | .optionalValue => .ok (.value (Value.ofOption outcome.value?))

end OutcomeAccessor

end RecursiveDescent
