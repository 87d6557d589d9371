import RecursiveDescent.MisuseError

/-!
# Outcomes of a parse attempt

An attempt either matches, consuming a number of elements and yielding a value, or fails without
further detail.  The accessors that make no sense for a failure answer with a `MisuseError`; the
views `parts` and `value?` answer with an option instead, and `parts` loses nothing.
-/

namespace RecursiveDescent

/-- What an attempt to match at some position comes to. -/
inductive Outcome (α : Type) where
  /-- The parser matched `consumed` elements and yields `value`. -/
  | success (consumed : Nat) (value : α)
  /-- The parser did not match. -/
  | failure
  deriving DecidableEq

namespace Outcome

variable {α β γ : Type}

def isSuccess : Outcome α → Bool
  | .success _ _ => true
  | .failure => false

def isFailure (outcome : Outcome α) : Bool :=
  !outcome.isSuccess

/-- The number of consumed elements, which a failure does not have. -/
def consumed : Outcome α → Except MisuseError Nat
  | .success consumed _ => .ok consumed
  | .failure => .error (.failureAccess "consumed")

/-- The value, which a failure does not have. -/
def value : Outcome α → Except MisuseError α
  | .success _ value => .ok value
  | .failure => .error (.failureAccess "value")

/-- A success as a pair of its two parts. -/
def parts : Outcome α → Option (Nat × α)
  | .success consumed value => some (consumed, value)
  | .failure => none

def ofParts : Option (Nat × α) → Outcome α
  | some (consumed, value) => .success consumed value
  | none => .failure

/-- The value of a success, if it is one. -/
def value? (outcome : Outcome α) : Option α :=
  outcome.parts.map Prod.snd

/-- How far a following parser starts behind the start of this attempt: nowhere after a failure. -/
def advance : Outcome α → Nat
  | .success consumed _ => consumed
  | .failure => 0

def map (function : α → β) : Outcome α → Outcome β
  | .success consumed value => .success consumed (function value)
  | .failure => .failure

/-- Transforms the value of a success, which becomes a failure when there is no new value. -/
def filterMap (function : α → Option β) : Outcome α → Outcome β
  | .success consumed value => ofParts ((function value).map fun result => (consumed, result))
  | .failure => .failure

/-- Adds `offset` elements to those that a success consumed. -/
def advancedBy (offset : Nat) : Outcome α → Outcome α
  | .success consumed value => .success (consumed + offset) value
  | .failure => .failure

@[simp] theorem ofParts_parts (outcome : Outcome α) : ofParts outcome.parts = outcome := by
  cases outcome <;> rfl

@[simp] theorem parts_ofParts (parts : Option (Nat × α)) : (ofParts parts).parts = parts := by
  cases parts <;> rfl

@[simp] theorem map_success (function : α → β) (consumed : Nat) (value : α) :
    (success consumed value).map function = success consumed (function value) := rfl

@[simp] theorem map_failure (function : α → β) :
    (failure : Outcome α).map function = failure := rfl

theorem map_map (second : β → γ) (first : α → β) (outcome : Outcome α) :
    (outcome.map first).map second = outcome.map (second ∘ first) := by
  cases outcome <;> rfl

@[simp] theorem isFailure_iff (outcome : Outcome α) :
    outcome.isFailure = true ↔ outcome = failure := by
  cases outcome <;> simp [isFailure, isSuccess]

@[simp] theorem advancedBy_zero (outcome : Outcome α) : outcome.advancedBy 0 = outcome := by
  cases outcome <;> rfl

end Outcome

end RecursiveDescent
