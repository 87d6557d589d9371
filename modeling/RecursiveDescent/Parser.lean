import RecursiveDescent.Outcome
import RecursiveDescent.Window

/-!
# Parsers and their basic combinators

A parser attempts to match a source at a position.  It threads a state, in which it may leave
effects, and answers with an outcome.  An attempt may also be given up unfinished, because the
steps allotted to it did not suffice; an attempt that would never end is unfinished for every
allotment.

Failure is an ordinary outcome.  It passes unchanged through a sequence, while a choice, an
optional parser and the two lookaheads turn it into something else.
-/

namespace RecursiveDescent

/-- A computation with effects on a state, unfinished when its steps ran out. -/
abbrev Attempt (σ : Type) : Type → Type :=
  StateT σ Option

namespace Attempt

variable {σ α : Type}

/-- The attempt whose steps have run out. -/
def unfinished : Attempt σ α :=
  fun _ => none

/-- An effect on the state always finishes. -/
def ofEffect (effect : StateM σ α) : Attempt σ α :=
  fun state => some (effect state)

end Attempt

/-- A parser takes a source and the position at which it is to match. -/
abbrev Parser (σ ε α : Type) : Type :=
  Array ε → Nat → Attempt σ (Outcome α)

namespace Parser

variable {σ ε α β γ : Type}

/-- Matches one element that passes `test`. -/
def element (test : ε → Bool) (value : ε → α) : Parser σ ε α := fun source start =>
  match source[start]? with
  | some found => if test found then return .success 1 (value found) else return .failure
  | none => return .failure

/-- Matches exactly the elements of `expected`. -/
def literal [DecidableEq ε] (expected : List ε) (value : α) : Parser σ ε α := fun source start =>
  if window source start expected.length = some expected then
    return .success expected.length value
  else
    return .failure

/-- Matches `width` elements that `read` makes sense of. -/
def fixedWidth (width : Nat) (read : List ε → Option α) : Parser σ ε α := fun source start =>
  match (window source start width).bind read with
  | some value => return .success width value
  | none => return .failure

/-- Matches nothing, anywhere. -/
def succeed (value : α) : Parser σ ε α := fun _ _ =>
  return .success 0 value

def fail : Parser σ ε α := fun _ _ =>
  return .failure

/-- Matches where no element remains, also past the end. -/
def endOfInput (value : α) : Parser σ ε α := fun source start =>
  if source.size ≤ start then return .success 0 value else return .failure

def ofFunction (function : Array ε → Nat → Outcome α) : Parser σ ε α := fun source start =>
  return function source start

/-! ### Sequence and choice -/

/-- Matches `first` and then `second` where `first` ended. -/
def sequence (first : Parser σ ε α) (second : Parser σ ε β) (combine : α → β → γ) :
    Parser σ ε γ := fun source start => do
  match ← first source start with
  | .failure => return .failure
  | .success width value =>
    match ← second source (start + width) with
    | .failure => return .failure
    | .success nextWidth nextValue =>
      return .success (width + nextWidth) (combine value nextValue)

/-- Matches `first`, or else `second` at the same position. -/
def choice (first second : Parser σ ε α) : Parser σ ε α := fun source start => do
  match ← first source start with
  | .failure => second source start
  | .success width value => return .success width value

/-- Matches `inner`, or else nothing with the value `fallback`. -/
def optional (inner : Parser σ ε α) (fallback : α) : Parser σ ε α := fun source start => do
  match ← inner source start with
  | .failure => return .success 0 fallback
  | .success width value => return .success width value

/-! ### Lookahead -/

/-- Matches nothing where `inner` matches, and yields its value. -/
def ahead (inner : Parser σ ε α) : Parser σ ε α := fun source start => do
  match ← inner source start with
  | .failure => return .failure
  | .success _ value => return .success 0 value

/-- Matches nothing where `inner` does not match. -/
def notAhead (inner : Parser σ ε α) (value : β) : Parser σ ε β := fun source start => do
  match ← inner source start with
  | .failure => return .success 0 value
  | .success _ _ => return .failure

/-! ### Dependence on outcomes and values -/

/-- Runs `first` and lets its outcome choose the parser that goes on.  After a failure that
parser starts at the same position. -/
def bind (first : Parser σ ε α) (binder : Outcome α → Parser σ ε β) :
    Parser σ ε β := fun source start => do
  let outcome ← first source start
  let result ← binder outcome source (start + outcome.advance)
  return result.advancedBy outcome.advance

def map (inner : Parser σ ε α) (function : α → β) : Parser σ ε β := fun source start => do
  let outcome ← inner source start
  return outcome.map function

/-- Transforms the value, and fails when there is no new value. -/
def tryMap (inner : Parser σ ε α) (function : α → Option β) : Parser σ ε β :=
  fun source start => do
    let outcome ← inner source start
    return outcome.filterMap function

def filter (inner : Parser σ ε α) (accepts : α → Bool) : Parser σ ε α := fun source start => do
  match ← inner source start with
  | .failure => return .failure
  | .success width value =>
    if accepts value then return .success width value else return .failure

/-- Yields what is read from the elements that `inner` consumed, instead of its value.  Fails when
these elements do not all lie inside the source. -/
def recognize (inner : Parser σ ε α) (read : List ε → β) : Parser σ ε β := fun source start => do
  match ← inner source start with
  | .failure => return .failure
  | .success width _ =>
    match window source start width with
    | some text => return .success width (read text)
    | none => return .failure

end Parser

end RecursiveDescent
