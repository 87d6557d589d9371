/-!
# Collectors

A collector says how the values of a repetition are gathered into one result: it supplies an
accumulator, accumulates one value after another, and finishes the accumulator into the result.
Each of the three steps may have effects in a monad `m`, so that gathering can be observed; a
collector without effects works in every monad.

The second half of the file adapts collectors: `mapInput` transforms the values on their way in,
`andThen` the result on its way out, and `accept` counts a given value as the first one.
-/

namespace RecursiveDescent

/-- How values of type `α` are gathered into a result of type `β`. -/
structure Collector (m : Type → Type) (α β : Type) : Type 1 where
  /-- What is kept while values are gathered. -/
  Accumulator : Type
  /-- A fresh accumulator. -/
  supply : m Accumulator
  /-- Takes one more value in. -/
  accumulate : Accumulator → α → m Accumulator
  /-- Turns the accumulator into the result. -/
  finish : Accumulator → m β

namespace Collector

variable {m n : Type → Type} {α β γ κ : Type}

/-- Gathers a list of values in order. -/
def fold [Monad m] (collector : Collector m α β) (values : List α) : m β := do
  let initial ← collector.supply
  let final ← values.foldlM collector.accumulate initial
  collector.finish final

/-- The collector without effects that starts from `initial`, takes each value in by `step` and
ends with `result`. -/
def ofFold [Monad m] (initial : γ) (step : γ → α → γ) (result : γ → β) : Collector m α β where
  Accumulator := γ
  supply := pure initial
  accumulate accumulator value := pure (step accumulator value)
  finish accumulator := pure (result accumulator)

/-! ### Adapters -/

/-- Passes every value through `function` before it is taken in. -/
def mapInput (function : γ → α) (collector : Collector m α β) : Collector m γ β where
  Accumulator := collector.Accumulator
  supply := collector.supply
  accumulate accumulator value := collector.accumulate accumulator (function value)
  finish := collector.finish

def andThen [Monad m] (collector : Collector m α β) (function : β → γ) : Collector m α γ where
  Accumulator := collector.Accumulator
  supply := collector.supply
  accumulate := collector.accumulate
  finish accumulator := do
    let result ← collector.finish accumulator
    return function result

/-- Takes `initial` in before any other value. -/
def accept [Monad m] (collector : Collector m α β) (initial : α) : Collector m α β where
  Accumulator := collector.Accumulator
  supply := do
    let accumulator ← collector.supply
    collector.accumulate accumulator initial
  accumulate := collector.accumulate
  finish := collector.finish

/-- Announces each of the three steps before it happens. -/
def announcing [Monad m] (onSupply : m Unit) (onAccumulate : α → m Unit) (onFinish : m Unit)
    (collector : Collector m α β) : Collector m α β where
  Accumulator := collector.Accumulator
  supply := do
    onSupply
    collector.supply
  accumulate accumulator value := do
    onAccumulate value
    collector.accumulate accumulator value
  finish accumulator := do
    onFinish
    collector.finish accumulator

/-- Carries the effects of a collector over into another monad. -/
def transport (embed : {δ : Type} → m δ → n δ) (collector : Collector m α β) :
    Collector n α β where
  Accumulator := collector.Accumulator
  supply := embed collector.supply
  accumulate accumulator value := embed (collector.accumulate accumulator value)
  finish accumulator := embed (collector.finish accumulator)

/-! ### Ready-made collectors -/

def toList [Monad m] : Collector m α (List α) :=
  ofFold #[] Array.push Array.toList

def counting [Monad m] : Collector m α Nat :=
  ofFold 0 (fun count _ => count + 1) id

def discarding [Monad m] : Collector m α Unit :=
  ofFold () (fun _ _ => ()) id

/-- Folds the values from the left, starting with `identity`. -/
def aggregate [Monad m] (identity : β) (operation : β → α → β) : Collector m α β :=
  ofFold identity operation id

/-- The displays of all values, one behind the other. -/
def stringify [Monad m] (display : α → String) : Collector m α String :=
  ofFold "" (fun text value => text ++ display value) id

/-- The earliest value that no other is smaller than; nothing for no values.  A later value takes
over only when it compares as smaller. -/
def minBy [Monad m] (compare : α → α → Ordering) : Collector m α (Option α) :=
  ofFold none
    (fun best value =>
      match best with
      | some kept => if compare value kept = .lt then some value else some kept
      | none => some value)
    id

/-- The earliest value that no other is greater than; nothing for no values.  A later value takes
over only when it compares as greater. -/
def maxBy [Monad m] (compare : α → α → Ordering) : Collector m α (Option α) :=
  ofFold none
    (fun best value =>
      match best with
      | some kept => if compare value kept = .gt then some value else some kept
      | none => some value)
    id

end Collector

end RecursiveDescent
