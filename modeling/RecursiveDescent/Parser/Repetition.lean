import RecursiveDescent.Collector
import RecursiveDescent.Parser
import RecursiveDescent.RepeatBounds

/-!
# Repetition and delimited lists

A repetition matches one parser as often as its bounds allow and gathers the values in a
collector.  A delimited list matches a first item and then pairs of a delimiter and an item.  All
three loops of this file are greedy: they stop at the first attempt that fails, or when the bounds
are exhausted, and never give a match back.  None of them guards against matches of width zero,
so a loop over such matches without a maximum never ends.

Each loop takes the number of rounds allotted to it and is unfinished when they run out.
-/

namespace RecursiveDescent

namespace Parser

variable {σ ε α β γ δ : Type}

/-! ### Repetition -/

/-- Closes a repetition after `count` matches of total width `width`: it fails when the minimum
was not reached, and otherwise finishes the collector. -/
def closeRepetition (collector : Collector (StateM σ) α β) (bounds : RepeatBounds)
    (count width : Nat) (accumulator : collector.Accumulator) : Attempt σ (Outcome β) :=
  if count < bounds.minimum then
    return .failure
  else do
    let result ← Attempt.ofEffect (collector.finish accumulator)
    return .success width result

/-- The loop of a repetition after `count` matches of total width `width`. -/
def repeatLoop (item : Parser σ ε α) (collector : Collector (StateM σ) α β)
    (bounds : RepeatBounds) (source : Array ε) (start : Nat) :
    (rounds count width : Nat) → collector.Accumulator → Attempt σ (Outcome β)
  | 0, _, _, _ => Attempt.unfinished
  | rounds + 1, count, width, accumulator =>
    if bounds.allowsMore count then do
      match ← item source (start + width) with
      | .success itemWidth value =>
        let accumulator ← Attempt.ofEffect (collector.accumulate accumulator value)
        repeatLoop item collector bounds source start rounds (count + 1) (width + itemWidth)
          accumulator
      | .failure => closeRepetition collector bounds count width accumulator
    else
      closeRepetition collector bounds count width accumulator

/-- Matches `item` as often as `bounds` allow and gathers its values. -/
def repeated (rounds : Nat) (item : Parser σ ε α) (collector : Collector (StateM σ) α β)
    (bounds : RepeatBounds) : Parser σ ε β := fun source start => do
  let accumulator ← Attempt.ofEffect collector.supply
  repeatLoop item collector bounds source start rounds 0 0 accumulator

/-! ### Delimited lists -/

/-- One delimiter and the item behind it: their total width and both values. -/
def delimitedPair (item : Parser σ ε α) (delimiter : Parser σ ε β) (source : Array ε)
    (start : Nat) : Attempt σ (Option (Nat × β × α)) := do
  match ← delimiter source start with
  | .failure => return none
  | .success delimiterWidth separator =>
    match ← item source (start + delimiterWidth) with
    | .failure => return none
    | .success itemWidth value => return some (delimiterWidth + itemWidth, separator, value)

/-- The loop of a delimited list that has matched `width` elements.  A pair enters the collector
as what `combine` makes of it. -/
def delimitedLoop (item : Parser σ ε α) (delimiter : Parser σ ε β) (combine : β → α → γ)
    (collector : Collector (StateM σ) γ δ) (source : Array ε) (start : Nat) :
    (rounds width : Nat) → collector.Accumulator → Attempt σ (Outcome δ)
  | 0, _, _ => Attempt.unfinished
  | rounds + 1, width, accumulator => do
    match ← delimitedPair item delimiter source (start + width) with
    | some (pairWidth, separator, value) =>
      let accumulator ←
        Attempt.ofEffect (collector.accumulate accumulator (combine separator value))
      delimitedLoop item delimiter combine collector source start rounds (width + pairWidth)
        accumulator
    | none =>
      let result ← Attempt.ofEffect (collector.finish accumulator)
      return .success width result

/-- Matches a first item, which chooses the collector, and then as many pairs of a delimiter and
an item as there are.  A delimiter without an item behind it is left unconsumed. -/
def delimited (rounds : Nat) (item : Parser σ ε α) (delimiter : Parser σ ε β)
    (combine : β → α → γ) (headCollector : α → Collector (StateM σ) γ δ) : Parser σ ε δ :=
  fun source start => do
    match ← item source start with
    | .failure => return .failure
    | .success width head =>
      let collector := headCollector head
      let accumulator ← Attempt.ofEffect collector.supply
      delimitedLoop item delimiter combine collector source start rounds width accumulator

/-- The loop of a separated list that has matched `width` elements. -/
def separatedLoop (item : Parser σ ε α) (delimiter : Parser σ ε β)
    (collector : Collector (StateM σ) α δ) (source : Array ε) (start : Nat) :
    (rounds width : Nat) → collector.Accumulator → Attempt σ (Outcome δ)
  | 0, _, _ => Attempt.unfinished
  | rounds + 1, width, accumulator => do
    match ← delimitedPair item delimiter source (start + width) with
    | some (pairWidth, _, value) =>
      let accumulator ← Attempt.ofEffect (collector.accumulate accumulator value)
      separatedLoop item delimiter collector source start rounds (width + pairWidth) accumulator
    | none =>
      let result ← Attempt.ofEffect (collector.finish accumulator)
      return .success width result

/-- Matches items with a delimiter between each two of them and gathers the items. -/
def separated (rounds : Nat) (item : Parser σ ε α) (delimiter : Parser σ ε β)
    (collector : Collector (StateM σ) α δ) : Parser σ ε δ := fun source start => do
  match ← item source start with
  | .failure => return .failure
  | .success width head =>
    let empty ← Attempt.ofEffect collector.supply
    let accumulator ← Attempt.ofEffect (collector.accumulate empty head)
    separatedLoop item delimiter collector source start rounds width accumulator

end Parser

end RecursiveDescent
