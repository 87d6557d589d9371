import RecursiveDescent.Proofs.Meaning

/-!
# The events of a match

Hooks, traced grammars, deferred grammars, announced collectors and rules with a tag enter events
while a grammar is matched.  Without memo tables the source and the position decide which ones, so
the events belong to the meaning of a grammar as much as its outcome does.

The three forms of a grammar say where events arise: before the first part, behind it, which the
outcome of the part may decide, and in the parts themselves.  `Grammar.Records` is the relation
that this generates.  It refines `Grammar.Yields`, and both determine the same outcome.
-/

namespace RecursiveDescent

variable {ε ν : Type}

/-- The events of invoking a rule, before its definition is run. -/
def Rules.invocationEvents (rules : Rules ε ν) (index start : Nat) : List (Event ν) :=
  match rules[index]? with
  | some (.recursive tag _ _) => tag.elim [] fun tag => [.expanded tag]
  | some (.forward (some _)) => []
  | _ => [.logged (.undefinedRule start)]

namespace Grammar

/-- The events of a collector that ends without having taken anything in. -/
def closingEvents (collector : ValueCollector ν) (bounds : RepeatBounds) : List (Event ν) :=
  if 0 < bounds.minimum then [] else (collector.finish collector.supply.value).emitted

/-- The events that come before the first part of a grammar is attempted, or instead of it. -/
def eventsBefore (rules : Rules ε ν) (source : Array ε) :
    Grammar ε ν → Nat → List (Event ν)
  | .before tag _, start => [.attempted tag start]
  | .traced name _, start => [.logged (.trying name start source.size)]
  | .deferred tag _, _ => [.resolved tag]
  | .repeated _ collector bounds, _ =>
      if bounds.allowsMore 0 then
        collector.supply.emitted
      else
        collector.supply.emitted ++ closingEvents collector bounds
  | .rule index, start => rules.invocationEvents index start
  | _, _ => []

/-- The events that come when the first part of a grammar has come to an outcome. -/
def eventsAfter : Grammar ε ν → Nat → Outcome ν → List (Event ν)
  | .onSuccess tag _, start, .success width value => [.succeeded tag start width value]
  | .onFailure tag _, start, .failure => [.failed tag start]
  | .traced name _, start, .success width _ => [.logged (.matched name width start)]
  | .traced name _, start, .failure => [.logged (.unmatched name start)]
  | .repeated _ collector _, _, .success _ value =>
      (collector.accumulate collector.supply.value value).emitted
  | .repeated _ collector bounds, _, .failure => closingEvents collector bounds
  | _, _, _ => []

variable [DecidableEq ε] (rules : Rules ε ν) (source : Array ε)

/-- The grammar, matched from a position on without memo tables, comes to the outcome and enters
the events, the first one first. -/
inductive Records : Grammar ε ν → Nat → Outcome ν → List (Event ν) → Prop where
  | settled {grammar settled start} (shape : grammar.form rules source = .settled settled) :
      Records grammar start (settled start) (grammar.eventsBefore rules source start)
  | adjusted {grammar part adjust start outcome events}
      (shape : grammar.form rules source = .adjusted part adjust)
      (inside : Records part start outcome events) :
      Records grammar start (adjust start outcome)
        (grammar.eventsBefore rules source start ++ (events ++ grammar.eventsAfter start outcome))
  | continued {grammar first next start outcome events result more}
      (shape : grammar.form rules source = .continued first next)
      (beginning : Records first start outcome events)
      (following : Records (next outcome) (start + outcome.advance) result more) :
      Records grammar start (result.advancedBy outcome.advance)
        (grammar.eventsBefore rules source start ++
          (events ++ (grammar.eventsAfter start outcome ++ more)))

variable {rules source} {grammar : Grammar ε ν} {start : Nat} {outcome : Outcome ν}
  {events : List (Event ν)}

theorem Records.yields (records : grammar.Records rules source start outcome events) :
    grammar.Yields rules source start outcome := by
  induction records with
  | settled shape => exact .settled shape
  | adjusted shape _ insideCase => exact .adjusted shape insideCase
  | continued shape _ _ beginningCase followingCase =>
      exact .continued shape beginningCase followingCase

theorem Yields.exists_records (yields : grammar.Yields rules source start outcome) :
    ∃ events, grammar.Records rules source start outcome events := by
  induction yields with
  | settled shape => exact ⟨_, .settled shape⟩
  | adjusted shape _ insideCase =>
      obtain ⟨events, inside⟩ := insideCase
      exact ⟨_, .adjusted shape inside⟩
  | continued shape _ _ beginningCase followingCase =>
      obtain ⟨events, beginning⟩ := beginningCase
      obtain ⟨more, following⟩ := followingCase
      exact ⟨_, .continued shape beginning following⟩

/-- A grammar that only passes the outcome of a quiet part on records what the part records. -/
theorem Records.passed {part : Grammar ε ν}
    (shape : grammar.form rules source = .adjusted part fun _ outcome => outcome)
    (quietBefore : grammar.eventsBefore rules source start = [])
    (quietAfter : grammar.eventsAfter start outcome = [])
    (inside : part.Records rules source start outcome events) :
    grammar.Records rules source start outcome events := by
  have recorded := Records.adjusted shape inside
  simpa [quietBefore, quietAfter] using recorded

/-- The outcome and the events of a match are determined. -/
theorem Records.unique {other : Outcome ν} {others : List (Event ν)}
    (records : grammar.Records rules source start outcome events)
    (recordsToo : grammar.Records rules source start other others) :
    outcome = other ∧ events = others := by
  induction records generalizing other others with
  | settled shape =>
      cases recordsToo with
      | settled shapeToo =>
          cases shape.symm.trans shapeToo
          exact ⟨rfl, rfl⟩
      | adjusted shapeToo _ => cases shape.symm.trans shapeToo
      | continued shapeToo _ _ => cases shape.symm.trans shapeToo
  | adjusted shape _ insideCase =>
      cases recordsToo with
      | settled shapeToo => cases shape.symm.trans shapeToo
      | adjusted shapeToo inside =>
          cases shape.symm.trans shapeToo
          obtain ⟨rfl, rfl⟩ := insideCase inside
          exact ⟨rfl, rfl⟩
      | continued shapeToo _ _ => cases shape.symm.trans shapeToo
  | continued shape _ _ beginningCase followingCase =>
      cases recordsToo with
      | settled shapeToo => cases shape.symm.trans shapeToo
      | adjusted shapeToo _ => cases shape.symm.trans shapeToo
      | continued shapeToo beginning following =>
          cases shape.symm.trans shapeToo
          obtain ⟨rfl, rfl⟩ := beginningCase beginning
          obtain ⟨rfl, rfl⟩ := followingCase following
          exact ⟨rfl, rfl⟩

end Grammar

end RecursiveDescent
