import RecursiveDescent.Proofs.Meaning
import RecursiveDescent.Proofs.Engine

/-!
# Lists with delimiters are bound repetitions

A delimited list and a separated list each run a loop of their own, with their own sum of widths
and their own calls of the collector.  Neither loop adds anything to the language: a delimited
list is its first item, bound to a repetition of pairs, and a separated list is the delimited list
that forgets the delimiters and takes the first item into its collector.

The equations hold between parsers on states of any type, whatever the items and the delimiters do
to the state.  So they cover the outcome, the effects of the parsers and of the collector together
with their order, and the attempts that never end.
-/

namespace RecursiveDescent

variable {σ ε ν α β γ δ : Type}

namespace Parser

/-- What follows the head of a list: as many pairs of a delimiter and an item as there are. -/
def pairs (rounds : Nat) (item : Parser σ ε α) (delimiter : Parser σ ε β) (combine : β → α → γ)
    (headCollector : α → Collector (StateM σ) γ δ) : Outcome α → Parser σ ε δ
  | .success _ head =>
      Parser.repeated rounds (Parser.sequence delimiter item combine) (headCollector head)
        .zeroOrMore
  | .failure => Parser.fail

theorem separated_eq_delimited (rounds : Nat) (item : Parser σ ε α) (delimiter : Parser σ ε β)
    (collector : Collector (StateM σ) α δ) :
    Parser.separated rounds item delimiter collector =
      Parser.delimited rounds item delimiter (fun _ value => value) collector.accept := by
  rw [separated_eq_bind, delimited_eq_bind]

/-- With any number of rounds a delimited list does what its first item does when it is bound to a
repetition of pairs, and a separated list does what the delimited list does that keeps the items
and accepts the first one. -/
theorem lists_eq_bound_repetitions (rounds : Nat) (item : Parser σ ε α)
    (delimiter : Parser σ ε β) (combine : β → α → γ)
    (headCollector : α → Collector (StateM σ) γ δ) (collector : Collector (StateM σ) α δ) :
    Parser.delimited rounds item delimiter combine headCollector =
        Parser.bind item (Parser.pairs rounds item delimiter combine headCollector) ∧
      Parser.separated rounds item delimiter collector =
        Parser.delimited rounds item delimiter (fun _ value => value) collector.accept := by
  constructor
  · exact delimited_eq_bind rounds item delimiter combine headCollector
  · exact separated_eq_delimited rounds item delimiter collector

end Parser

/-! ### Lists in grammars -/

namespace Grammar

variable [DecidableEq ε] (rules : Rules ε ν) (steps : Nat) (item delimiter : Grammar ε ν)

/-- The announcements of the collector of a delimited list enter the journal as those of the
repetition do that the first item is bound to. -/
theorem run_delimited_eq_bind (combine : ν → ν → ν) (headCollector : ν → ValueCollector ν) :
    (delimited item delimiter combine headCollector).run rules steps =
      (bind item (pairs item delimiter combine headCollector)).run rules steps := by
  trans Parser.delimited steps (item.run rules steps) (delimiter.run rules steps) combine
    fun head => journaled (headCollector head)
  · cases steps <;> rfl
  · rw [Parser.delimited_eq_bind]
    trans Parser.bind (item.run rules steps) fun outcome =>
      (pairs item delimiter combine headCollector outcome).run rules steps
    · congr 1
      funext outcome
      cases outcome <;> cases steps <;> rfl
    · cases steps <;> rfl

theorem run_separated_eq_delimited (collector : ValueCollector ν) :
    (separated item delimiter collector).run rules steps =
      (delimited item delimiter (fun _ value => value) collector.accept).run rules steps := by
  have collected : (journaled collector).accept =
      fun head => journaled (collector.accept head) := by
    funext head
    exact ((Engine.tables : Engine (ParserState ν) ε ν).journaled_accept collector head).symm
  trans Parser.separated steps (item.run rules steps) (delimiter.run rules steps)
    (journaled collector)
  · cases steps <;> rfl
  · rw [Parser.separated_eq_delimited, collected]
    cases steps <;> rfl

end Grammar

end RecursiveDescent
