import RecursiveDescent.Proofs.NormalForm
import RecursiveDescent.GrammarRun

/-!
# Answers about whole sources

Matching a whole source means to run a grammar from the first position and to ask whether the match
has consumed everything.  The answer is a function of the outcome, so what is known about outcomes
carries over to answers, for the ample allotment of steps as for any other.
-/

namespace RecursiveDescent

variable {ε ν : Type}

/-- The value of a match that has consumed as many elements as a source has. -/
def Outcome.complete? (size : Nat) : Outcome ν → Option ν
  | .success consumed value => if consumed = size then some value else none
  | .failure => none

theorem Outcome.complete?_eq_some_iff {size : Nat} {outcome : Outcome ν} {value : ν} :
    outcome.complete? size = some value ↔ outcome = .success size value := by
  cases outcome <;> simp [complete?]

variable [DecidableEq ε]

/-- Runs a grammar on a whole source with an allotment of steps. -/
def Grammar.runComplete (grammar : Grammar ε ν) (rules : Rules ε ν) (steps : Nat)
    (source : Array ε) : Attempt (ParserState ν) (Option ν) := do
  let outcome ← grammar.run rules steps source 0
  return outcome.complete? source.size

theorem Grammar.parseComplete_eq_runComplete (grammar : Grammar ε ν) (rules : Rules ε ν)
    (source : Array ε) :
    grammar.parseComplete rules source = grammar.runComplete rules amplySteps source := by
  refine bind_congr fun outcome => ?_
  cases outcome with
  | failure => rfl
  | success consumed value =>
      simp only [Outcome.complete?]
      split <;> rfl

theorem Grammar.runComplete_eq_some_iff {grammar : Grammar ε ν} {rules : Rules ε ν} {steps : Nat}
    {source : Array ε} {state last : ParserState ν} {answer : Option ν} :
    grammar.runComplete rules steps source state = some (answer, last) ↔
      ∃ outcome, grammar.run rules steps source 0 state = some (outcome, last) ∧
        answer = outcome.complete? source.size := by
  unfold runComplete
  rw [Attempt.bind_eq_some_iff]
  constructor
  · rintro ⟨outcome, middle, ran, ended⟩
    cases ended
    exact ⟨outcome, ran, rfl⟩
  · rintro ⟨outcome, ran, rfl⟩
    exact ⟨outcome, last, ran, rfl⟩

end RecursiveDescent
