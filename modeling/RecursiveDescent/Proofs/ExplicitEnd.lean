import RecursiveDescent.Proofs.AppendOnly
import RecursiveDescent.Proofs.WholeSources

/-!
# The end of input as a part of a grammar

There are two ways to ask for a match of the whole source.  One runs the grammar and compares what
the match has consumed with the size of the source.  The other puts the end of input behind the
grammar, so that the run itself looks whether it has come to the end.

The first one asks for a width that is equal to the size, the second one for a width that is not
less.  They agree because a match without functions on positions never runs past the end, and they
agree in every respect: on the answer, on the state that is left behind and on whether there is an
answer at all.
-/

namespace RecursiveDescent

variable {σ ε ν α β : Type}

namespace Outcome

/-- A match becomes a failure unless it ends where no element remains. -/
def ending (source : Array ε) (start : Nat) : Outcome α → Outcome α
  | .success width value => if source.size ≤ start + width then .success width value else .failure
  | .failure => .failure

/-- For a match that stays inside the source, to reach the end is to consume everything. -/
theorem value?_ending {source : Array ε} {outcome : Outcome α}
    (inside : outcome.advance ≤ source.size) :
    (outcome.ending source 0).value? = outcome.complete? source.size := by
  cases outcome with
  | failure => rfl
  | success width value =>
      have short : width ≤ source.size := inside
      simp only [ending, complete?, Nat.zero_add]
      by_cases whole : width = source.size
      · rw [if_pos (Nat.le_of_eq whole.symm), if_pos whole]
        rfl
      · rw [if_neg (by omega), if_neg whole]
        rfl

end Outcome

theorem Parser.sequence_endOfInput (inner : Parser σ ε α) (mark : β) :
    Parser.sequence inner (Parser.endOfInput mark) (fun value _ => value) =
      Parser.adjusted Outcome.ending inner := by
  funext source start
  refine bind_congr fun outcome => ?_
  cases outcome with
  | failure => rfl
  | success width value =>
      rw [Parser.endOfInput_eq_ofFunction]
      simp only [Parser.ofFunction, Outcome.ofEnd, Outcome.ending]
      by_cases ended : source.size ≤ start + width <;> simp [ended]

namespace Grammar

/-- The grammar with the end of input behind it, whose value does not count. -/
def untilEnd (grammar : Grammar ε ν) (mark : ν) : Grammar ε ν :=
  .sequence grammar (.endOfInput mark) fun value _ => value

variable [DecidableEq ε] {rules : Rules ε ν} {source : Array ε} {grammar : Grammar ε ν}
  {owner : Nat → Grammar ε ν}

/-- Runs a grammar from the first position, with an allotment of steps, and asks for the value. -/
def runValue (grammar : Grammar ε ν) (rules : Rules ε ν) (steps : Nat) (source : Array ε) :
    Attempt (ParserState ν) (Option ν) := do
  let outcome ← grammar.run rules steps source 0
  return outcome.value?

theorem run_untilEnd (grammar : Grammar ε ν) (mark : ν) (rules : Rules ε ν) (steps : Nat) :
    (grammar.untilEnd mark).run rules steps =
      Parser.adjusted Outcome.ending (grammar.run rules steps) := by
  rw [← Parser.sequence_endOfInput _ mark]
  cases steps <;> rfl

theorem runComplete_eq_runValue (rulesTabulated : rules.Tabulate owner)
    (tabulated : grammar.Tabulates owner) (functionFree : grammar.FunctionFree)
    (rulesFunctionFree : rules.FunctionFree) (spanned : source.size < lastPosition)
    {state : ParserState ν} (sound : state.Sound rules source owner) (mark : ν) (steps : Nat) :
    grammar.runComplete rules steps source state =
      (grammar.untilEnd mark).runValue rules steps source state := by
  unfold runComplete runValue
  rw [run_untilEnd, Attempt.bind_apply, Attempt.bind_apply, Parser.adjusted_apply,
    Option.map_eq_bind, Option.bind_assoc]
  refine Option.bind_congr fun result finished => ?_
  obtain ⟨outcome, final⟩ := result
  have yields : grammar.Yields rules source 0 outcome :=
    (Finishes.yields ⟨steps, finished⟩ rulesTabulated tabulated sound).1
  have inside := yields.add_advance_le functionFree rulesFunctionFree spanned (Nat.zero_le _)
  rw [Nat.zero_add] at inside
  exact congrArg (fun answer => some (answer, final)) (Outcome.value?_ending inside).symm

/-- A grammar without functions on positions, on memo tables that remember nothing at first, answers
for a whole source as the grammar does that has the end of input behind it.  With any allotment of
steps, and so with the ample one, both come to the same answer and leave the same state behind, or
neither is finished. -/
theorem complete_eq_untilEnd (rulesTabulated : rules.Tabulate owner)
    (tabulated : grammar.Tabulates owner) (functionFree : grammar.FunctionFree)
    (rulesFunctionFree : rules.FunctionFree) (spanned : source.size < lastPosition)
    {state : ParserState ν}
    (forgotten : ∀ cell position, (state.table cell).lookup? position = none) (mark : ν) :
    (∀ steps, grammar.runComplete rules steps source state =
      (grammar.untilEnd mark).runValue rules steps source state) ∧
    grammar.parseComplete rules source state =
      (do
        let outcome ← (grammar.untilEnd mark).parseFrom rules source 0
        return outcome.value?) state ∧
    ∀ answer final, (∃ steps, grammar.runComplete rules steps source state = some (answer, final)) ↔
      ∃ outcome, (grammar.untilEnd mark).Finishes rules source 0 state (outcome, final) ∧
        answer = outcome.value? := by
  have sound : state.Sound rules source owner := ParserState.sound_of_forgotten forgotten
  have same := runComplete_eq_runValue rulesTabulated tabulated functionFree rulesFunctionFree
    spanned sound mark
  refine ⟨same, ?_, fun answer final => ?_⟩
  · rw [parseComplete_eq_runComplete, same]
    rfl
  · constructor
    · rintro ⟨steps, ran⟩
      rw [same, runValue, Attempt.bind_eq_some_iff] at ran
      obtain ⟨outcome, middle, finished, ended⟩ := ran
      cases ended
      exact ⟨outcome, ⟨steps, finished⟩, rfl⟩
    · rintro ⟨outcome, ⟨steps, finished⟩, rfl⟩
      refine ⟨steps, ?_⟩
      rw [same, runValue, Attempt.bind_eq_some_iff]
      exact ⟨outcome, final, finished, rfl⟩

/-- The whole of the first source is a match.  The second one ends with a zero, in front of which
the match ends. -/
theorem complete_eq_untilEnd_positives :
    (∃ outcome final, (untilEnd (memoized 1 (.rule 0)) 0).Finishes #[.forward (some positives)]
      #[3, 5] 0 .initial (outcome, final) ∧ some 2 = outcome.value?) ∧
    ∃ outcome final, (untilEnd (memoized 1 (.rule 0)) 0).Finishes #[.forward (some positives)]
      #[3, 5, 0] 0 .initial (outcome, final) ∧ none = outcome.value? := by
  have forgotten (cell position : Nat) :
      ((ParserState.initial : ParserState Nat).table cell).lookup? position = none := by
    simp
  have ended {source : Array Nat} (spanned : source.size < lastPosition)
      (yields : (memoized 1 (.rule 0)).Yields #[.forward (some positives)] source 0
        (.success 2 2)) :
      ∃ outcome final, (untilEnd (memoized 1 (.rule 0)) 0).Finishes #[.forward (some positives)]
        source 0 .initial (outcome, final) ∧
          (Outcome.success 2 2).complete? source.size = outcome.value? := by
    obtain ⟨final, steps, finished⟩ := yields.completes tabulate_positives tabulates_positives
      .initial (ParserState.sound_of_forgotten forgotten)
    obtain ⟨-, -, agree⟩ := complete_eq_untilEnd tabulate_positives tabulates_positives
      ⟨trivial, trivial⟩ functionFree_positives spanned forgotten 0
    obtain ⟨outcome, finishes, answer⟩ := (agree _ final).mp
      ⟨steps, runComplete_eq_some_iff.mpr ⟨_, finished, rfl⟩⟩
    exact ⟨outcome, final, finishes, answer⟩
  have whole : (memoized 1 (.rule 0)).Yields #[.forward (some positives)] #[3, 5] 0
      (.success 2 2) := by
    rw [← exists_finishes_withoutTables_iff, withoutTables_positives]
    exact ⟨_, 5, rfl⟩
  exact ⟨ended (by decide) whole, ended (by decide) yields_positives⟩

end Grammar

end RecursiveDescent
