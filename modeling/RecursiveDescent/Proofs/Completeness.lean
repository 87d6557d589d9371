import RecursiveDescent.Proofs.FinishedRuns
import RecursiveDescent.Proofs.SoundTables

/-!
# Runs reach every outcome

What a grammar yields, its run finishes from every sound state.  Each derivation of an outcome is
followed by a run with enough steps for all parts of the derivation, and a memo table that
answers on the way gives the outcome of the part that it replaces.

The main statement is `exists_finishes_iff_yields`: from a sound state, runs and derivations come to
the same outcomes.
-/

namespace RecursiveDescent

variable {ε ν : Type} [DecidableEq ε] {rules : Rules ε ν} {source : Array ε}
  {owner : Nat → Grammar ε ν}

/-! ### Entering and leaving a part keeps tables sound -/

namespace ParserState.Sound

variable {state former : ParserState ν}

theorem recordAll (sound : state.Sound rules source owner) (events : List (Event ν)) :
    (state.recordAll events).Sound rules source owner := by
  induction events generalizing state with
  | nil => exact sound
  | cons event events induction => exact induction (sound.record event)

theorem enter (sound : state.Sound rules source owner) (grammar : Grammar ε ν) (start : Nat) :
    (grammar.enter rules source start state).Sound rules source owner := by
  cases grammar with
  | memoized cell inner => exact sound.missed cell start
  | rebuilt cells inner => exact sound.cleared cells
  | _ => exact sound.recordAll _

theorem leave_of_continued {grammar first : Grammar ε ν} {next : Outcome ν → Grammar ε ν}
    (sound : state.Sound rules source owner)
    (shape : grammar.form rules source = .continued first next) (start : Nat)
    (outcome : Outcome ν) :
    (grammar.leave start former outcome state).Sound rules source owner := by
  cases grammar with
  | memoized cell inner => cases shape
  | rebuilt cells inner => cases shape
  | _ => exact sound.recordAll _

end ParserState.Sound

namespace Grammar

variable {grammar : Grammar ε ν} {start : Nat} {outcome : Outcome ν} {state final : ParserState ν}

/-! ### Every outcome is reached -/

/-- All runs from sound states come to the outcome. -/
def Completes (rules : Rules ε ν) (source : Array ε) (owner : Nat → Grammar ε ν)
    (grammar : Grammar ε ν) (start : Nat) (outcome : Outcome ν) : Prop :=
  ∀ state, state.Sound rules source owner →
    ∃ last, grammar.Finishes rules source start state (outcome, last)

/-- A part that completes makes the whole complete. -/
theorem completes_of_adjusted {part : Grammar ε ν} {adjust : Nat → Outcome ν → Outcome ν}
    (tabulated : grammar.Tabulates owner)
    (shape : grammar.form rules source = .adjusted part adjust)
    (yields : part.Yields rules source start outcome)
    (inside : part.Completes rules source owner start outcome) :
    grammar.Completes rules source owner start (adjust start outcome) := by
  intro state sound
  cases answered : grammar.answer? start state with
  | some entry =>
      -- The entry is a match of the owner too, and the owner yields one outcome only.
      obtain ⟨width, value⟩ := entry
      obtain ⟨cell, inner, rfl, remembered⟩ := exists_memoized_of_answer answered
      obtain ⟨rfl, _⟩ := tabulated
      cases shape
      cases yields.unique (sound cell start width value remembered)
      exact ⟨_, finishes_of_remembered remembered⟩
  | none =>
      obtain ⟨last, finishes⟩ := inside _ (sound.enter grammar start)
      exact ⟨_, (finishes_adjusted_iff shape answered).mpr ⟨outcome, last, finishes, rfl, rfl⟩⟩

/-- A beginning that completes and a rest that does make the whole complete. -/
theorem completes_of_continued {first : Grammar ε ν} {next : Outcome ν → Grammar ε ν}
    {result : Outcome ν} (rulesTabulated : rules.Tabulate owner)
    (tabulated : first.Tabulates owner)
    (shape : grammar.form rules source = .continued first next)
    (beginning : first.Completes rules source owner start outcome)
    (following : (next outcome).Completes rules source owner (start + outcome.advance) result) :
    grammar.Completes rules source owner start (result.advancedBy outcome.advance) := by
  intro state sound
  have entered := sound.enter grammar start
  obtain ⟨middle, begun⟩ := beginning _ entered
  have kept := (begun.yields rulesTabulated tabulated entered).2
  obtain ⟨last, followed⟩ := following _ (kept.leave_of_continued shape start outcome)
  exact ⟨last, (finishes_continued_iff shape).mpr
    ⟨outcome, middle, result, begun, followed, rfl⟩⟩

/-! ### Derivations and runs -/

/-- What a grammar yields, it finishes from every sound state. -/
theorem Yields.completes (yields : grammar.Yields rules source start outcome)
    (rulesTabulated : rules.Tabulate owner) (tabulated : grammar.Tabulates owner) :
    grammar.Completes rules source owner start outcome := by
  induction yields with
  | settled shape => exact fun state _ => ⟨_, finishes_settled shape _ state⟩
  | adjusted shape inside insideCase =>
      have part := tabulated.form (hereditary_owned owner) rulesTabulated source
      rw [shape] at part
      exact completes_of_adjusted tabulated shape inside (insideCase part)
  | continued shape beginning _ beginningCase followingCase =>
      have parts := tabulated.form (hereditary_owned owner) rulesTabulated source
      rw [shape] at parts
      exact completes_of_continued rulesTabulated parts.1 shape (beginningCase parts.1)
        (followingCase (parts.2 _))

/-- From a sound state, runs and derivations come to the same outcomes. -/
theorem exists_finishes_iff_yields (rulesTabulated : rules.Tabulate owner)
    (tabulated : grammar.Tabulates owner) (sound : state.Sound rules source owner) :
    (∃ last, grammar.Finishes rules source start state (outcome, last)) ↔
      grammar.Yields rules source start outcome :=
  ⟨fun ⟨_, finishes⟩ => (finishes.yields rulesTabulated tabulated sound).1,
    fun yields => yields.completes rulesTabulated tabulated state sound⟩

end Grammar

end RecursiveDescent
