import RecursiveDescent.Proofs.RunAttempts
import RecursiveDescent.Proofs.Throughout

/-!
# Memo tables that a run does not touch

A grammar in which a memo cell does not occur leaves the table in that cell as it is, whatever the
state and whatever the other tables hold.  A grammar in which no memo cell occurs at all is a
function of source and position: in every state it finishes with the outcome that it yields.
-/

namespace RecursiveDescent

variable {ε ν : Type}

/-- The construct does not use the memo table in a cell. -/
def Grammar.SparesCell (cell : Nat) : Grammar ε ν → Prop
  | .memoized other _ => other ≠ cell
  | _ => True

def Grammar.SparesTables : Grammar ε ν → Prop
  | .memoized _ _ => False
  | _ => True

theorem ParserState.table_recordAll (events : List (Event ν)) (state : ParserState ν)
    (cell : Nat) : (state.recordAll events).table cell = state.table cell := by
  induction events generalizing state with
  | nil => rfl
  | cons event events induction => exact induction (state.record event)

namespace Grammar

theorem hereditary_sparesCell (cell : Nat) :
    Hereditary (SparesCell cell : Grammar ε ν → Prop) where
  fail := trivial
  succeed _ := trivial
  map _ _ := trivial
  sequence _ _ _ := trivial
  left _ _ _ _ _ := trivial
  pairs _ _ _ _ _ _ := trivial
  separatedPairs _ _ _ _ _ := trivial

theorem hereditary_sparesTables : Hereditary (SparesTables : Grammar ε ν → Prop) where
  fail := trivial
  succeed _ := trivial
  map _ _ := trivial
  sequence _ _ _ := trivial
  left _ _ _ _ _ := trivial
  pairs _ _ _ _ _ _ := trivial
  separatedPairs _ _ _ _ _ := trivial

theorem SparesTables.sparesCell {grammar : Grammar ε ν} (spares : grammar.SparesTables)
    (cell : Nat) : grammar.SparesCell cell := by
  cases grammar with
  | memoized other inner => exact spares.elim
  | _ => trivial

variable [DecidableEq ε] {rules : Rules ε ν} {source : Array ε} {grammar : Grammar ε ν}
  {start cell : Nat} {outcome : Outcome ν} {state middle final : ParserState ν}

theorem table_enter_of_settled {settled : Nat → Outcome ν}
    (shape : grammar.form rules source = .settled settled) :
    (grammar.enter rules source start state).table cell = state.table cell := by
  cases grammar with
  | memoized other inner => cases shape
  | rebuilt cells inner => cases shape
  | _ => exact ParserState.table_recordAll _ state cell

omit [DecidableEq ε] in
/-- When the attempts within a grammar leave a table alone, so does the grammar around them. -/
theorem table_leave (spares : grammar.SparesCell cell)
    (kept : middle.table cell = (grammar.enter rules source start state).table cell) :
    (grammar.leave start state outcome middle).table cell = state.table cell := by
  cases grammar with
  | memoized other inner =>
      have different : other ≠ cell := spares
      have missed : (state.missed other start).table cell = state.table cell := by
        rw [ParserState.table_missed, if_neg different]
      cases outcome with
      | failure => exact kept.trans missed
      | success width value =>
          change (middle.remembering other start (.success width value)).table cell = _
          rw [ParserState.table_remembering_success, if_neg different]
          exact kept.trans missed
  | rebuilt cells inner =>
      change (ParserState.restored cells state middle).table cell = state.table cell
      change middle.table cell = (state.cleared cells).table cell at kept
      rw [ParserState.table_restored, kept, ParserState.table_cleared]
      by_cases fresh : cell ∈ cells <;> simp [fresh]
  | _ =>
      refine (ParserState.table_recordAll _ middle cell).trans (kept.trans ?_)
      exact ParserState.table_recordAll _ state cell

/-- A finished run leaves the table in a cell alone that does not occur in the grammar. -/
theorem Finishes.table_eq
    (finishes : grammar.Finishes rules source start state (outcome, final))
    (spares : grammar.Throughout (SparesCell cell))
    (rulesSpare : rules.Throughout (SparesCell cell)) :
    final.table cell = state.table cell := by
  have descent := finishes.acc
  generalize named : (grammar, start, state) = situation at descent
  induction descent generalizing grammar start state outcome final with
  | intro situation _ innerCase =>
      obtain rfl := named
      have parts := spares.form (hereditary_sparesCell cell) rulesSpare source
      cases shape : grammar.form rules source with
      | settled settled =>
          obtain ⟨-, rfl⟩ := (finishes_settled_iff shape).mp finishes
          exact table_enter_of_settled shape
      | adjusted part adjust =>
          rw [shape] at parts
          cases answered : grammar.answer? start state with
          | some entry =>
              obtain ⟨width, value⟩ := entry
              obtain ⟨other, inner, rfl, remembered⟩ := exists_memoized_of_answer answered
              cases finishes.unique (finishes_of_remembered remembered)
              have different : other ≠ cell := spares.1
              rw [ParserState.table_answered, if_neg different]
          | none =>
              obtain ⟨result, middle, inside, -, rfl⟩ :=
                (finishes_adjusted_iff shape answered).mp finishes
              exact table_leave spares.holds (innerCase _ (.part shape answered) inside parts rfl)
      | continued first next =>
          rw [shape] at parts
          obtain ⟨result, middle, ended, beginning, following, -⟩ :=
            (finishes_continued_iff shape).mp finishes
          have begun := innerCase _ (.first shape) beginning parts.1 rfl
          have followed := innerCase _ (.next shape beginning) following (parts.2 _) rfl
          rw [followed]
          exact table_leave spares.holds begun

/-- What a grammar without memo tables yields it finishes with in every state. -/
theorem Yields.exists_finishes (yields : grammar.Yields rules source start outcome)
    (spares : grammar.Throughout SparesTables) (rulesSpare : rules.Throughout SparesTables)
    (state : ParserState ν) :
    ∃ final, grammar.Finishes rules source start state (outcome, final) := by
  induction yields generalizing state with
  | settled shape => exact ⟨_, finishes_settled shape _ state⟩
  | @adjusted grammar part adjust start outcome shape inside insideCase =>
      have parts := spares.form hereditary_sparesTables rulesSpare source
      rw [shape] at parts
      obtain ⟨middle, finishes⟩ := insideCase parts (grammar.enter rules source start state)
      have unanswered : grammar.answer? start state = none := by
        cases grammar with
        | memoized cell inner => exact spares.holds.elim
        | _ => rfl
      exact ⟨_, (finishes_adjusted_iff shape unanswered).mpr ⟨outcome, middle, finishes, rfl, rfl⟩⟩
  | @continued grammar first next start outcome result shape _ _ beginningCase followingCase =>
      have parts := spares.form hereditary_sparesTables rulesSpare source
      rw [shape] at parts
      obtain ⟨middle, beginning⟩ :=
        beginningCase parts.1 (grammar.enter rules source start state)
      obtain ⟨last, following⟩ :=
        followingCase (parts.2 _) (grammar.leave start state outcome middle)
      exact ⟨last, (finishes_continued_iff shape).mpr
        ⟨outcome, middle, result, beginning, following, rfl⟩⟩

end Grammar

end RecursiveDescent
