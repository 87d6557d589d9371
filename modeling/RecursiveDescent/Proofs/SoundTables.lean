import RecursiveDescent.Proofs.Discipline
import RecursiveDescent.Proofs.TableEffects

/-!
# Runs on sound tables

A state is sound when every entry of a memo table is a match of the parser that the table belongs
to.  Sound states are a discipline of the run, so what finishes from a sound state is what the
grammar yields.  That the run also finishes whatever the grammar yields is shown in
`RecursiveDescent.Proofs.Completeness`.
-/

namespace RecursiveDescent

variable {ε ν : Type} [DecidableEq ε]

/-- Every entry of a memo table is a match of the owner of the cell. -/
def ParserState.Sound (rules : Rules ε ν) (source : Array ε) (owner : Nat → Grammar ε ν)
    (state : ParserState ν) : Prop :=
  ∀ cell position width value, (state.table cell).lookup? position = some (width, value) →
    (owner cell).Yields rules source position (.success width value)

variable {rules : Rules ε ν} {source : Array ε} {owner : Nat → Grammar ε ν}

namespace ParserState

theorem sound_of_forgotten {state : ParserState ν}
    (forgotten : ∀ cell position, (state.table cell).lookup? position = none) :
    state.Sound rules source owner := by
  intro cell position width value found
  rw [forgotten cell position] at found
  cases found

namespace Sound

variable {state : ParserState ν}

theorem record (sound : state.Sound rules source owner) (event : Event ν) :
    (state.record event).Sound rules source owner :=
  sound

theorem answered (sound : state.Sound rules source owner) (cell start width : Nat) :
    (state.answered cell start width).Sound rules source owner := by
  intro other position found value entry
  rw [lookup?_answered] at entry
  exact sound other position found value entry

theorem missed (sound : state.Sound rules source owner) (cell start : Nat) :
    (state.missed cell start).Sound rules source owner := by
  intro other position width value entry
  rw [lookup?_missed] at entry
  exact sound other position width value entry

theorem remembering (sound : state.Sound rules source owner) {cell start : Nat}
    {outcome : Outcome ν} (yields : (owner cell).Yields rules source start outcome) :
    (state.remembering cell start outcome).Sound rules source owner := by
  cases outcome with
  | failure => exact sound
  | success width value =>
      intro other position found result entry
      rw [lookup?_remembering_success] at entry
      by_cases here : cell = other ∧ start = position
      · obtain ⟨rfl, rfl⟩ := here
        simp only [and_self, if_true] at entry
        cases entry
        exact yields
      · rw [if_neg here] at entry
        exact sound other position found result entry

theorem cleared (sound : state.Sound rules source owner) (cells : List Nat) :
    (state.cleared cells).Sound rules source owner := by
  intro cell position width value entry
  rw [table_cleared] at entry
  by_cases fresh : cell ∈ cells
  · simp [fresh] at entry
  · rw [if_neg fresh] at entry
    exact sound cell position width value entry

theorem restored {former : ParserState ν} (sound : state.Sound rules source owner)
    (soundBefore : former.Sound rules source owner) (cells : List Nat) :
    (ParserState.restored cells former state).Sound rules source owner := by
  intro cell position width value entry
  rw [table_restored] at entry
  by_cases fresh : cell ∈ cells
  · rw [if_pos fresh] at entry
    exact soundBefore cell position width value entry
  · rw [if_neg fresh] at entry
    exact sound cell position width value entry

end Sound

end ParserState

/-! ### What finishes from a sound state -/

/-- Runs lead from sound states to sound states. -/
def soundTables (rules : Rules ε ν) (source : Array ε) (owner : Nat → Grammar ε ν) :
    Discipline Engine.tables rules source owner where
  sound := ParserState.Sound rules source owner
  change _ _ _ := True
  change_refl _ _ := trivial
  change_trans _ _ _ _ _ _ := trivial
  change_within _ _ _ _ _ _ := trivial
  sound_record event _ sound := sound.record event
  change_record _ _ _ := trivial
  realizes_memoized := by
    intro cell start parser realized state outcome final sound finished
    cases found : (state.table cell).lookup? start with
    | some entry =>
        obtain ⟨width, value⟩ := entry
        have answer := Parser.memoized_of_remembered cell parser source start state found
        cases answer.symm.trans finished
        exact ⟨.passed rfl (sound cell start width value found),
          sound.answered cell start width, trivial⟩
    | none =>
        have opened := Parser.memoized_of_forgotten cell parser source start state found
        obtain ⟨⟨result, middle⟩, begun, ended⟩ :=
          Option.map_eq_some_iff.mp (opened.symm.trans finished)
        cases ended
        obtain ⟨yields, kept, _⟩ := realized _ result middle (sound.missed cell start) begun
        exact ⟨.passed rfl yields, kept.remembering yields, trivial⟩
  realizes_withFreshTables := by
    intro cells inner start parser realized state outcome final sound finished
    have opened := Parser.withFreshTables_apply cells parser source start state
    obtain ⟨⟨result, middle⟩, begun, ended⟩ :=
      Option.map_eq_some_iff.mp (opened.symm.trans finished)
    cases ended
    obtain ⟨yields, kept, _⟩ := realized _ result middle (sound.cleared cells) begun
    exact ⟨.passed rfl yields, kept.restored sound cells, trivial⟩

namespace Grammar

variable {grammar : Grammar ε ν} {start : Nat} {outcome : Outcome ν} {state final : ParserState ν}

/-- A run that finishes from a sound state comes to what the grammar yields. -/
theorem Finishes.yields (finishes : grammar.Finishes rules source start state (outcome, final))
    (rulesTabulated : rules.Tabulate owner) (tabulated : grammar.Tabulates owner)
    (sound : state.Sound rules source owner) :
    grammar.Yields rules source start outcome ∧ final.Sound rules source owner := by
  obtain ⟨steps, finished⟩ := finishes
  rw [run_eq_runOn] at finished
  obtain ⟨yields, kept, _⟩ := (soundTables rules source owner).realizes_runOn rulesTabulated steps
    grammar tabulated start state outcome final sound finished
  exact ⟨yields, kept⟩

end Grammar

end RecursiveDescent
