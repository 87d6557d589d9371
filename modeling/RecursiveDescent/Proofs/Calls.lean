import RecursiveDescent.Proofs.Completeness
import Mathlib.Data.List.Forall2

/-!
# Sequences of calls

A grammar may be matched again and again on one source, each time at another position and in the
state that the call before has left.  What holds of a state and is preserved by one call holds
after any number of calls.

In general the calls of a grammar need not be on one source, and memo tables may be cleared between
them.  `Grammar.Performs` is the relation for these.
-/

namespace RecursiveDescent

variable {σ ε ν : Type}

/-- Calls at given positions, one after the other, and their outcomes. -/
inductive CallSequence (finishes : Nat → σ → Outcome ν × σ → Prop) :
    List Nat → σ → List (Outcome ν) → σ → Prop where
  | nil (state : σ) : CallSequence finishes [] state [] state
  | cons {start starts state outcome middle outcomes final}
      (call : finishes start state (outcome, middle))
      (rest : CallSequence finishes starts middle outcomes final) :
      CallSequence finishes (start :: starts) state (outcome :: outcomes) final

/-- Calls of a grammar on one source, on the memo tables that earlier calls have filled. -/
abbrev Grammar.FinishesEach [DecidableEq ε] (grammar : Grammar ε ν) (rules : Rules ε ν)
    (source : Array ε) :
    List Nat → ParserState ν → List (Outcome ν) → ParserState ν → Prop :=
  CallSequence (grammar.Finishes rules source)

/-- A call of a grammar whose memo tables live on. -/
inductive Call (ε : Type) where
  /-- Matches the grammar on a source from a position on. -/
  | parse (source : Array ε) (start : Nat)
  /-- Empties a memo table. -/
  | clear (cell : Nat)

/-- Calls, one after the other, with the outcomes of those that match the grammar. -/
inductive Grammar.Performs [DecidableEq ε] (grammar : Grammar ε ν) (rules : Rules ε ν) :
    List (Call ε) → ParserState ν → List (Outcome ν) → ParserState ν → Prop where
  | nil (state : ParserState ν) : Performs grammar rules [] state [] state
  | parse {source start calls state outcome middle outcomes final}
      (call : grammar.Finishes rules source start state (outcome, middle))
      (rest : Performs grammar rules calls middle outcomes final) :
      Performs grammar rules (.parse source start :: calls) state (outcome :: outcomes) final
  | clear {cell calls state outcomes final}
      (rest : Performs grammar rules calls (state.clearTable cell) outcomes final) :
      Performs grammar rules (.clear cell :: calls) state outcomes final

namespace CallSequence

variable {finishes : Nat → σ → Outcome ν × σ → Prop} {starts : List Nat}
  {outcomes : List (Outcome ν)} {state final : σ}

/-- A property of states that one call preserves is preserved by a sequence of calls, and what one
call comes to in such states holds of every call. -/
theorem preserves (property : σ → Prop) (comesTo : Nat → Outcome ν → Prop)
    (step : ∀ start ∈ starts, ∀ state outcome final, property state →
      finishes start state (outcome, final) → comesTo start outcome ∧ property final)
    (calls : CallSequence finishes starts state outcomes final) (begins : property state) :
    List.Forall₂ comesTo starts outcomes ∧ property final := by
  induction calls with
  | nil state => exact ⟨.nil, begins⟩
  | cons call _ restCase =>
      obtain ⟨first, middle⟩ := step _ List.mem_cons_self _ _ _ begins call
      obtain ⟨others, last⟩ := restCase
        (fun start member => step start (List.mem_cons_of_mem _ member)) middle
      exact ⟨.cons first others, last⟩

/-- Calls that can be made in every state with a property that they preserve can be made one after
the other. -/
theorem exists_of_forall₂ {property : σ → Prop} {comesTo : Nat → Outcome ν → Prop}
    (step : ∀ start outcome, comesTo start outcome → ∀ state, property state →
      ∃ final, finishes start state (outcome, final) ∧ property final)
    (each : List.Forall₂ comesTo starts outcomes) (begins : property state) :
    ∃ final, CallSequence finishes starts state outcomes final := by
  induction each generalizing state with
  | nil => exact ⟨state, .nil state⟩
  | cons first _ restCase =>
      obtain ⟨middle, call, preserved⟩ := step _ _ first state begins
      obtain ⟨final, rest⟩ := restCase preserved
      exact ⟨final, .cons call rest⟩

end CallSequence

namespace Grammar

variable [DecidableEq ε] {rules : Rules ε ν} {source : Array ε} {owner : Nat → Grammar ε ν}
  {grammar : Grammar ε ν} {state : ParserState ν}

/-- Calls on memo tables that remember nothing at first come to what the grammar yields, each on
its own. -/
theorem exists_finishesEach_iff (rulesTabulated : rules.Tabulate owner)
    (tabulated : grammar.Tabulates owner)
    (forgotten : ∀ cell position, (state.table cell).lookup? position = none)
    (starts : List Nat) (outcomes : List (Outcome ν)) :
    (∃ final, grammar.FinishesEach rules source starts state outcomes final) ↔
      List.Forall₂ (grammar.Yields rules source) starts outcomes := by
  have begins : state.Sound rules source owner := ParserState.sound_of_forgotten forgotten
  constructor
  · rintro ⟨final, calls⟩
    exact (calls.preserves _ _ (fun start _ state outcome final sound finishes =>
      finishes.yields rulesTabulated tabulated sound) begins).1
  · intro each
    refine CallSequence.exists_of_forall₂ (fun start outcome yields state sound => ?_) each begins
    obtain ⟨final, finishes⟩ := yields.completes rulesTabulated tabulated state sound
    exact ⟨final, finishes, (finishes.yields rulesTabulated tabulated sound).2⟩

end Grammar

end RecursiveDescent
