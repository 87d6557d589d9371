import RecursiveDescent.Proofs.AppendOnly
import RecursiveDescent.Proofs.MemoizedEvents

/-!
# Runs stay inside the source

Whoever uses an outcome adds its width to a position or takes that many elements out of the
source.  This is safe because a match without functions on positions never consumes more than
remains, and nothing at all from a position past the end.  So a run that starts inside the source
never attempts anything at a position past the end.

What a run attempts is told by its journal as well: every event that is not about a memo table
comes from an attempt within the grammar, and so from a position inside the source.
-/

namespace RecursiveDescent

variable {ε ν : Type} [DecidableEq ε]

namespace Outcome

/-- A match consumes no more than remains in the source, and nothing behind its end. -/
def Confined (source : Array ε) (start : Nat) (outcome : Outcome ν) : Prop :=
  ∀ consumed value, outcome = .success consumed value →
    (start ≤ source.size → consumed ≤ source.size - start) ∧
      (source.size < start → consumed = 0)

omit [DecidableEq ε] in
theorem Inside.confined {source : Array ε} {start : Nat} {outcome : Outcome ν}
    (inside : outcome.Inside source start) (spanned : source.size < lastPosition) :
    outcome.Confined source start := by
  rintro consumed value rfl
  have advanced : (Outcome.success consumed value).advance = consumed := rfl
  rw [Outcome.Inside, advanced] at inside
  constructor
  · intro begins
    rcases inside with nothing | ⟨_, ends⟩
    · omega
    · have bounded := ends spanned
      omega
  · intro past
    rcases inside with nothing | ⟨begins, _⟩
    · exact nothing
    · omega

end Outcome

namespace Grammar

variable {rules : Rules ε ν} {source : Array ε} {owner : Nat → Grammar ε ν}

/-- The event comes from attempting the site. -/
def ComesFrom (rules : Rules ε ν) (source : Array ε) (site : Site ε ν) (event : Event ν) : Prop :=
  event ∈ site.1.eventsBefore rules source site.2 ∨
    ∃ outcome, event ∈ site.1.eventsAfter site.2 outcome

/-- Every event of a match comes from an attempt within it. -/
theorem Records.exists_site {grammar : Grammar ε ν} {start : Nat} {outcome : Outcome ν}
    {events : List (Event ν)} (records : grammar.Records rules source start outcome events)
    {event : Event ν} (recorded : event ∈ events) :
    ∃ site, Relation.ReflTransGen (Within rules source) site (grammar, start) ∧
      ComesFrom rules source site event := by
  induction records with
  | settled shape => exact ⟨_, .refl, .inl recorded⟩
  | adjusted shape inside insideCase =>
      rcases List.mem_append.mp recorded with before | others
      · exact ⟨_, .refl, .inl before⟩
      · rcases List.mem_append.mp others with within | after
        · obtain ⟨site, way, origin⟩ := insideCase within
          exact ⟨site, way.tail (.part shape), origin⟩
        · exact ⟨_, .refl, .inr ⟨_, after⟩⟩
  | continued shape beginning following beginningCase followingCase =>
      rcases List.mem_append.mp recorded with before | others
      · exact ⟨_, .refl, .inl before⟩
      · rcases List.mem_append.mp others with within | rest
        · obtain ⟨site, way, origin⟩ := beginningCase within
          exact ⟨site, way.tail (.first shape), origin⟩
        · rcases List.mem_append.mp rest with after | within
          · exact ⟨_, .refl, .inr ⟨_, after⟩⟩
          · obtain ⟨site, way, origin⟩ := followingCase within
            exact ⟨site, way.tail (.next shape beginning.yields), origin⟩

/-- The events between two states are about memo tables or come from attempts within the grammar,
called at one of the positions, and these attempts are inside the source. -/
def EntersInside (grammar : Grammar ε ν) (rules : Rules ε ν) (source : Array ε)
    (starts : List Nat) (before after : ParserState ν) : Prop :=
  ∃ entered, after.events = before.events ++ entered ∧
    ∀ event ∈ entered, event.isTableRecord ∨ ∃ start ∈ starts, ∃ site,
      Relation.ReflTransGen (Within rules source) site (grammar, start) ∧
        site.2 ≤ source.size ∧ ComesFrom rules source site event

variable {grammar : Grammar ε ν} {starts : List Nat} {first second third : ParserState ν}

theorem EntersInside.refl : grammar.EntersInside rules source starts first first :=
  ⟨[], (List.append_nil _).symm, fun _ absent => absurd absent List.not_mem_nil⟩

theorem EntersInside.trans (begun : grammar.EntersInside rules source starts first second)
    (ended : grammar.EntersInside rules source starts second third) :
    grammar.EntersInside rules source starts first third := by
  obtain ⟨entered, within, inside⟩ := begun
  obtain ⟨later, following, insideToo⟩ := ended
  refine ⟨entered ++ later, by rw [following, within, List.append_assoc], fun event member => ?_⟩
  rcases List.mem_append.mp member with early | late
  · exact inside event early
  · exact insideToo event late

/-- One call on sound memo tables enters only events from inside the source. -/
theorem Finishes.entersInside {start : Nat} {outcome : Outcome ν} {state final : ParserState ν}
    (finishes : grammar.Finishes rules source start state (outcome, final))
    (rulesTabulated : rules.Tabulate owner) (tabulated : grammar.Tabulates owner)
    (functionFree : grammar.FunctionFree) (rulesFunctionFree : rules.FunctionFree)
    (spanned : source.size < lastPosition) (sound : state.Sound rules source owner)
    (member : start ∈ starts) (begins : start ≤ source.size) :
    grammar.EntersInside rules source starts state final := by
  obtain ⟨events, records, _, entered, within, fewer⟩ :=
    finishes.entersOf rulesTabulated tabulated sound
  refine ⟨entered, within, fun event present => ?_⟩
  cases kind : event.isTableRecord with
  | true => exact .inl rfl
  | false =>
      have ordinary : event ∈ Event.ordinary entered := by
        unfold Event.ordinary
        rw [List.mem_filter, kind]
        exact ⟨present, rfl⟩
      obtain ⟨site, way, origin⟩ := records.exists_site (fewer.subset ordinary)
      have inside := le_size_of_inside way functionFree rulesFunctionFree spanned begins
      exact .inr ⟨start, member, site, way, inside, origin⟩

/-- Calls of a grammar without functions on positions, on memo tables that remember nothing at
first, consume no more than remains of the source, and nothing when they start past its end.
Every attempt within a call that starts inside the source starts inside the source, and so do all
attempts that the journal tells of. -/
theorem consumption_confined (rulesTabulated : rules.Tabulate owner)
    (tabulated : grammar.Tabulates owner) (functionFree : grammar.FunctionFree)
    (rulesFunctionFree : rules.FunctionFree) (spanned : source.size < lastPosition)
    {state final : ParserState ν}
    (forgotten : ∀ cell position, (state.table cell).lookup? position = none)
    {outcomes : List (Outcome ν)}
    (calls : grammar.FinishesEach rules source starts state outcomes final) :
    List.Forall₂ (Outcome.Confined source) starts outcomes ∧
      (∀ start ≤ source.size, ∀ site,
        Relation.ReflTransGen (Within rules source) site (grammar, start) →
          site.2 ≤ source.size) ∧
      ((∀ start ∈ starts, start ≤ source.size) →
        grammar.EntersInside rules source starts state final) := by
  have begins : state.Sound rules source owner := ParserState.sound_of_forgotten forgotten
  refine ⟨?_, ?_, ?_⟩
  · refine (calls.preserves (ParserState.Sound rules source owner) _
      (fun start _ before outcome after sound finishes => ?_) begins).1
    obtain ⟨yields, kept⟩ := finishes.yields rulesTabulated tabulated sound
    exact ⟨(yields.inside functionFree rulesFunctionFree).confined spanned, kept⟩
  · intro start inside site way
    exact le_size_of_inside way functionFree rulesFunctionFree spanned inside
  · intro inside
    refine (calls.preserves
      (fun reached => reached.Sound rules source owner ∧
        grammar.EntersInside rules source starts state reached)
      (fun _ _ => True) (fun start member before outcome after reached finishes => ?_)
      ⟨begins, .refl⟩).2.2
    obtain ⟨sound, entered⟩ := reached
    have enters := finishes.entersInside rulesTabulated tabulated functionFree rulesFunctionFree
      spanned sound member (inside start member)
    have kept := (finishes.yields rulesTabulated tabulated sound).2
    exact ⟨trivial, kept, entered.trans enters⟩

def anyPositives : Grammar Nat Nat :=
  .optional (.memoized 1 (.rule 0)) 0

theorem consumption_confined_anyPositives :
    ∃ final, anyPositives.FinishesEach #[.forward (some positives)] #[3, 5, 0] [0, 7] .initial
        [.success 2 2, .success 0 0] final ∧
      (Outcome.success 2 2 : Outcome Nat).Confined #[3, 5, 0] 0 ∧
      (Outcome.success 0 0 : Outcome Nat).Confined #[3, 5, 0] 7 := by
  have tabulated : anyPositives.Tabulates positivesOwner := ⟨trivial, rfl, trivial⟩
  have yields : anyPositives.Yields #[.forward (some positives)] #[3, 5, 0] 0 (.success 2 2) := by
    rw [← exists_finishes_withoutTables_iff, withoutTables_positives]
    exact ⟨_, 5, rfl⟩
  have yieldsPast :
      anyPositives.Yields #[.forward (some positives)] #[3, 5, 0] 7 (.success 0 0) := by
    rw [← exists_finishes_withoutTables_iff, withoutTables_positives]
    exact ⟨_, 5, rfl⟩
  have sound : (ParserState.initial : ParserState Nat).Sound #[.forward (some positives)]
      #[3, 5, 0] positivesOwner := ParserState.sound_of_forgotten fun cell position => by simp
  obtain ⟨middle, finishes⟩ := yields.completes tabulate_positives tabulated .initial sound
  have soundMiddle := (finishes.yields tabulate_positives tabulated sound).2
  obtain ⟨final, finishesPast⟩ :=
    yieldsPast.completes tabulate_positives tabulated middle soundMiddle
  have calls : anyPositives.FinishesEach #[.forward (some positives)] #[3, 5, 0] [0, 7] .initial
      [.success 2 2, .success 0 0] final :=
    .cons finishes (.cons finishesPast (.nil final))
  have confined := (consumption_confined tabulate_positives tabulated ⟨trivial, trivial, trivial⟩
    functionFree_positives (by decide) (fun cell position => by simp) calls).1
  obtain ⟨inside, rest⟩ := List.forall₂_cons.mp confined
  exact ⟨final, calls, inside, (List.forall₂_cons.mp rest).1⟩

end Grammar

end RecursiveDescent
