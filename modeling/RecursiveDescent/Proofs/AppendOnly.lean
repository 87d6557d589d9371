import RecursiveDescent.Proofs.TableUse
import RecursiveDescent.Proofs.Transparency

/-!
# Memo tables only grow

A memoized parser looks its position up, runs the parser inside, and only then inserts.  In the
meantime the same memoized parser may be at work at other positions, but never at the same one: an
attempt within an attempt of itself at the same position would go on without end, and the attempt
did come to an end.  So every insertion is at a position without an entry, and no position is
completed twice.
-/

namespace RecursiveDescent

variable {ε ν : Type}

/-! ### Faithful accounts -/

/-- The account of a table agrees with the table: its entries are the completions of the parser
inside, of which there is one at a position at most, and its counts are those of invocations. -/
structure UsedTable.Faithful (used : UsedTable ν) : Prop where
  size_eq : used.table.size = used.use.completions.length
  mem_iff : ∀ position,
    position ∈ used.use.completions ↔ (used.table.lookup? position).isSome
  once : used.use.completions.Nodup
  kept : used.use.replacements = 0
  counted : used.table.hits + used.table.misses = used.use.invocations
  le_misses : used.use.completions.length ≤ used.table.misses

namespace UsedTable.Faithful

variable {table : MemoTable ν} {use : TableUse}

theorem unused : (⟨.empty, {}⟩ : UsedTable ν).Faithful where
  size_eq := by simp [MemoTable.size, MemoTable.empty]
  mem_iff position := by simp
  once := .nil
  kept := rfl
  counted := rfl
  le_misses := Nat.le_refl _

theorem hit (faithful : UsedTable.Faithful ⟨table, use⟩) :
    UsedTable.Faithful ⟨table.countHit, use.invoked⟩ where
  size_eq := faithful.size_eq
  mem_iff := faithful.mem_iff
  once := faithful.once
  kept := faithful.kept
  counted := by
    have counted := faithful.counted
    simp only [MemoTable.countHit, TableUse.invoked] at counted ⊢
    omega
  le_misses := faithful.le_misses

theorem miss (faithful : UsedTable.Faithful ⟨table, use⟩) :
    UsedTable.Faithful ⟨table.countMiss, use.invoked⟩ where
  size_eq := faithful.size_eq
  mem_iff := faithful.mem_iff
  once := faithful.once
  kept := faithful.kept
  counted := by
    have counted := faithful.counted
    simp only [MemoTable.countMiss, TableUse.invoked] at counted ⊢
    omega
  le_misses := Nat.le_succ_of_le faithful.le_misses

/-- Completing at a position without an entry, with a miss that has not completed yet, keeps an
account faithful. -/
theorem completion (faithful : UsedTable.Faithful ⟨table, use⟩) {position width : Nat}
    {value : ν} (forgotten : table.lookup? position = none)
    (pending : use.completions.length < table.misses) :
    UsedTable.Faithful
      ⟨table.remember position width value,
        use.completed position (table.lookup? position).isSome⟩ where
  size_eq := by
    have size := faithful.size_eq
    simp only [TableUse.completed, List.length_cons] at size ⊢
    rw [MemoTable.size_remember, forgotten]
    simp only [Option.isSome_none, Bool.false_eq_true, if_false]
    omega
  mem_iff query := by
    have entries := faithful.mem_iff query
    simp only [TableUse.completed, List.mem_cons] at entries ⊢
    rw [MemoTable.lookup?_remember]
    by_cases here : position = query
    · simp [here]
    · have other : ¬ query = position := fun equal => here equal.symm
      simp [here, other, entries]
  once := by
    have fresh : position ∉ use.completions := by
      intro completed
      have entry := (faithful.mem_iff position).mp completed
      simp [forgotten] at entry
    exact List.nodup_cons.mpr ⟨fresh, faithful.once⟩
  kept := by
    simp only [TableUse.completed, forgotten, Option.isSome_none, Bool.false_eq_true, if_false]
    exact faithful.kept
  counted := faithful.counted
  le_misses := pending

end UsedTable.Faithful

/-! ### Growth -/

variable [DecidableEq ε]

namespace ObservedState

/-- A memoized parser, at a position, as an attempt on the way to a site. -/
def Reached (rules : Rules ε ν) (source : Array ε) (owner : Nat → Grammar ε ν)
    (site : Site ε ν) (cell position : Nat) : Prop :=
  Relation.ReflTransGen (Grammar.Within rules source) (.memoized cell (owner cell), position) site

/-- What an attempt of a site may change: entries are added, and only at positions at which the
memoized parser was attempted on the way. -/
structure Grows (rules : Rules ε ν) (source : Array ε) (owner : Nat → Grammar ε ν)
    (site : Site ε ν) (before after : ObservedState ν) : Prop where
  keeps : ∀ cell position entry, (before.state.table cell).lookup? position = some entry →
    (after.state.table cell).lookup? position = some entry
  reached : ∀ cell position, (before.state.table cell).lookup? position = none →
    ((after.state.table cell).lookup? position).isSome →
      Reached rules source owner site cell position
  notes : ∃ later, after.seen = later ++ before.seen ∧
    ∀ used ∈ later, ∀ position, (used.table.lookup? position).isSome →
      ∃ cell, Reached rules source owner site cell position ∨
        ((before.state.table cell).lookup? position).isSome

/-- Each completion that an attempt adds comes from another miss. -/
def Pays (before after : ObservedState ν) : Prop :=
  ∀ cell, (after.used cell).use.completions.length + (before.used cell).table.misses ≤
    (before.used cell).use.completions.length + (after.used cell).table.misses

/-- The entries are matches of the owners of the tables, and all accounts are faithful. -/
structure Sound (rules : Rules ε ν) (source : Array ε) (owner : Nat → Grammar ε ν)
    (observed : ObservedState ν) : Prop where
  entries : observed.state.Sound rules source owner
  current : ∀ cell, (observed.used cell).Faithful
  seen : ∀ used ∈ observed.seen, used.Faithful

variable {rules : Rules ε ν} {source : Array ε} {owner : Nat → Grammar ε ν} {site : Site ε ν}

namespace Grows

theorem refl (site : Site ε ν) (observed : ObservedState ν) :
    Grows rules source owner site observed observed where
  keeps _ _ _ found := found
  reached cell position forgotten found := by simp [forgotten] at found
  notes := ⟨[], rfl, by simp⟩

theorem trans {first second third : ObservedState ν}
    (left : Grows rules source owner site first second)
    (right : Grows rules source owner site second third) :
    Grows rules source owner site first third where
  keeps cell position entry found :=
    right.keeps cell position entry (left.keeps cell position entry found)
  reached cell position forgotten found := by
    cases between : (second.state.table cell).lookup? position with
    | none => exact right.reached cell position between found
    | some entry => exact left.reached cell position forgotten (by simp [between])
  notes := by
    obtain ⟨earlier, grown, noted⟩ := left.notes
    obtain ⟨later, grownFurther, notedLater⟩ := right.notes
    refine ⟨later ++ earlier, by simp [grown, grownFurther], fun used member position found => ?_⟩
    rcases List.mem_append.mp member with member | member
    · obtain ⟨cell, way | present⟩ := notedLater used member position found
      · exact ⟨cell, .inl way⟩
      · cases before : (first.state.table cell).lookup? position with
        | none => exact ⟨cell, .inl (left.reached cell position before present)⟩
        | some entry => exact ⟨cell, .inr (by simp [before])⟩
    · exact noted used member position found

theorem within {inner outer : Site ε ν} {before after : ObservedState ν}
    (grows : Grows rules source owner inner before after)
    (within : Grammar.Within rules source inner outer) :
    Grows rules source owner outer before after where
  keeps := grows.keeps
  reached cell position forgotten found := (grows.reached cell position forgotten found).tail within
  notes := by
    obtain ⟨later, grown, noted⟩ := grows.notes
    refine ⟨later, grown, fun used member position found => ?_⟩
    obtain ⟨cell, way | present⟩ := noted used member position found
    · exact ⟨cell, .inl (way.tail within)⟩
    · exact ⟨cell, .inr present⟩

/-- Changing one table grows the tables if no entry is lost and all new ones are accounted for. -/
theorem changing {observed : ObservedState ν} {state : ParserState ν} (cell : Nat)
    (use : TableUse)
    (keeps : ∀ other position entry,
      (observed.state.table other).lookup? position = some entry →
        (state.table other).lookup? position = some entry)
    (reached : ∀ other position, (observed.state.table other).lookup? position = none →
      ((state.table other).lookup? position).isSome →
        Reached rules source owner site other position) :
    Grows rules source owner site observed (observed.changing cell state use) where
  keeps := keeps
  reached := reached
  notes := by
    refine ⟨[⟨state.table cell, use⟩], rfl, fun used member position found => ?_⟩
    obtain rfl := List.mem_singleton.mp member
    cases earlier : (observed.state.table cell).lookup? position with
    | none => exact ⟨cell, .inl (reached cell position earlier found)⟩
    | some entry => exact ⟨cell, .inr (by simp [earlier])⟩

theorem record (site : Site ε ν) (observed : ObservedState ν) (event : Event ν) :
    Grows rules source owner site observed (observed.record event) where
  keeps _ _ _ found := found
  reached cell position forgotten found := by
    simp only [ObservedState.record, ParserState.table_record, forgotten] at found
    cases found
  notes := ⟨[], rfl, by simp⟩

theorem answered (site : Site ε ν) (observed : ObservedState ν) (cell start width : Nat) :
    Grows rules source owner site observed (observed.answered cell start width) := by
  refine changing cell _ (fun other position entry found => ?_)
    fun other position forgotten found => ?_
  · rw [ParserState.lookup?_answered]
    exact found
  · rw [ParserState.lookup?_answered, forgotten] at found
    cases found

theorem missed (site : Site ε ν) (observed : ObservedState ν) (cell start : Nat) :
    Grows rules source owner site observed (observed.missed cell start) := by
  refine changing cell _ (fun other position entry found => ?_)
    fun other position forgotten found => ?_
  · rw [ParserState.lookup?_missed]
    exact found
  · rw [ParserState.lookup?_missed, forgotten] at found
    cases found

theorem remembering {observed : ObservedState ν} {cell start : Nat} (outcome : Outcome ν)
    (forgotten : (observed.state.table cell).lookup? start = none) :
    Grows rules source owner (.memoized cell (owner cell), start) observed
      (observed.remembering cell start outcome) := by
  cases outcome with
  | failure => exact refl _ observed
  | success width value =>
      refine changing cell _ (fun other position entry found => ?_)
        fun other position before found => ?_
      · rw [ParserState.lookup?_remembering_success]
        have elsewhere : ¬ (cell = other ∧ start = position) := by
          rintro ⟨rfl, rfl⟩
          simp [forgotten] at found
        rw [if_neg elsewhere]
        exact found
      · rw [ParserState.lookup?_remembering_success] at found
        by_cases here : cell = other ∧ start = position
        · obtain ⟨rfl, rfl⟩ := here
          exact .refl
        · rw [if_neg here, before] at found
          cases found

/-- An attempt on fresh tables grows the other ones. -/
theorem fresh {observed final : ObservedState ν} (cells : List Nat)
    (grows : Grows rules source owner site (observed.cleared cells) final) :
    Grows rules source owner site observed (ObservedState.restored cells observed final) where
  keeps cell position entry found := by
    simp only [ObservedState.restored, ParserState.table_restored]
    by_cases member : cell ∈ cells
    · rw [if_pos member]
      exact found
    · rw [if_neg member]
      refine grows.keeps cell position entry ?_
      simpa only [ObservedState.cleared, ParserState.table_cleared, if_neg member] using found
  reached cell position forgotten found := by
    simp only [ObservedState.restored, ParserState.table_restored] at found
    by_cases member : cell ∈ cells
    · rw [if_pos member, forgotten] at found
      cases found
    · rw [if_neg member] at found
      refine grows.reached cell position ?_ found
      simpa only [ObservedState.cleared, ParserState.table_cleared, if_neg member] using forgotten
  notes := by
    obtain ⟨later, grown, noted⟩ := grows.notes
    refine ⟨later, grown, fun used member position found => ?_⟩
    obtain ⟨cell, way | present⟩ := noted used member position found
    · exact ⟨cell, .inl way⟩
    · simp only [ObservedState.cleared, ParserState.table_cleared] at present
      by_cases member : cell ∈ cells
      · simp [member] at present
      · rw [if_neg member] at present
        exact ⟨cell, .inr present⟩

end Grows

namespace Sound

variable {observed : ObservedState ν}

theorem record (sound : observed.Sound rules source owner) (event : Event ν) :
    (observed.record event).Sound rules source owner :=
  ⟨sound.entries, sound.current, sound.seen⟩

/-- Changing one table faithfully. -/
theorem changing (sound : observed.Sound rules source owner) {cell : Nat} {state : ParserState ν}
    {use : TableUse} (entries : state.Sound rules source owner)
    (others : ∀ other, cell ≠ other → state.table other = observed.state.table other)
    (faithful : UsedTable.Faithful ⟨state.table cell, use⟩) :
    (observed.changing cell state use).Sound rules source owner := by
  refine ⟨entries, fun other => ?_, fun used member => ?_⟩
  · by_cases same : cell = other
    · subst same
      rw [used_changing_same]
      exact faithful
    · rw [used_changing_other observed use same (others other same)]
      exact sound.current other
  · rcases List.mem_cons.mp member with rfl | member
    · exact faithful
    · exact sound.seen used member

theorem answered (sound : observed.Sound rules source owner) (cell start width : Nat) :
    (observed.answered cell start width).Sound rules source owner := by
  refine sound.changing (sound.entries.answered cell start width) (fun other different => ?_) ?_
  · rw [ParserState.table_answered, if_neg different]
  · rw [ParserState.table_answered, if_pos rfl]
    exact (sound.current cell).hit

theorem missed (sound : observed.Sound rules source owner) (cell start : Nat) :
    (observed.missed cell start).Sound rules source owner := by
  refine sound.changing (sound.entries.missed cell start) (fun other different => ?_) ?_
  · rw [ParserState.table_missed, if_neg different]
  · rw [ParserState.table_missed, if_pos rfl]
    exact (sound.current cell).miss

theorem remembering (sound : observed.Sound rules source owner) {cell start : Nat}
    {outcome : Outcome ν} (yields : (owner cell).Yields rules source start outcome)
    (forgotten : (observed.state.table cell).lookup? start = none)
    (pending : (observed.used cell).use.completions.length <
      (observed.used cell).table.misses) :
    (observed.remembering cell start outcome).Sound rules source owner := by
  cases outcome with
  | failure => exact sound
  | success width value =>
      refine sound.changing (sound.entries.remembering yields) (fun other different => ?_) ?_
      · rw [ParserState.table_remembering_success, if_neg different]
      · rw [ParserState.table_remembering_success, if_pos rfl]
        exact (sound.current cell).completion forgotten pending

theorem cleared (sound : observed.Sound rules source owner) (cells : List Nat) :
    (observed.cleared cells).Sound rules source owner := by
  refine ⟨sound.entries.cleared cells, fun cell => ?_, sound.seen⟩
  rw [used_cleared]
  split
  · exact .unused
  · exact sound.current cell

theorem restored {former : ObservedState ν} (sound : observed.Sound rules source owner)
    (soundBefore : former.Sound rules source owner) (cells : List Nat) :
    (ObservedState.restored cells former observed).Sound rules source owner := by
  refine ⟨sound.entries.restored soundBefore.entries cells, fun cell => ?_, sound.seen⟩
  rw [used_restored]
  split
  · exact soundBefore.current cell
  · exact sound.current cell

end Sound

end ObservedState

namespace ObservedState

namespace Pays

variable {first second third : ObservedState ν}

theorem refl (observed : ObservedState ν) : Pays observed observed :=
  fun _ => Nat.le_refl _

theorem trans (left : Pays first second) (right : Pays second third) : Pays first third := by
  intro cell
  have paid := left cell
  have paidAfterwards := right cell
  omega

theorem answered (observed : ObservedState ν) (cell start width : Nat) :
    Pays observed (observed.answered cell start width) := by
  intro other
  unfold ObservedState.answered
  by_cases same : cell = other
  · subst same
    rw [used_changing_same, ParserState.table_answered, if_pos rfl]
    exact Nat.le_refl _
  · refine Nat.le_of_eq ?_
    rw [used_changing_other observed _ same (by rw [ParserState.table_answered, if_neg same])]

/-- A miss and what follows it pay for a completion. -/
theorem remembering {observed middle : ObservedState ν} {cell start : Nat}
    (pays : Pays (observed.missed cell start) middle) (outcome : Outcome ν) :
    Pays observed (middle.remembering cell start outcome) := by
  intro other
  have paid := pays other
  unfold ObservedState.missed at paid
  by_cases same : cell = other
  · subst same
    rw [used_changing_same, ParserState.table_missed, if_pos rfl] at paid
    have room : (middle.used cell).use.completions.length + 1 +
        (observed.used cell).table.misses ≤
          (observed.used cell).use.completions.length + (middle.used cell).table.misses := by
      simp only [MemoTable.countMiss, TableUse.invoked] at paid
      simp only [used] at paid ⊢
      omega
    cases outcome with
    | failure =>
        simp only [ObservedState.remembering]
        omega
    | success width value =>
        simp only [ObservedState.remembering]
        rw [used_changing_same, ParserState.table_remembering_success, if_pos rfl]
        exact room
  · have missedSame : (observed.state.missed cell start).table other =
        observed.state.table other := by
      rw [ParserState.table_missed, if_neg same]
    rw [used_changing_other observed _ same missedSame] at paid
    cases outcome with
    | failure => exact paid
    | success width value =>
        simp only [ObservedState.remembering]
        rw [used_changing_other middle _ same
          (by rw [ParserState.table_remembering_success, if_neg same])]
        exact paid

theorem fresh {observed final : ObservedState ν} (cells : List Nat)
    (pays : Pays (observed.cleared cells) final) :
    Pays observed (ObservedState.restored cells observed final) := by
  intro cell
  have paid := pays cell
  rw [used_cleared] at paid
  rw [used_restored]
  split
  · exact Nat.le_refl _
  · next elsewhere =>
      rw [if_neg elsewhere] at paid
      exact paid

end Pays

variable {rules : Rules ε ν} {source : Array ε} {owner : Nat → Grammar ε ν}

/-- While a memoized parser is at work at a position, nothing is inserted there: it would have to
be an attempt within itself. -/
theorem Grows.forgotten {observed middle : ObservedState ν} {cell start : Nat}
    {outcome : Outcome ν}
    (grows : Grows rules source owner (owner cell, start) (observed.missed cell start) middle)
    (yields : (owner cell).Yields rules source start outcome)
    (forgotten : (observed.state.table cell).lookup? start = none) :
    (middle.state.table cell).lookup? start = none := by
  have forgottenMissed : ((observed.missed cell start).state.table cell).lookup? start = none := by
    simp only [ObservedState.missed, ObservedState.changing, ParserState.lookup?_missed]
    exact forgotten
  have whole : (Grammar.memoized cell (owner cell)).Yields rules source start outcome :=
    .passed rfl yields
  cases inserted : (middle.state.table cell).lookup? start with
  | none => rfl
  | some entry =>
      -- The entry would stem from an attempt of the same parser at the same position, within this
      -- one.
      have way := grows.reached cell start forgottenMissed (by simp [inserted])
      exact absurd (Relation.TransGen.tail' way (.part rfl)) whole.not_within_itself

end ObservedState

/-- Observed runs lead from faithful accounts to faithful accounts, and only add entries. -/
def appendOnly (rules : Rules ε ν) (source : Array ε) (owner : Nat → Grammar ε ν) :
    Discipline Engine.observing rules source owner where
  sound := ObservedState.Sound rules source owner
  change site before after :=
    ObservedState.Grows rules source owner site before after ∧ ObservedState.Pays before after
  change_refl site observed := ⟨.refl site observed, .refl observed⟩
  change_trans _ _ _ _ left right := ⟨left.1.trans right.1, left.2.trans right.2⟩
  change_within _ _ _ _ within change := ⟨change.1.within within, change.2⟩
  sound_record event _ sound := sound.record event
  change_record site event observed :=
    ⟨.record site observed event, .refl observed⟩
  realizes_memoized := by
    intro cell start parser realized observed outcome final sound finished
    cases found : (observed.state.table cell).lookup? start with
    | some entry =>
        obtain ⟨width, value⟩ := entry
        simp only [Engine.observing, found] at finished
        cases finished
        exact ⟨.passed rfl (sound.entries cell start width value found),
          sound.answered cell start width, .answered _ observed cell start width,
          .answered observed cell start width⟩
    | none =>
        simp only [Engine.observing, found] at finished
        obtain ⟨⟨result, middle⟩, begun, ended⟩ := Option.map_eq_some_iff.mp finished
        cases ended
        obtain ⟨yields, kept, grows, pays⟩ :=
          realized _ result middle (sound.missed cell start) begun
        have forgotten := grows.forgotten yields found
        have through := (ObservedState.Grows.missed (.memoized cell (owner cell), start) observed
          cell start).trans (grows.within (.part rfl))
        have pending : (middle.used cell).use.completions.length <
            (middle.used cell).table.misses := by
          have paid := pays cell
          have enough := (sound.current cell).le_misses
          unfold ObservedState.missed at paid
          rw [ObservedState.used_changing_same, ParserState.table_missed, if_pos rfl] at paid
          simp only [MemoTable.countMiss, TableUse.invoked] at paid
          simp only [ObservedState.used] at enough paid ⊢
          omega
        exact ⟨.passed rfl yields, kept.remembering yields forgotten pending,
          through.trans (.remembering result forgotten), pays.remembering result⟩
  realizes_withFreshTables := by
    intro cells inner start parser realized observed outcome final sound finished
    obtain ⟨⟨result, middle⟩, begun, ended⟩ := Option.map_eq_some_iff.mp finished
    cases ended
    obtain ⟨yields, kept, grows, pays⟩ := realized _ result middle (sound.cleared cells) begun
    exact ⟨.passed rfl yields, kept.restored sound cells, (grows.within (.part rfl)).fresh cells,
      pays.fresh cells⟩

/-! ### Positions inside the source -/

namespace Grammar

variable {rules : Rules ε ν} {source : Array ε} {owner : Nat → Grammar ε ν}

/-- Attempts within an attempt inside the source are inside the source. -/
theorem le_size_of_within {inner outer : Site ε ν} (functionFree : outer.1.FunctionFree)
    (rulesFunctionFree : rules.FunctionFree) (spanned : source.size < lastPosition)
    (begins : outer.2 ≤ source.size) (within : Within rules source inner outer) :
    inner.2 ≤ source.size := by
  cases within with
  | part _ => exact begins
  | first _ => exact begins
  | next shape beginning =>
      have firstFree := functionFree.within hereditary_noFunction rulesFunctionFree (.first shape)
      exact beginning.add_advance_le firstFree rulesFunctionFree spanned begins

/-- All attempts within a grammar that starts inside the source start inside the source. -/
theorem le_size_of_inside {grammar : Grammar ε ν} {start : Nat} {site : Site ε ν}
    (way : Relation.ReflTransGen (Within rules source) site (grammar, start))
    (functionFree : grammar.FunctionFree) (rulesFunctionFree : rules.FunctionFree)
    (spanned : source.size < lastPosition) (begins : start ≤ source.size) :
    site.2 ≤ source.size := by
  have inside : site.1.FunctionFree ∧ site.2 ≤ source.size := by
    induction way using Relation.ReflTransGen.head_induction_on with
    | refl => exact ⟨functionFree, begins⟩
    | head within _ outerCase =>
        exact ⟨outerCase.1.within hereditary_noFunction rulesFunctionFree within,
          le_size_of_within outerCase.1 rulesFunctionFree spanned outerCase.2 within⟩
  exact inside.2

theorem le_size_of_reached {grammar : Grammar ε ν} {start cell position : Nat}
    (reached : ObservedState.Reached rules source owner (grammar, start) cell position)
    (functionFree : grammar.FunctionFree) (rulesFunctionFree : rules.FunctionFree)
    (spanned : source.size < lastPosition) (begins : start ≤ source.size) :
    position ≤ source.size :=
  le_size_of_inside reached functionFree rulesFunctionFree spanned begins

end Grammar

namespace UsedTable

/-- A table whose entries are at positions up to a limit has no more entries than positions. -/
theorem Faithful.size_le {used : UsedTable ν} (faithful : used.Faithful) {limit : Nat}
    (bounded : ∀ position, (used.table.lookup? position).isSome → position ≤ limit) :
    used.table.size ≤ limit + 1 := by
  have positions : used.use.completions ⊆ List.range (limit + 1) := by
    intro position completed
    have entry := (faithful.mem_iff position).mp completed
    have inside := bounded position entry
    exact List.mem_range.mpr (by omega)
  have fewer := faithful.once.length_le_of_subset positions
  rw [List.length_range] at fewer
  rw [faithful.size_eq]
  exact fewer

end UsedTable

/-! ### Calls -/

namespace Grammar

variable {rules : Rules ε ν} {source : Array ε} {owner : Nat → Grammar ε ν}
  {grammar : Grammar ε ν} {starts : List Nat} {outcomes : List (Outcome ν)}

/-- Calls of a grammar on one source, with an account of the use of memo tables. -/
abbrev ObservedEach (grammar : Grammar ε ν) (rules : Rules ε ν) (source : Array ε) :
    List Nat → ObservedState ν → List (Outcome ν) → ObservedState ν → Prop :=
  CallSequence fun start observed result =>
    ∃ steps, grammar.runOn Engine.observing rules steps source start observed = some result

/-- All calls can be observed. -/
theorem exists_observedEach {state final : ParserState ν}
    (calls : grammar.FinishesEach rules source starts state outcomes final)
    (observed : ObservedState ν) (same : observed.state = state) :
    ∃ last, grammar.ObservedEach rules source starts observed outcomes last ∧
      last.state = final := by
  induction calls generalizing observed with
  | nil state => exact ⟨observed, .nil observed, same⟩
  | @cons start starts state outcome middle outcomes final call _ restCase =>
      obtain ⟨steps, finished⟩ := call
      subst same
      have projected := Engine.observingProjection.runOn rules steps grammar source start observed
      rw [run_eq_runOn] at finished
      obtain ⟨⟨result, reached⟩, ran, seen⟩ :=
        Option.map_eq_some_iff.mp (projected.symm.trans finished)
      cases seen
      obtain ⟨last, rest, ends⟩ := restCase reached rfl
      exact ⟨last, .cons ⟨steps, ran⟩ rest, ends⟩

theorem sound_ofState {state : ParserState ν} (empty : ∀ cell, state.table cell = .empty) :
    (ObservedState.ofState state).Sound rules source owner where
  entries := ParserState.sound_of_forgotten fun cell position => by
    simp [ObservedState.ofState, empty]
  current cell := by
    have unused : (ObservedState.ofState state).used cell = ⟨.empty, {}⟩ := by
      simp [ObservedState.used, ObservedState.ofState, empty]
    rw [unused]
    exact .unused
  seen := by simp [ObservedState.ofState]

/-- The positions of entries lie inside the source. -/
def EntriesInside (source : Array ε) (observed : ObservedState ν) : Prop :=
  (∀ cell position, ((observed.used cell).table.lookup? position).isSome →
    position ≤ source.size) ∧
  ∀ used ∈ observed.seen, ∀ position, (used.table.lookup? position).isSome →
    position ≤ source.size

omit [DecidableEq ε] in
theorem entriesInside_ofState (source : Array ε) {state : ParserState ν}
    (empty : ∀ cell, state.table cell = .empty) :
    EntriesInside source (ObservedState.ofState state) := by
  refine ⟨fun cell position entry => ?_, by simp [ObservedState.ofState]⟩
  simp [ObservedState.used, ObservedState.ofState, empty] at entry

theorem EntriesInside.grows {start : Nat} {before after : ObservedState ν}
    (inside : EntriesInside source before)
    (grows : ObservedState.Grows rules source owner (grammar, start) before after)
    (functionFree : grammar.FunctionFree) (rulesFunctionFree : rules.FunctionFree)
    (spanned : source.size < lastPosition) (begins : start ≤ source.size) :
    EntriesInside source after := by
  refine ⟨fun cell position entry => ?_, fun used member position entry => ?_⟩
  · cases found : (before.state.table cell).lookup? position with
    | some former => exact inside.1 cell position (by simp [ObservedState.used, found])
    | none =>
        exact le_size_of_reached (grows.reached cell position found entry) functionFree
          rulesFunctionFree spanned begins
  · obtain ⟨later, grown, noted⟩ := grows.notes
    rw [grown] at member
    rcases List.mem_append.mp member with fresh | older
    · obtain ⟨cell, way | present⟩ := noted used fresh position entry
      · exact le_size_of_reached way functionFree rulesFunctionFree spanned begins
      · exact inside.1 cell position present
    · exact inside.2 used older position entry

/-- A property that survives the growth of tables in one call, in states with sound accounts, holds
after any number of calls, and the accounts stay sound. -/
theorem observedEach_preserves (rulesTabulated : rules.Tabulate owner)
    (tabulated : grammar.Tabulates owner) {before after : ObservedState ν}
    (calls : grammar.ObservedEach rules source starts before outcomes after)
    (property : ObservedState ν → Prop)
    (step : ∀ start ∈ starts, ∀ first second, property first →
      ObservedState.Grows rules source owner (grammar, start) first second → property second)
    (sound : before.Sound rules source owner) (begins : property before) :
    after.Sound rules source owner ∧ property after := by
  refine (calls.preserves
    (fun observed => observed.Sound rules source owner ∧ property observed)
    (grammar.Yields rules source) ?_ ⟨sound, begins⟩).2
  rintro start member first outcome second ⟨soundFirst, holds⟩ ⟨steps, finished⟩
  obtain ⟨yields, kept, grows, _⟩ := (appendOnly rules source owner).realizes_runOn
    rulesTabulated steps grammar tabulated start first outcome second soundFirst finished
  exact ⟨yields, kept, step start member first second holds grows⟩

/-- Calls from empty tables never replace an entry and complete each memoized parser at most once
at a position.  The accounts that say so are those of the tables that the calls leave behind, and
of all tables on the way, also of those that belonged to single attempts.  Further calls keep all
entries.  Without functions on positions, no table ever has more entries than the source has
positions, its end included. -/
theorem memo_tables_append_only
    (rulesTabulated : rules.Tabulate owner) (tabulated : grammar.Tabulates owner)
    {state final : ParserState ν} (empty : ∀ cell, state.table cell = .empty)
    (calls : grammar.FinishesEach rules source starts state outcomes final) :
    ∃ observed, grammar.ObservedEach rules source starts (.ofState state) outcomes observed ∧
      observed.state = final ∧
      (∀ cell, (observed.used cell).Faithful) ∧
      (∀ used ∈ observed.seen, used.Faithful) ∧
      (∀ others results last, grammar.FinishesEach rules source others final results last →
        ∀ cell position entry, (final.table cell).lookup? position = some entry →
          (last.table cell).lookup? position = some entry) ∧
      (grammar.FunctionFree → rules.FunctionFree → source.size < lastPosition →
        (∀ start ∈ starts, start ≤ source.size) →
          (∀ cell, (final.table cell).size ≤ source.size + 1) ∧
          ∀ used ∈ observed.seen, used.table.size ≤ source.size + 1) := by
  obtain ⟨observed, ran, rfl⟩ := exists_observedEach calls (.ofState state) rfl
  have sound : observed.Sound rules source owner :=
    (observedEach_preserves rulesTabulated tabulated ran (fun _ => True)
      (fun _ _ _ _ _ _ => trivial) (sound_ofState empty) trivial).1
  refine ⟨observed, ran, rfl, sound.current, sound.seen, ?_, ?_⟩
  · intro others results last further cell position entry found
    obtain ⟨reached, ranFurther, rfl⟩ := exists_observedEach further observed rfl
    exact (observedEach_preserves rulesTabulated tabulated ranFurther
      (fun after => (after.state.table cell).lookup? position = some entry)
      (fun _ _ _ _ present grows => grows.keeps cell position entry present) sound found).2
  · intro functionFree rulesFunctionFree spanned begins
    have inside : EntriesInside source observed :=
      (observedEach_preserves rulesTabulated tabulated ran (EntriesInside source)
        (fun start member _ _ inside grows =>
          inside.grows grows functionFree rulesFunctionFree spanned (begins start member))
        (sound_ofState empty) (entriesInside_ofState source empty)).2
    exact ⟨fun cell => (sound.current cell).size_le (inside.1 cell),
      fun used member => (sound.seen used member).size_le (inside.2 used member)⟩

theorem functionFree_positives : Rules.FunctionFree #[.forward (some positives)] :=
  Rules.throughout_single
    ⟨trivial, ⟨trivial, ⟨trivial, trivial⟩, trivial, trivial⟩, trivial, trivial⟩

theorem memo_tables_append_only_positives :
    ∃ observed, (memoized 1 (.rule 0)).ObservedEach #[.forward (some positives)] #[3, 5, 0] [0]
      (.ofState .initial) [.success 2 2] observed ∧
      (∀ used ∈ observed.seen, used.Faithful) ∧
      ∀ cell, (observed.state.table cell).size ≤ 4 := by
  obtain ⟨final, finishes⟩ := yields_positives.completes tabulate_positives tabulates_positives
    .initial (ParserState.sound_of_forgotten fun cell position => by simp)
  obtain ⟨observed, ran, rfl, _, seen, _, bounded⟩ := memo_tables_append_only tabulate_positives
    tabulates_positives (fun cell => by simp) (.cons finishes (.nil final))
  have inside := bounded ⟨trivial, trivial⟩ functionFree_positives (by decide) (by simp)
  exact ⟨observed, ran, seen, inside.1⟩

end Grammar

end RecursiveDescent
