import RecursiveDescent.Proofs.Calls

/-!
# Memoization is transparent

Erasing all memo tables from a grammar and from its rules leaves a grammar that yields the same
outcomes.  So a grammar whose tables are empty at first, called any number of times on one source,
answers each call as the erased grammar does, and its tables never hold anything but matches of
the erased parsers that they belong to.
-/

namespace RecursiveDescent

variable {ε ν : Type}

/-! ### Erasing memo tables -/

/-- The grammar without its memo tables. -/
def Grammar.withoutTables : Grammar ε ν → Grammar ε ν
  | .element test value => .element test value
  | .literal expected value => .literal expected value
  | .fixedWidth width read => .fixedWidth width read
  | .succeed value => .succeed value
  | .fail => .fail
  | .endOfInput value => .endOfInput value
  | .ofFunction function => .ofFunction function
  | .sequence first second combine => .sequence first.withoutTables second.withoutTables combine
  | .choice first second => .choice first.withoutTables second.withoutTables
  | .optional inner fallback => .optional inner.withoutTables fallback
  | .repeated item collector bounds => .repeated item.withoutTables collector bounds
  | .ahead inner => .ahead inner.withoutTables
  | .notAhead inner value => .notAhead inner.withoutTables value
  | .delimited item delimiter combine headCollector =>
      .delimited item.withoutTables delimiter.withoutTables combine headCollector
  | .separated item delimiter collector =>
      .separated item.withoutTables delimiter.withoutTables collector
  | .bind first binder => .bind first.withoutTables fun outcome => (binder outcome).withoutTables
  | .map inner function => .map inner.withoutTables function
  | .tryMap inner function => .tryMap inner.withoutTables function
  | .filter inner accepts => .filter inner.withoutTables accepts
  | .recognize inner read => .recognize inner.withoutTables read
  | .before tag inner => .before tag inner.withoutTables
  | .onSuccess tag inner => .onSuccess tag inner.withoutTables
  | .onFailure tag inner => .onFailure tag inner.withoutTables
  | .traced name inner => .traced name inner.withoutTables
  | .memoized _ inner => inner.withoutTables
  | .rebuilt _ inner => .rebuilt [] inner.withoutTables
  | .deferred tag inner => .deferred tag inner.withoutTables
  | .rule index => .rule index

def Rule.withoutTables : Rule ε ν → Rule ε ν
  | .recursive tag _ body => .recursive tag [] body.withoutTables
  | .forward definition => .forward (definition.map Grammar.withoutTables)

def Rules.withoutTables (rules : Rules ε ν) : Rules ε ν :=
  rules.map Rule.withoutTables

/-- The form whose parts have been changed. -/
def Form.mapParts (change : Grammar ε ν → Grammar ε ν) : Form ε ν → Form ε ν
  | .settled outcome => .settled outcome
  | .adjusted part adjust => .adjusted (change part) adjust
  | .continued first next => .continued (change first) fun outcome => change (next outcome)

theorem Rules.body?_withoutTables (rules : Rules ε ν) (index : Nat) :
    rules.withoutTables.body? index = (rules.body? index).map Grammar.withoutTables := by
  unfold Rules.body? Rules.withoutTables
  rw [Array.getElem?_map]
  cases rules[index]? with
  | none => rfl
  | some rule => cases rule <;> rfl

namespace Grammar

theorem tabulates_withoutTables (owner : Nat → Grammar ε ν) (grammar : Grammar ε ν) :
    grammar.withoutTables.Tabulates owner := by
  induction grammar with
  | element _ _ | literal _ _ | fixedWidth _ _ | succeed _ | fail | endOfInput _ | ofFunction _
  | rule _ => trivial
  | sequence first second combine firstCase secondCase => exact ⟨trivial, firstCase, secondCase⟩
  | choice first second firstCase secondCase => exact ⟨trivial, firstCase, secondCase⟩
  | delimited item delimiter combine headCollector itemCase delimiterCase =>
      exact ⟨trivial, itemCase, delimiterCase⟩
  | separated item delimiter collector itemCase delimiterCase =>
      exact ⟨trivial, itemCase, delimiterCase⟩
  | bind first binder firstCase binderCase => exact ⟨trivial, firstCase, binderCase⟩
  | memoized cell inner innerCase => exact innerCase
  | optional inner _ innerCase | repeated inner _ _ innerCase | ahead inner innerCase
  | notAhead inner _ innerCase | map inner _ innerCase | tryMap inner _ innerCase
  | filter inner _ innerCase | recognize inner _ innerCase | before _ inner innerCase
  | onSuccess _ inner innerCase | onFailure _ inner innerCase | traced _ inner innerCase
  | rebuilt _ inner innerCase | deferred _ inner innerCase => exact ⟨trivial, innerCase⟩

theorem tabulate_withoutTables (rules : Rules ε ν) (owner : Nat → Grammar ε ν) :
    rules.withoutTables.Tabulate owner := by
  intro index body found
  rw [rules.body?_withoutTables] at found
  obtain ⟨whole, _, rfl⟩ := Option.map_eq_some_iff.mp found
  exact whole.tabulates_withoutTables owner

variable [DecidableEq ε] {rules : Rules ε ν} {source : Array ε}

/-- Erasing memo tables erases them from the parts, except that a memoized grammar vanishes. -/
theorem form_withoutTables (rules : Rules ε ν) (source : Array ε) {grammar : Grammar ε ν}
    (visible : ∀ cell inner, grammar ≠ memoized cell inner) :
    grammar.withoutTables.form rules.withoutTables source =
      (grammar.form rules source).mapParts withoutTables := by
  cases grammar with
  | memoized cell inner => exact absurd rfl (visible cell inner)
  | sequence first second combine =>
      refine congrArg (Form.continued _) (funext fun outcome => ?_)
      cases outcome <;> rfl
  | choice first second =>
      refine congrArg (Form.continued _) (funext fun outcome => ?_)
      cases outcome <;> rfl
  | delimited item delimiter combine headCollector =>
      refine congrArg (Form.continued _) (funext fun outcome => ?_)
      cases outcome <;> rfl
  | separated item delimiter collector =>
      refine congrArg (Form.continued _) (funext fun outcome => ?_)
      cases outcome <;> rfl
  | repeated item collector bounds =>
      by_cases more : bounds.allowsMore 0
      · simp only [withoutTables, form, more, if_true, Form.mapParts]
        refine congrArg (Form.continued _) (funext fun outcome => ?_)
        cases outcome with
        | success width value => rfl
        | failure => by_cases few : 0 < bounds.minimum <;> simp [repetition, few, withoutTables]
      · simp [withoutTables, form, more, Form.mapParts]
  | rule index =>
      simp only [withoutTables, form, rules.body?_withoutTables]
      cases rules.body? index <;> rfl
  | _ => rfl

/-- What a grammar yields, it yields without its memo tables. -/
theorem Yields.withoutTables {grammar : Grammar ε ν} {start : Nat} {outcome : Outcome ν}
    (yields : grammar.Yields rules source start outcome) :
    grammar.withoutTables.Yields rules.withoutTables source start outcome := by
  induction yields with
  | @settled grammar outcome start shape =>
      have visible : ∀ cell inner, grammar ≠ memoized cell inner := by
        rintro cell inner rfl
        cases shape
      have erased := form_withoutTables rules source visible
      rw [shape] at erased
      exact .settled erased
  | @adjusted grammar part adjust start outcome shape inside insideCase =>
      by_cases visible : ∀ cell inner, grammar ≠ memoized cell inner
      · have erased := form_withoutTables rules source visible
        rw [shape] at erased
        exact .adjusted erased insideCase
      · push Not at visible
        obtain ⟨cell, inner, rfl⟩ := visible
        cases shape
        exact insideCase
  | @continued grammar first next start outcome result shape _ _ beginningCase followingCase =>
      have visible : ∀ cell inner, grammar ≠ memoized cell inner := by
        rintro cell inner rfl
        cases shape
      have erased := form_withoutTables rules source visible
      rw [shape] at erased
      exact .continued erased beginningCase followingCase

theorem yields_of_withoutTables {erased : Grammar ε ν} {start : Nat} {outcome : Outcome ν}
    (yields : erased.Yields rules.withoutTables source start outcome) :
    ∀ grammar : Grammar ε ν, grammar.withoutTables = erased →
      grammar.Yields rules source start outcome := by
  -- Below any number of memo tables stands a grammar whose form the erased one shares.
  have peeled {start : Nat} {outcome : Outcome ν} {erased : Grammar ε ν}
      (step : ∀ grammar : Grammar ε ν, (∀ cell inner, grammar ≠ memoized cell inner) →
        grammar.withoutTables = erased → grammar.Yields rules source start outcome)
      (grammar : Grammar ε ν) (same : grammar.withoutTables = erased) :
      grammar.Yields rules source start outcome := by
    induction grammar with
    | memoized cell inner innerCase => exact .passed rfl (innerCase same)
    | _ => exact step _ (fun _ _ equal => by cases equal) same
  induction yields with
  | @settled erased outcome start shape =>
      refine peeled fun grammar visible same => ?_
      subst same
      have erasing := form_withoutTables rules source visible
      rw [shape] at erasing
      cases form : grammar.form rules source with
      | settled settled =>
          rw [form] at erasing
          cases erasing
          exact .settled form
      | adjusted part adjust => rw [form] at erasing; cases erasing
      | continued first next => rw [form] at erasing; cases erasing
  | @adjusted erased part adjust start outcome shape _ insideCase =>
      refine peeled fun grammar visible same => ?_
      subst same
      have erasing := form_withoutTables rules source visible
      rw [shape] at erasing
      cases form : grammar.form rules source with
      | settled settled => rw [form] at erasing; cases erasing
      | adjusted inner change =>
          rw [form] at erasing
          cases erasing
          exact .adjusted form (insideCase inner rfl)
      | continued first next => rw [form] at erasing; cases erasing
  | @continued erased first next start outcome result shape _ _ beginningCase followingCase =>
      refine peeled fun grammar visible same => ?_
      subst same
      have erasing := form_withoutTables rules source visible
      rw [shape] at erasing
      cases form : grammar.form rules source with
      | settled settled => rw [form] at erasing; cases erasing
      | adjusted inner change => rw [form] at erasing; cases erasing
      | continued beginning rest =>
          rw [form] at erasing
          cases erasing
          exact .continued form (beginningCase beginning rfl) (followingCase (rest outcome) rfl)

/-- Erasing memo tables does not change what a grammar yields. -/
theorem yields_withoutTables_iff (grammar : Grammar ε ν) (start : Nat) (outcome : Outcome ν) :
    grammar.withoutTables.Yields rules.withoutTables source start outcome ↔
      grammar.Yields rules source start outcome :=
  ⟨fun yields => yields_of_withoutTables yields grammar rfl, Yields.withoutTables⟩

/-- Erased grammars finish with exactly the outcomes that the grammars yield. -/
theorem exists_finishes_withoutTables_iff (grammar : Grammar ε ν) (start : Nat)
    (outcome : Outcome ν) :
    (∃ last, grammar.withoutTables.Finishes rules.withoutTables source start .initial
      (outcome, last)) ↔ grammar.Yields rules source start outcome := by
  have sound : (ParserState.initial : ParserState ν).Sound rules.withoutTables source fun _ =>
      fail :=
    ParserState.sound_of_forgotten fun cell position => by simp
  rw [exists_finishes_iff_yields (tabulate_withoutTables rules _)
    (grammar.tabulates_withoutTables _) sound, yields_withoutTables_iff]

/-! ### Calls on memo tables -/

/-- A grammar whose memo tables remember nothing at first can be called at some positions with
some outcomes exactly when the erased grammar comes to these outcomes there, each on its own.
Afterwards every entry of a memo table is the match of the erased parser that the table belongs
to. -/
theorem memoization_transparent
    {owner : Nat → Grammar ε ν} (rulesTabulated : rules.Tabulate owner)
    {grammar : Grammar ε ν} (tabulated : grammar.Tabulates owner) (source : Array ε)
    (state : ParserState ν)
    (forgotten : ∀ cell position, (state.table cell).lookup? position = none)
    (starts : List Nat) (outcomes : List (Outcome ν)) :
    (List.Forall₂
        (fun start outcome => ∃ last,
          grammar.withoutTables.Finishes rules.withoutTables source start .initial (outcome, last))
        starts outcomes ↔
      ∃ final, grammar.FinishesEach rules source starts state outcomes final) ∧
    ∀ final, grammar.FinishesEach rules source starts state outcomes final →
      ∀ cell position width value,
        (final.table cell).lookup? position = some (width, value) →
          ∃ last, (owner cell).withoutTables.Finishes rules.withoutTables source position .initial
            (.success width value, last) := by
  have begins : state.Sound rules source owner := ParserState.sound_of_forgotten forgotten
  have calls (final : ParserState ν)
      (finished : grammar.FinishesEach rules source starts state outcomes final) :
      List.Forall₂ (grammar.Yields rules source) starts outcomes ∧
        final.Sound rules source owner :=
    finished.preserves _ _ (fun start _ state outcome final sound finishes =>
      finishes.yields rulesTabulated tabulated sound) begins
  simp only [exists_finishes_withoutTables_iff]
  refine ⟨⟨fun each => ?_, ?_⟩, ?_⟩
  · refine CallSequence.exists_of_forall₂ (fun start outcome yields state sound => ?_) each begins
    obtain ⟨final, finishes⟩ := yields.completes rulesTabulated tabulated state sound
    exact ⟨final, finishes, (finishes.yields rulesTabulated tabulated sound).2⟩
  · rintro ⟨final, finished⟩
    exact (calls final finished).1
  · intro final finished
    exact (calls final finished).2

/-! A rule that counts elements greater than zero, with one memo table for the element, which both
alternatives share, and one for the rule, which the rule comes back to. -/

def positive : Grammar Nat Nat :=
  .element (fun found => 0 < found) fun _ => 1

def positives : Grammar Nat Nat :=
  .choice (.sequence (.memoized 0 positive) (.memoized 1 (.rule 0)) (· + ·)) (.memoized 0 positive)

/-- The parser of each of the two memo tables. -/
def positivesOwner (cell : Nat) : Grammar Nat Nat :=
  if cell = 0 then positive else .rule 0

theorem tabulate_positives : Rules.Tabulate #[.forward (some positives)] positivesOwner :=
  Rules.throughout_single ⟨trivial, ⟨trivial, ⟨rfl, trivial⟩, rfl, trivial⟩, rfl, trivial⟩

theorem tabulates_positives : (memoized 1 (.rule 0)).Tabulates positivesOwner :=
  ⟨rfl, trivial⟩

theorem withoutTables_positives : Rules.withoutTables #[.forward (some positives)] =
    #[.forward (some positives.withoutTables)] := by
  simp [Rules.withoutTables, Rule.withoutTables]

theorem yields_positives : (memoized 1 (.rule 0)).Yields #[.forward (some positives)] #[3, 5, 0] 0
    (.success 2 2) := by
  rw [← exists_finishes_withoutTables_iff, withoutTables_positives]
  exact ⟨_, 5, rfl⟩

theorem memoization_transparent_positives :
    ∃ final, (memoized 1 (.rule 0)).FinishesEach #[.forward (some positives)] #[3, 5, 0] [0, 2, 0]
      .initial [.success 2 2, .failure, .success 2 2] final := by
  refine (memoization_transparent tabulate_positives tabulates_positives _ _
    (fun cell position => by simp) _ _).1.mp ?_
  rw [withoutTables_positives]
  exact .cons ⟨_, 5, rfl⟩ (.cons ⟨_, 5, rfl⟩ (.cons ⟨_, 5, rfl⟩ .nil))

end Grammar

end RecursiveDescent
