import RecursiveDescent.Proofs.Guarded
import RecursiveDescent.Proofs.Takes
import RecursiveDescent.Proofs.UntouchedTables
import RecursiveDescent.Proofs.WholeSources

/-!
# Grammars without memo tables and without rules

A run of a grammar that uses no memo table is the same matter as its meaning: from every state it
finishes with the outcome that the grammar yields, and with no other.  A grammar that names no rule
either stands alone.  It runs in the same way under all rules, so its meaning under no rules at all
says what it does.

Whether a whole source is matched, and with which value, is a question about the outcome from the
first position, and carries over from runs to meanings in the same way.
-/

namespace RecursiveDescent

variable {ε ν : Type}

theorem Rules.throughout_empty (accepts : Grammar ε ν → Prop) :
    Rules.Throughout (#[] : Rules ε ν) accepts := by
  intro index body found
  simp [Rules.body?] at found

namespace Grammar

def IsStandalone : Grammar ε ν → Prop
  | .memoized _ _ | .rule _ => False
  | _ => True

/-- The grammar uses no memo table and names no rule. -/
abbrev Standalone (grammar : Grammar ε ν) : Prop :=
  grammar.Throughout IsStandalone

theorem Standalone.sparesTables {grammar : Grammar ε ν} (alone : grammar.Standalone) :
    grammar.Throughout SparesTables := by
  refine alone.mono fun part single => ?_
  cases part with
  | memoized cell inner => exact single.elim
  | _ => trivial

variable [DecidableEq ε] {rules : Rules ε ν} {source : Array ε} {grammar : Grammar ε ν}
  {start : Nat} {outcome : Outcome ν} {state : ParserState ν}

/-! ### Runs without memo tables -/

omit [DecidableEq ε] in
theorem SparesTables.owned {owner : Nat → Grammar ε ν} {part : Grammar ε ν}
    (spares : part.SparesTables) : part.Owned owner := by
  cases part with
  | memoized cell inner => exact spares.elim
  | _ => trivial

/-- The parser that yields what a memo table remembers. -/
def recollection (state : ParserState ν) (cell : Nat) : Grammar ε ν :=
  .ofFunction fun _ position => Outcome.ofParts ((state.table cell).lookup? position)

theorem sound_recollection (rules : Rules ε ν) (source : Array ε) (state : ParserState ν) :
    state.Sound rules source (recollection state) := by
  intro cell position width value found
  have total : Outcome.ofParts ((state.table cell).lookup? position) = .success width value := by
    rw [found]
    rfl
  exact yields_of_settled rfl total

/-- Without memo tables, runs from any state come to the outcomes that the grammar yields. -/
theorem finishes_iff_yields_of_sparesTables (spares : grammar.Throughout SparesTables)
    (rulesSpare : rules.Throughout SparesTables) (state : ParserState ν) :
    (∃ final, grammar.Finishes rules source start state (outcome, final)) ↔
      grammar.Yields rules source start outcome := by
  constructor
  · rintro ⟨final, finishes⟩
    have tabulated : grammar.Tabulates (recollection state) :=
      spares.mono fun part single => single.owned
    have rulesTabulated : rules.Tabulate (recollection state) := fun index body found =>
      (rulesSpare index body found).mono fun part single => single.owned
    exact (finishes.yields rulesTabulated tabulated (sound_recollection rules source state)).1
  · intro yields
    exact yields.exists_finishes spares rulesSpare state

/-! ### Grammars that stand alone -/

/-- What an invocation of a rule does is no matter for a grammar that names no rule. -/
theorem Standalone.parser_eq (alone : grammar.Standalone) (rounds : Nat)
    (invoke other : Nat → Parser (ParserState ν) ε ν) :
    grammar.parser rounds invoke = grammar.parser rounds other := by
  induction grammar with
  | element _ _ | literal _ _ | fixedWidth _ _ | succeed _ | fail | endOfInput _ | ofFunction _ =>
      rfl
  | rule _ => exact alone.elim
  | sequence first second combine firstCase secondCase =>
      rw [parser, parser, firstCase alone.2.1, secondCase alone.2.2]
  | choice first second firstCase secondCase =>
      rw [parser, parser, firstCase alone.2.1, secondCase alone.2.2]
  | delimited item delimiter combine headCollector itemCase delimiterCase =>
      rw [parser, parser, itemCase alone.2.1, delimiterCase alone.2.2]
  | separated item delimiter collector itemCase delimiterCase =>
      rw [parser, parser, itemCase alone.2.1, delimiterCase alone.2.2]
  | bind first binder firstCase binderCase =>
      rw [parser, parser, firstCase alone.2.1]
      exact congrArg _ (funext fun outcome => binderCase outcome (alone.2.2 outcome))
  | memoized _ _ _ => exact alone.1.elim
  | optional _ _ innerCase | repeated _ _ _ innerCase | ahead _ innerCase | notAhead _ _ innerCase
  | map _ _ innerCase | tryMap _ _ innerCase | filter _ _ innerCase | recognize _ _ innerCase
  | before _ _ innerCase | onSuccess _ _ innerCase | onFailure _ _ innerCase | traced _ _ innerCase
  | rebuilt _ _ innerCase | deferred _ _ innerCase =>
      rw [parser, parser, innerCase alone.2]

theorem Standalone.run_eq (alone : grammar.Standalone) (rules others : Rules ε ν) (steps : Nat) :
    grammar.run rules steps = grammar.run others steps := by
  cases steps with
  | zero => rfl
  | succ steps => exact alone.parser_eq _ _ _

/-- A grammar that stands alone runs under any rules and from any state as it yields on its own. -/
theorem Standalone.finishes_iff_yields (alone : grammar.Standalone) (rules : Rules ε ν)
    (state : ParserState ν) :
    (∃ final, grammar.Finishes rules source start state (outcome, final)) ↔
      grammar.Yields #[] source start outcome := by
  rw [← finishes_iff_yields_of_sparesTables alone.sparesTables (Rules.throughout_empty _) state]
  simp only [Finishes, alone.run_eq rules #[]]

theorem Guarded.exists_yields (guarded : grammar.Guarded #[] source)
    (functionFree : grammar.FunctionFree) (start : Nat) :
    ∃ outcome, grammar.Yields #[] source start outcome := by
  have rulesGuarded : Rules.Guarded (#[] : Rules ε ν) source := by
    intro index body found
    simp [Rules.body?] at found
  have notLeftRecursive : Rules.NotLeftRecursive (#[] : Rules ε ν) source := by
    refine Rules.notLeftRecursive_of_opens fun index circle => ?_
    obtain ⟨_, _, body, found, _⟩ := Relation.TransGen.tail'_iff.mp circle
    simp [Rules.body?] at found
  exact exists_yields_of_acc (acc_of_guarded (Rules.throughout_empty _) rulesGuarded
    notLeftRecursive grammar functionFree guarded start)

end Grammar

/-! ### Answers on whole sources -/

variable [DecidableEq ε]

/-- With some allotment of steps, matching the whole source answers so. -/
def Grammar.Answers (grammar : Grammar ε ν) (rules : Rules ε ν) (source : Array ε)
    (state : ParserState ν) (answer : Option ν) : Prop :=
  ∃ steps last, grammar.runComplete rules steps source state = some (answer, last)

namespace Grammar

variable {rules : Rules ε ν} {source : Array ε} {grammar : Grammar ε ν} {state : ParserState ν}
  {answer : Option ν}

theorem answers_iff_finishes :
    grammar.Answers rules source state answer ↔
      ∃ outcome, (∃ final, grammar.Finishes rules source 0 state (outcome, final)) ∧
        answer = outcome.complete? source.size := by
  constructor
  · rintro ⟨steps, last, ran⟩
    obtain ⟨outcome, finished, total⟩ := runComplete_eq_some_iff.mp ran
    exact ⟨outcome, ⟨last, steps, finished⟩, total⟩
  · rintro ⟨outcome, ⟨last, steps, finished⟩, total⟩
    exact ⟨steps, last, runComplete_eq_some_iff.mpr ⟨outcome, finished, total⟩⟩

theorem Answers.unique {other : Option ν} (first : grammar.Answers rules source state answer)
    (second : grammar.Answers rules source state other) : answer = other := by
  obtain ⟨outcome, ⟨final, finishes⟩, rfl⟩ := answers_iff_finishes.mp first
  obtain ⟨otherOutcome, ⟨last, finishesToo⟩, rfl⟩ := answers_iff_finishes.mp second
  cases finishes.unique finishesToo
  rfl

/-- What is run with the ample allotment of steps gives the answer of the grammar. -/
theorem answers_of_parseComplete {last : ParserState ν}
    (parsed : grammar.parseComplete rules source state = some (answer, last)) :
    grammar.Answers rules source state answer := by
  rw [parseComplete_eq_runComplete] at parsed
  exact ⟨amplySteps, last, parsed⟩

theorem answers_some_iff {others : Rules ε ν} {value : ν}
    (transfers : ∀ outcome, (∃ final, grammar.Finishes rules source 0 state (outcome, final)) ↔
      grammar.Yields others source 0 outcome) :
    grammar.Answers rules source state (some value) ↔
      grammar.Takes others source 0 source.toList value := by
  rw [answers_iff_finishes, takes_all_iff]
  constructor
  · rintro ⟨outcome, finishes, total⟩
    obtain rfl := Outcome.complete?_eq_some_iff.mp total.symm
    exact (transfers _).mp finishes
  · intro yields
    refine ⟨_, (transfers _).mpr yields, ?_⟩
    exact (Outcome.complete?_eq_some_iff.mpr rfl).symm

end Grammar

end RecursiveDescent
