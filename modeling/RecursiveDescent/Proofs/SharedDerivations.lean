import RecursiveDescent.Proofs.FinishedRuns
import RecursiveDescent.Proofs.Takes
import RecursiveDescent.Proofs.WholeSources
import RecursiveDescent.Text.Grammar
import RecursiveDescent.Value.Grammar

/-!
# Derivations shared by the alternatives of a rule

A sum of atoms is an atom, a plus and a sum, or an atom, a minus and a sum, or an atom; an atom is a
sum in brackets or a letter.  In front of a text without operators all three alternatives derive the
same atom, which without a memo table would take three times as long at every level of nesting.

With one memo table around the atom, the first alternative derives it and the other two are answered
from the table.  So a sum at a position adds two answers to what its atom does to the table, and an
atom adds one invocation without an answer and one entry to what the sum inside its brackets does.
Over all levels this makes numbers that grow linearly with the depth of nesting.
-/

namespace RecursiveDescent

/-! ### Attempts of which the parts are known -/

namespace Parser

variable {σ ε α β γ : Type} {source : Array ε} {start width more : Nat} {state middle final : σ}
  {value : α} {other : β}

theorem sequence_of_success {first : Parser σ ε α} {second : Parser σ ε β}
    (begun : first source start state = some (.success width value, middle))
    (ended : second source (start + width) middle = some (.success more other, final))
    (combine : α → β → γ) :
    Parser.sequence first second combine source start state =
      some (.success (width + more) (combine value other), final) := by
  unfold Parser.sequence
  simp only [Attempt.bind_apply, begun, ended, Option.bind_some]
  rfl

theorem sequence_of_failure {first : Parser σ ε α}
    (failed : first source start state = some (.failure, final)) (second : Parser σ ε β)
    (combine : α → β → γ) :
    Parser.sequence first second combine source start state = some (.failure, final) := by
  unfold Parser.sequence
  rw [Attempt.bind_apply, failed]
  rfl

theorem sequence_of_failure_behind {first : Parser σ ε α} {second : Parser σ ε β}
    (begun : first source start state = some (.success width value, middle))
    (failed : second source (start + width) middle = some (.failure, final))
    (combine : α → β → γ) :
    Parser.sequence first second combine source start state = some (.failure, final) := by
  unfold Parser.sequence
  simp only [Attempt.bind_apply, begun, failed, Option.bind_some]
  rfl

theorem choice_of_success {first second : Parser σ ε α}
    (begun : first source start state = some (.success width value, final)) :
    Parser.choice first second source start state = some (.success width value, final) := by
  unfold Parser.choice
  rw [Attempt.bind_apply, begun]
  rfl

theorem choice_of_failure {first second : Parser σ ε α}
    (failed : first source start state = some (.failure, middle)) :
    Parser.choice first second source start state = second source start middle := by
  unfold Parser.choice
  rw [Attempt.bind_apply, failed]
  rfl

theorem map_of_result {inner : Parser σ ε α} {outcome : Outcome α}
    (result : inner source start state = some (outcome, final)) (function : α → β) :
    Parser.map inner function source start state = some (outcome.map function, final) := by
  unfold Parser.map
  rw [Attempt.bind_apply, result]
  rfl

end Parser

/-! ### The use of a memo table by levels of nesting -/

/-- One derivation and two answers for each of some levels at different positions, of which the
first is at `start`. -/
structure MemoTable.SharedLevels {ν : Type} (levels start : Nat) (before after : MemoTable ν) :
    Prop where
  size : after.size = before.size + levels
  misses : after.misses = before.misses + levels
  hits : after.hits = before.hits + 2 * levels
  earlier : ∀ position < start, after.lookup? position = before.lookup? position

namespace ParserState

variable {ν : Type}

/-- A match that the memo table in a cell could not answer, and that it then answers twice. -/
def derivedAndShared (cell start width : Nat) (value : ν) (inside : ParserState ν) :
    ParserState ν :=
  ((inside.remembering cell start (.success width value)).answered cell start width).answered cell
    start width

theorem table_derivedAndShared (cell start width : Nat) (value : ν) (inside : ParserState ν) :
    (inside.derivedAndShared cell start width value).table cell =
      (((inside.table cell).remember start width value).countHit).countHit := by
  unfold derivedAndShared
  rw [table_answered, if_pos rfl, table_answered, if_pos rfl, table_remembering_success,
    if_pos rfl]

/-- A level around other levels, of which the first one is at the next position. -/
theorem sharedLevels_succ {cell levels start : Nat} {state inside : ParserState ν}
    (levelsInside : MemoTable.SharedLevels levels (start + 1) ((state.missed cell start).table cell)
      (inside.table cell))
    (forgotten : (state.table cell).lookup? start = none) (width : Nat) (value : ν) :
    MemoTable.SharedLevels (levels + 1) start (state.table cell)
      ((inside.derivedAndShared cell start width value).table cell) := by
  have missed : (state.missed cell start).table cell = (state.table cell).countMiss := by
    rw [table_missed, if_pos rfl]
  obtain ⟨size, misses, hits, earlier⟩ := levelsInside
  rw [missed] at size misses hits earlier
  have forgottenInside : (inside.table cell).lookup? start = none := by
    rw [earlier start (Nat.lt_succ_self start), MemoTable.lookup?_countMiss, forgotten]
  rw [table_derivedAndShared]
  refine ⟨?_, ?_, ?_, fun position before => ?_⟩
  · have grown : ((inside.table cell).remember start width value).size =
        (inside.table cell).size + 1 := by
      rw [MemoTable.size_remember, forgottenInside]
      rfl
    exact grown.trans (congrArg (· + 1) size)
  · have counted : (inside.table cell).misses = (state.table cell).misses + 1 + levels := misses
    change (inside.table cell).misses = _
    omega
  · have counted : (inside.table cell).hits = (state.table cell).hits + 2 * levels := hits
    change (inside.table cell).hits + 1 + 1 = _
    omega
  · rw [MemoTable.lookup?_countHit, MemoTable.lookup?_countHit, MemoTable.lookup?_remember,
      if_neg (Nat.ne_of_gt before), earlier position (Nat.lt_succ_of_lt before),
      MemoTable.lookup?_countMiss]

end ParserState

namespace Text

/-! ### The grammar -/

/-- A sum in brackets, which is one level deeper. -/
def nestedLevel : TextGrammar :=
  .map (.keepingFirst (.keepingSecond (character '(') (.rule 0)) (character ')'))
    (Operation.add.onValues · (.int 1))

/-- A sum in brackets or a letter.  All occurrences share one memo table. -/
def nestedAtom : TextGrammar :=
  .memoized 0 (.choice nestedLevel (.map (character 'x') fun _ => .int 0))

/-- An atom, an operator and a sum; yields both depths. -/
def nestedOperation (operator : Char) : TextGrammar :=
  .paired (.keepingFirst nestedAtom (character operator)) (.rule 0)

/-- A sum of atoms; yields the depth of the deepest one. -/
def nestedSum : TextGrammar :=
  .choice (.map (.choice (nestedOperation '+') (nestedOperation '-')) Value.greaterComponent)
    nestedAtom

/-- The sum as a declaration that was defined after the atom was made of it. -/
def nestedRules : Rules Char Value :=
  #[.forward (some nestedSum)]

/-- A letter in brackets of some depth. -/
def nestedText (depth : Nat) : List Char :=
  List.replicate depth '(' ++ 'x' :: List.replicate depth ')'

/-- A character that continues a sum. -/
def isOperator (found : Char) : Bool :=
  found = '+' || found = '-'

theorem nestedText_succ (depth : Nat) :
    nestedText (depth + 1) = '(' :: (nestedText depth ++ [')']) := by
  unfold nestedText
  rw [List.replicate_succ, List.replicate_succ']
  simp

@[simp]
theorem length_nestedText (depth : Nat) : (nestedText depth).length = 2 * depth + 1 := by
  simp [nestedText]
  omega

/-! ### Runs of the grammar -/

variable {source : Array Char} {start width depth : Nat} {rest : List Char}
  {state middle : ParserState Value} {value : Value}

section Characters

variable (rules : Rules Char Value) (steps : Nat) (state : ParserState Value) {expected : Char}

theorem run_character (source : Array Char) (start : Nat) :
    (character expected).run rules steps source start state =
      some (Outcome.ofElement (fun found => found = expected) Value.char source start, state) := by
  have opened : (character expected).run rules steps =
      Parser.element (fun found => found = expected) Value.char := by
    cases steps <;> rfl
  rw [opened, Parser.element_eq_ofFunction]
  rfl

theorem run_character_found (begins : remaining source start = expected :: rest) :
    (character expected).run rules steps source start state =
      some (.success 1 (.char expected), state) := by
  rw [run_character]
  unfold Outcome.ofElement
  rw [getElem?_eq_head?_remaining, begins]
  simp

theorem run_character_missing
    (avoids : Avoids (fun found => found = expected) (remaining source start)) :
    (character expected).run rules steps source start state = some (.failure, state) := by
  rw [run_character]
  unfold Outcome.ofElement
  rw [getElem?_eq_head?_remaining]
  cases begins : remaining source start with
  | nil => rfl
  | cons first others =>
      rw [begins, avoids_cons] at avoids
      simp only [List.head?_cons, avoids]
      rfl

end Characters

section Levels

variable (steps : Nat)

theorem run_nestedLevel :
    nestedLevel.run nestedRules steps =
      Parser.map
        (Parser.sequence
          (Parser.sequence ((character '(').run nestedRules steps)
            ((Grammar.rule 0).run nestedRules steps) fun _ value => value)
          ((character ')').run nestedRules steps) fun value _ => value)
        (Operation.add.onValues · (.int 1)) := by
  cases steps <;> rfl

theorem run_nestedAtom :
    nestedAtom.run nestedRules steps =
      Parser.memoized 0
        (Parser.choice (nestedLevel.run nestedRules steps)
          (Parser.map ((character 'x').run nestedRules steps) fun _ => .int 0)) := by
  cases steps <;> rfl

theorem run_nestedOperation (operator : Char) :
    (nestedOperation operator).run nestedRules steps =
      Parser.sequence
        (Parser.sequence (nestedAtom.run nestedRules steps)
          ((character operator).run nestedRules steps) fun value _ => value)
        ((Grammar.rule 0).run nestedRules steps) Value.pair := by
  cases steps <;> rfl

theorem run_nestedSum :
    nestedSum.run nestedRules steps =
      Parser.choice
        (Parser.map
          (Parser.choice ((nestedOperation '+').run nestedRules steps)
            ((nestedOperation '-').run nestedRules steps))
          Value.greaterComponent)
        (nestedAtom.run nestedRules steps) := by
  cases steps <;> rfl

/-- A letter is derived at once and remembered. -/
theorem nestedAtom_letter (begins : remaining source start = 'x' :: rest)
    (forgotten : (state.table 0).lookup? start = none) :
    nestedAtom.run nestedRules steps source start state =
      some (.success 1 (Value.ofNat 0),
        (state.missed 0 start).remembering 0 start (.success 1 (Value.ofNat 0))) := by
  have noBracket : Avoids (fun found => found = '(') (remaining source start) := by
    rw [begins]
    exact avoids_cons.mpr rfl
  have failed := run_character_missing nestedRules steps (state.missed 0 start) noBracket
  have found := run_character_found nestedRules steps (state.missed 0 start) begins
  have noLevel : nestedLevel.run nestedRules steps source start (state.missed 0 start) =
      some (.failure, state.missed 0 start) := by
    rw [run_nestedLevel]
    exact Parser.map_of_result
      (Parser.sequence_of_failure (Parser.sequence_of_failure failed _ _) _ _) _
  rw [run_nestedAtom, Parser.memoized_of_forgotten _ _ _ _ _ forgotten,
    Parser.choice_of_failure noLevel, Parser.map_of_result found]
  rfl

/-- A level of nesting is derived by means of the sum inside its brackets, and remembered. -/
theorem nestedAtom_level (begins : remaining source start = '(' :: rest)
    (forgotten : (state.table 0).lookup? start = none)
    (inside : (Grammar.rule 0).run nestedRules steps source (start + 1) (state.missed 0 start) =
      some (.success width (Value.ofNat depth), middle))
    {behind : List Char} (closes : remaining source (start + (1 + width)) = ')' :: behind) :
    nestedAtom.run nestedRules steps source start state =
      some (.success (1 + width + 1) (Value.ofNat (depth + 1)),
        middle.remembering 0 start (.success (1 + width + 1) (Value.ofNat (depth + 1)))) := by
  have opening := run_character_found nestedRules steps (state.missed 0 start) begins
  have closing := run_character_found nestedRules steps middle closes
  have level : nestedLevel.run nestedRules steps source start (state.missed 0 start) =
      some (.success (1 + width + 1) (Value.ofNat (depth + 1)), middle) := by
    rw [run_nestedLevel]
    exact Parser.map_of_result
      (Parser.sequence_of_success (Parser.sequence_of_success opening inside _) closing _) _
  rw [run_nestedAtom, Parser.memoized_of_forgotten _ _ _ _ _ forgotten,
    Parser.choice_of_success level]
  rfl

/-- A remembered atom without an operator behind it is no operation, whatever the operator. -/
theorem nestedOperation_fails {operator : Char} {final : ParserState Value}
    (derived : nestedAtom.run nestedRules steps source start state =
      some (.success width value, final))
    (behind : Avoids (fun found => found = operator) (remaining source (start + width))) :
    (nestedOperation operator).run nestedRules steps source start state =
      some (.failure, final) := by
  have missing := run_character_missing nestedRules steps final behind
  rw [run_nestedOperation]
  exact Parser.sequence_of_failure
    (Parser.sequence_of_failure_behind derived missing _) _ _

theorem nestedAtom_remembered (remembered : (state.table 0).lookup? start = some (width, value)) :
    nestedAtom.run nestedRules steps source start state =
      some (.success width value, state.answered 0 start width) := by
  rw [run_nestedAtom]
  exact Parser.memoized_of_remembered _ _ _ _ _ remembered

/-- The first alternative of a sum derives the atom, and the table answers the two others. -/
theorem nestedSum_of_atom
    (derived : nestedAtom.run nestedRules steps source start state =
      some (.success width value, middle.remembering 0 start (.success width value)))
    (behind : Avoids isOperator (remaining source (start + width))) :
    nestedSum.run nestedRules steps source start state =
      some (.success width value, middle.derivedAndShared 0 start width value) := by
  have remembered : ((middle.remembering 0 start (.success width value)).table 0).lookup? start =
      some (width, value) := by
    rw [ParserState.lookup?_remembering_success, if_pos ⟨rfl, rfl⟩]
  have noSuch (operator : Char) (continues : isOperator operator) :
      Avoids (fun found => found = operator) (remaining source (start + width)) :=
    behind.mono fun found same => by
      rw [of_decide_eq_true same]
      exact continues
  have noPlus := nestedOperation_fails steps derived (noSuch '+' rfl)
  have noMinus := nestedOperation_fails steps (nestedAtom_remembered steps remembered)
    (noSuch '-' rfl)
  have noOperation := Parser.map_of_result ((Parser.choice_of_failure noPlus).trans noMinus)
    Value.greaterComponent
  have stillRemembered : (((middle.remembering 0 start (.success width value)).answered 0 start
      width).table 0).lookup? start = some (width, value) := by
    rw [ParserState.lookup?_answered]
    exact remembered
  rw [run_nestedSum, Parser.choice_of_failure noOperation]
  exact nestedAtom_remembered steps stillRemembered

end Levels

/-! ### All levels -/

/-- The induction is on the depth; the sum inside brackets runs with one step less, at the next
position, and in a state in which the table has counted the atom around it. -/
theorem nestedSum_run (depth : Nat) {steps : Nat} (enough : depth ≤ steps)
    (begins : remaining source start = nestedText depth ++ rest)
    (behind : Avoids isOperator rest)
    (forgotten : ∀ position ≥ start, (state.table 0).lookup? position = none) :
    ∃ last, nestedSum.run nestedRules steps source start state =
        some (.success (2 * depth + 1) (Value.ofNat depth), last) ∧
      MemoTable.SharedLevels (depth + 1) start (state.table 0) (last.table 0) := by
  have forgottenHere := forgotten start (Nat.le_refl start)
  have ends := remaining_of_eq_append begins
  rw [length_nestedText] at ends
  induction depth generalizing steps start rest state with
  | zero =>
      rw [← ends] at behind
      have derived := nestedAtom_letter steps begins forgottenHere
      have unused : MemoTable.SharedLevels 0 (start + 1) ((state.missed 0 start).table 0)
          ((state.missed 0 start).table 0) := ⟨rfl, rfl, rfl, fun _ _ => rfl⟩
      exact ⟨_, nestedSum_of_atom steps derived behind,
        ParserState.sharedLevels_succ unused forgottenHere _ _⟩
  | succ depth induction =>
      obtain ⟨fewer, rfl⟩ : ∃ fewer, steps = fewer + 1 := ⟨steps - 1, by omega⟩
      have level : remaining source start = '(' :: (nestedText depth ++ ')' :: rest) := by
        rw [begins, nestedText_succ]
        simp
      have beginsInside := remaining_of_eq_cons level
      have endsInside := remaining_of_eq_append beginsInside
      rw [length_nestedText] at endsInside
      have forgottenInside : ∀ position ≥ start + 1,
          ((state.missed 0 start).table 0).lookup? position = none := by
        intro position later
        rw [ParserState.lookup?_missed]
        exact forgotten position (by omega)
      obtain ⟨inside, ran, shared⟩ := induction (Nat.le_of_succ_le_succ enough) beginsInside
        (avoids_cons.mpr rfl) forgottenInside (forgottenInside _ (Nat.le_refl _)) endsInside
      have closes : remaining source (start + (1 + (2 * depth + 1))) = ')' :: rest := by
        rw [← endsInside, Nat.add_assoc]
      have derived := nestedAtom_level (fewer + 1) level forgottenHere ran closes
      have width : 1 + (2 * depth + 1) + 1 = 2 * (depth + 1) + 1 := by omega
      rw [width] at derived
      rw [← ends] at behind
      exact ⟨_, nestedSum_of_atom (fewer + 1) derived behind,
        ParserState.sharedLevels_succ shared forgottenHere _ _⟩

/-- On a letter in brackets of any depth, a sum whose alternatives share the derivations of an atom
comes to the depth.  With a table that is empty at first, it derives one atom for each level and for
the letter, and is answered twice for each of them. -/
theorem nestedSum_linear (depth : Nat) {state : ParserState Value}
    (unused : state.table 0 = .empty) :
    ∃ last, (∀ steps > depth, (Grammar.rule 0).runComplete nestedRules steps
        (nestedText depth).toArray state = some (some (Value.ofNat depth), last)) ∧
      (∀ answer final, (Grammar.rule 0).parseComplete nestedRules (nestedText depth).toArray state =
        some (answer, final) → answer = some (Value.ofNat depth) ∧ final = last) ∧
      (last.table 0).size = depth + 1 ∧
      (last.table 0).misses = depth + 1 ∧
      (last.table 0).hits = 2 * (depth + 1) := by
  have begins : remaining (nestedText depth).toArray 0 = nestedText depth ++ [] := by simp
  have forgotten : ∀ position ≥ 0, (state.table 0).lookup? position = none := by
    intro position _
    rw [unused, MemoTable.lookup?_empty]
  obtain ⟨last, ran, shared⟩ :=
    nestedSum_run depth (Nat.le_refl depth) begins (avoids_nil isOperator) forgotten
  have ranAtAll : (Grammar.rule 0).run nestedRules (depth + 1) (nestedText depth).toArray 0 state =
      some (.success (2 * depth + 1) (Value.ofNat depth), last) := ran
  have complete : some (Value.ofNat depth) =
      (Outcome.success (2 * depth + 1) (Value.ofNat depth)).complete?
        (nestedText depth).toArray.size :=
    (Outcome.complete?_eq_some_iff.mpr (by simp)).symm
  obtain ⟨size, misses, hits, -⟩ := shared
  rw [unused] at size misses hits
  have noEntries : (MemoTable.empty : MemoTable Value).size = 0 := Std.HashMap.size_empty
  rw [noEntries, Nat.zero_add] at size
  refine ⟨last, fun steps enough => ?_, fun answer final parsed => ?_, size,
    misses.trans (Nat.zero_add _), hits.trans (Nat.zero_add _)⟩
  · exact Grammar.runComplete_eq_some_iff.mpr ⟨_, Grammar.run_mono enough ranAtAll, complete⟩
  · rw [Grammar.parseComplete_eq_runComplete, Grammar.runComplete_eq_some_iff] at parsed
    obtain ⟨outcome, finished, rfl⟩ := parsed
    cases Grammar.Finishes.unique ⟨_, finished⟩ ⟨_, ranAtAll⟩
    exact ⟨complete.symm, rfl⟩

/-- Two levels around the letter, and so three atoms. -/
theorem nestedSum_linear_twoLevels :
    ∃ last, (Grammar.rule 0).parseComplete nestedRules "((x))".toList.toArray .initial =
        some (some (Value.ofNat 2), last) ∧
      (last.table 0).size = 3 ∧ (last.table 0).misses = 3 ∧ (last.table 0).hits = 6 := by
  obtain ⟨last, answers, -, size, misses, hits⟩ :=
    nestedSum_linear 2 (ParserState.table_initial 0)
  refine ⟨last, ?_, size, misses, hits⟩
  rw [Grammar.parseComplete_eq_runComplete]
  exact answers Grammar.amplySteps (by decide)

end Text

end RecursiveDescent
