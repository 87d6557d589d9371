import RecursiveDescent.Proofs.DecimalSyntax
import RecursiveDescent.Proofs.StandaloneGrammars
import RecursiveDescent.Value.Grammar

/-!
# Nested brackets

A rule that refers to itself: an opening bracket, the rule and a closing bracket, or nothing.  Every
level may match nothing, so a level whose closing bracket is missing does not fail, it matches
nothing.  The level around it then stands in front of an opening bracket where it needs a closing
one, and so one missing bracket takes all levels down with it.
-/

namespace RecursiveDescent

namespace Text

/-- An opening bracket, the rule and a closing bracket, or nothing. -/
def nesting : TextGrammar :=
  .optional
    (.keepingFirst (.keepingSecond (character '(') (.rule 0)) (character ')'))
    .unit

def nestingRules : Rules Char Value :=
  #[.recursive none [] nesting]

def balanced : TextGrammar :=
  .rule 0

/-- How many times a text begins with a character. -/
def leading (mark : Char) (text : List Char) : Nat :=
  (text.takeWhile fun found => found = mark).length

/-- Twice the number of opening brackets that a text begins with, when as many closing brackets
follow them at least. -/
def nestedWidth (text : List Char) : Nat :=
  let opened := leading '(' text
  if opened ≤ leading ')' (text.drop opened) then 2 * opened else 0

variable {source : Array Char} {start opened closed : Nat} {mark : Char} {text rest : List Char}

/-! ### Runs of a character -/

theorem leading_replicate_append (avoids : Avoids (fun found => found = mark) rest) (count : Nat) :
    leading mark (List.replicate count mark ++ rest) = count := by
  have members : ∀ found ∈ List.replicate count mark, decide (found = mark) = true := by
    intro found member
    exact decide_eq_true (List.eq_of_mem_replicate member)
  rw [leading, avoids.takeWhile_append members, List.length_replicate]

theorem exists_behind_leading (mark : Char) (text : List Char) :
    ∃ rest, text = List.replicate (leading mark text) mark ++ rest ∧
      Avoids (fun found => found = mark) rest := by
  induction text with
  | nil => exact ⟨[], rfl, avoids_nil _⟩
  | cons first others othersCase =>
      by_cases same : first = mark
      · obtain ⟨rest, split, avoids⟩ := othersCase
        have longer : leading mark (first :: others) = leading mark others + 1 := by
          simp [leading, same]
        refine ⟨rest, ?_, avoids⟩
        rw [longer, List.replicate_succ, List.cons_append, ← split, same]
      · have nothing : leading mark (first :: others) = 0 := by simp [leading, same]
        refine ⟨first :: others, ?_, avoids_cons.mpr (decide_eq_false same)⟩
        rw [nothing]
        rfl

theorem exists_brackets (text : List Char) :
    ∃ opened closed rest,
      text = List.replicate opened '(' ++ (List.replicate closed ')' ++ rest) ∧
      Avoids (fun found => found = ')') rest ∧
      Avoids (fun found => found = '(') (List.replicate closed ')' ++ rest) := by
  obtain ⟨behind, split, notOpening⟩ := exists_behind_leading '(' text
  obtain ⟨rest, splitBehind, notClosing⟩ := exists_behind_leading ')' behind
  rw [splitBehind] at split notOpening
  exact ⟨_, _, rest, split, notClosing, notOpening⟩

theorem nestedWidth_brackets (notClosing : Avoids (fun found => found = ')') rest)
    (notOpening : Avoids (fun found => found = '(') (List.replicate closed ')' ++ rest)) :
    nestedWidth (List.replicate opened '(' ++ (List.replicate closed ')' ++ rest)) =
      if opened ≤ closed then 2 * opened else 0 := by
  have behind : (List.replicate opened '(' ++ (List.replicate closed ')' ++ rest)).drop opened =
      List.replicate closed ')' ++ rest := List.drop_left' List.length_replicate
  rw [nestedWidth, leading_replicate_append notOpening, behind,
    leading_replicate_append notClosing]

/-- The brackets that are matched are the whole text when there are as many of both and nothing
else. -/
theorem nestedWidth_eq_length_iff :
    nestedWidth text = text.length ↔
      ∃ depth, text = List.replicate depth '(' ++ List.replicate depth ')' := by
  constructor
  · intro whole
    obtain ⟨opened, closed, rest, rfl, notClosing, notOpening⟩ := exists_brackets text
    rw [nestedWidth_brackets notClosing notOpening] at whole
    simp only [List.length_append, List.length_replicate] at whole
    split at whole
    · obtain rfl : closed = opened := by omega
      obtain rfl : rest = [] := List.length_eq_zero_iff.mp (by omega)
      exact ⟨closed, by rw [List.append_nil]⟩
    · omega
  · rintro ⟨depth, rfl⟩
    have notOpening : Avoids (fun found => found = '(') (List.replicate depth ')' ++ []) := by
      cases depth with
      | zero => exact avoids_nil _
      | succ depth => exact avoids_cons.mpr rfl
    have width : nestedWidth (List.replicate depth '(' ++ (List.replicate depth ')' ++ [])) = _ :=
      nestedWidth_brackets (avoids_nil _) notOpening
    rw [List.append_nil, if_pos (Nat.le_refl depth)] at width
    rw [width, List.length_append, List.length_replicate, List.length_replicate, Nat.two_mul]

/-! ### Levels of nesting -/

variable {state : ParserState Value} {value : Value}

theorem takes_balanced (inside : nesting.Takes nestingRules source start text value) :
    balanced.Takes nestingRules source start text value :=
  (inside.passed rfl).passed rfl

theorem takes_no_level (notOpening : Avoids (fun found => found = '(') (remaining source start)) :
    balanced.Takes nestingRules source start [] .unit :=
  takes_balanced (Grammar.takes_optional_nothing (Grammar.sequence_fails_first
    (Grammar.sequence_fails_first (character_fails notOpening))))

/-- A level of nesting around what the rule matches behind the opening bracket. -/
theorem takes_level (begins : remaining source start = '(' :: (text ++ ')' :: rest))
    (inside : balanced.Takes nestingRules source (start + 1) text value) :
    balanced.Takes nestingRules source start ('(' :: text ++ [')']) value := by
  have opening : (character '(').Takes nestingRules source start ['('] _ := takes_character begins
  have front : (Grammar.keepingSecond (character '(') balanced).Takes nestingRules source start
      ('(' :: text) value := opening.sequence inside
  have closing : (character ')').Takes nestingRules source (start + ('(' :: text).length) [')'] _ :=
    takes_character (remaining_of_eq_append begins)
  exact takes_balanced (front.sequence closing).optional

/-- A level whose closing bracket is missing matches nothing. -/
theorem takes_unclosed_level (begins : remaining source start = '(' :: (text ++ rest))
    (inside : balanced.Takes nestingRules source (start + 1) text value)
    (notClosing : Avoids (fun found => found = ')') rest) :
    balanced.Takes nestingRules source start [] .unit := by
  have opening : (character '(').Takes nestingRules source start ['('] _ := takes_character begins
  have front : (Grammar.keepingSecond (character '(') balanced).Takes nestingRules source start
      ('(' :: text) value := opening.sequence inside
  have behind : remaining source (start + ('(' :: text).length) = rest :=
    remaining_of_eq_append begins
  have missing : (character ')').Yields nestingRules source (start + ('(' :: text).length)
      .failure := by
    refine character_fails ?_
    rw [behind]
    exact notClosing
  exact takes_balanced (Grammar.takes_optional_nothing (Grammar.sequence_fails_second front missing))

/-! ### All levels -/

/-- As many closing brackets as opening ones make up a match, whatever follows them. -/
theorem takes_nested
    (begins : remaining source start =
      List.replicate opened '(' ++ (List.replicate opened ')' ++ rest))
    (notOpening : opened = 0 → Avoids (fun found => found = '(') rest) :
    balanced.Takes nestingRules source start
      (List.replicate opened '(' ++ List.replicate opened ')') .unit := by
  induction opened generalizing start rest with
  | zero =>
      refine takes_no_level ?_
      rw [begins]
      exact notOpening rfl
  | succ opened openedCase =>
      have level : remaining source start =
          '(' :: (List.replicate opened '(' ++ List.replicate opened ')' ++ ')' :: rest) := by
        rw [begins, List.replicate_succ, List.replicate_succ']
        simp
      have beginsInside := remaining_of_eq_cons level
      rw [List.append_assoc] at beginsInside
      have inside := openedCase beginsInside fun _ => avoids_cons.mpr rfl
      rw [List.replicate_succ, List.replicate_succ', ← List.append_assoc]
      exact takes_level level inside

/-- With fewer closing brackets than opening ones, the innermost level that misses its closing
bracket matches nothing, and so do all levels around it. -/
theorem takes_collapsed (fewer : closed < opened)
    (begins : remaining source start =
      List.replicate opened '(' ++ (List.replicate closed ')' ++ rest))
    (notClosing : Avoids (fun found => found = ')') rest)
    (notOpening : closed = 0 → Avoids (fun found => found = '(') rest) :
    balanced.Takes nestingRules source start [] .unit := by
  induction opened generalizing start with
  | zero => exact absurd fewer (Nat.not_lt_zero closed)
  | succ opened openedCase =>
      rw [List.replicate_succ, List.cons_append] at begins
      have beginsInside := remaining_of_eq_cons begins
      rcases Nat.lt_or_eq_of_le (Nat.le_of_lt_succ fewer) with stillFewer | rfl
      · -- The level inside matches nothing, and opens where this one would have to close.
        have inside := openedCase stillFewer beginsInside
        have level : remaining source start =
            '(' :: ([] ++ (List.replicate opened '(' ++ (List.replicate closed ')' ++ rest))) :=
          begins
        refine takes_unclosed_level level inside ?_
        cases opened with
        | zero => exact absurd stillFewer (Nat.not_lt_zero closed)
        | succ opened => exact avoids_cons.mpr rfl
      · have inside := takes_nested beginsInside notOpening
        refine takes_unclosed_level ?_ inside notClosing
        rw [begins, List.append_assoc]

theorem balanced_yields (source : Array Char) (start : Nat) :
    balanced.Yields nestingRules source start
      (.success (nestedWidth (remaining source start)) .unit) := by
  obtain ⟨opened, closed, rest, begins, notClosing, notOpening⟩ :=
    exists_brackets (remaining source start)
  rw [begins, nestedWidth_brackets notClosing notOpening]
  by_cases enough : opened ≤ closed
  · obtain ⟨more, rfl⟩ := Nat.exists_eq_add_of_le enough
    rw [← List.replicate_append_replicate, List.append_assoc] at begins notOpening
    have takes := takes_nested begins fun none => by
      rw [none] at notOpening
      exact notOpening
    have width : (List.replicate opened '(' ++ List.replicate opened ')').length = 2 * opened := by
      rw [List.length_append, List.length_replicate, List.length_replicate, Nat.two_mul]
    rw [if_pos enough, ← width]
    exact takes.yields
  · have notOpeningRest : closed = 0 → Avoids (fun found => found = '(') rest := by
      rintro rfl
      exact notOpening
    rw [if_neg enough]
    exact (takes_collapsed (Nat.lt_of_not_le enough) begins notClosing notOpeningRest).yields

/-! ### Runs and answers -/

theorem throughout_nestingRules {accepts : Grammar Char Value → Prop}
    (holds : (Grammar.rebuilt [] nesting).Throughout accepts) : nestingRules.Throughout accepts := by
  intro index body found
  cases index with
  | zero =>
      obtain rfl := Option.some.inj found
      exact holds
  | succ index => simp [nestingRules, Rules.body?] at found

theorem balanced_finishes_iff {outcome : Outcome Value} (state : ParserState Value) :
    (∃ final, balanced.Finishes nestingRules source start state (outcome, final)) ↔
      outcome = .success (nestedWidth (remaining source start)) .unit := by
  have spares : balanced.Throughout Grammar.SparesTables := trivial
  have rulesSpare : nestingRules.Throughout Grammar.SparesTables :=
    throughout_nestingRules
      ⟨trivial, trivial, trivial, ⟨trivial, trivial, trivial⟩, trivial⟩
  rw [Grammar.finishes_iff_yields_of_sparesTables spares rulesSpare]
  constructor
  · intro yields
    exact yields.unique (balanced_yields source start)
  · rintro rfl
    exact balanced_yields source start

theorem balanced_answers_iff {answer : Option Value} (state : ParserState Value) :
    balanced.Answers nestingRules source state answer ↔
      answer = if nestedWidth source.toList = source.size then some .unit else none := by
  simp only [Grammar.answers_iff_finishes, balanced_finishes_iff, exists_eq_left]
  rfl

/-- The rule of nested brackets comes to a match at every position of every source.  It takes the
opening brackets ahead and as many closing ones, if there are as many, and nothing otherwise.  So it
matches a whole source exactly when this is opening brackets and as many closing brackets. -/
theorem balanced_exact (source : Array Char) (state : ParserState Value) :
    (∀ start outcome,
      (∃ final, balanced.Finishes nestingRules source start state (outcome, final)) ↔
        outcome = .success (nestedWidth (remaining source start)) .unit) ∧
    (∃ answer, balanced.Answers nestingRules source state answer) ∧
    ((∃ value, balanced.Answers nestingRules source state (some value)) ↔
      ∃ depth, source.toList = List.replicate depth '(' ++ List.replicate depth ')') ∧
    ∀ answer last, balanced.parseComplete nestingRules source state = some (answer, last) →
      (answer.isSome ↔
        ∃ depth, source.toList = List.replicate depth '(' ++ List.replicate depth ')') := by
  refine ⟨fun start outcome => balanced_finishes_iff state,
    ⟨_, (balanced_answers_iff state).mpr rfl⟩, ?_, fun answer last parsed => ?_⟩
  · rw [← nestedWidth_eq_length_iff, Array.length_toList]
    simp [balanced_answers_iff]
  · rw [← nestedWidth_eq_length_iff, Array.length_toList,
      (balanced_answers_iff state).mp (Grammar.answers_of_parseComplete parsed)]
    split <;> simp [*]

/-- Two levels with a letter behind them, and an outer level without its closing bracket. -/
theorem balanced_exact_twoLevels :
    (∃ final, balanced.Finishes nestingRules "(())x".toList.toArray 0 {}
      (.success 4 .unit, final)) ∧
    ∃ final, balanced.Finishes nestingRules "(()".toList.toArray 0 {} (.success 0 .unit, final) :=
  ⟨((balanced_exact "(())x".toList.toArray {}).1 0 _).mpr rfl,
    ((balanced_exact "(()".toList.toArray {}).1 0 _).mpr rfl⟩

end Text

end RecursiveDescent
