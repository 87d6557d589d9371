import RecursiveDescent.Calculator
import RecursiveDescent.Proofs.ArithmeticSyntax

/-!
# What the calculator matches

The grammar of the calculator chooses in order and reads as much as it can, and the language of
arithmetic expressions allows every reading.  Nothing is lost by that.  What the grammar of a
category matches belongs to the category, and it matches every text of the category in front of
something that may follow it there: the end of the input, a closing parenthesis, or an operator of
a lower level.  So an operand never ends too early or too late, and an operator without an operand
behind it is never left over.

The main statement is `Calculator.whole_yields_iff`.
-/

namespace RecursiveDescent

namespace Calculator

open Arithmetic
open Text (TextGrammar IsBlank IsNumeral)

variable {ruleSet : Rules Char Value} {source : Array Char} {start : Nat}
  {text blank rest : List Char} {value : Value} {inner operand : TextGrammar} {operators : String}

/-! ### Tokens -/

theorem takes_token (inside : inner.Takes ruleSet source start text value)
    (isBlank : IsBlank blank) (begins : remaining source start = text ++ (blank ++ rest))
    (maximal : Avoids Text.isWhitespace rest) :
    (token inner).Takes ruleSet source start (text ++ blank) value := by
  obtain ⟨_, spaces⟩ := Text.takes_spaces ruleSet isBlank (remaining_of_eq_append begins) maximal
  exact inside.sequence spaces

theorem of_takes_token (takes : (token inner).Takes ruleSet source start text value) :
    ∃ tokenText blank, text = tokenText ++ blank ∧
      inner.Takes ruleSet source start tokenText value ∧ IsBlank blank := by
  obtain ⟨tokenText, blank, _, _, rfl, inside, spaces, rfl⟩ := takes.of_sequence
  exact ⟨tokenText, blank, rfl, inside, Text.isBlank_of_takes_spaces spaces⟩

theorem takes_token_element {isMember : Char → Bool} {first : Char} (member : isMember first)
    (isBlank : IsBlank blank) (begins : remaining source start = first :: (blank ++ rest))
    (maximal : Avoids Text.isWhitespace rest) :
    (token (Text.characterOf isMember)).Takes ruleSet source start (first :: blank)
      (.char first) :=
  takes_token (Grammar.takes_element begins member) isBlank begins maximal

theorem of_takes_token_element {isMember : Char → Bool}
    (takes : (token (Text.characterOf isMember)).Takes ruleSet source start text value) :
    ∃ first blank, text = first :: blank ∧ isMember first ∧ value = .char first ∧
      IsBlank blank := by
  obtain ⟨_, blank, rfl, inside, isBlank⟩ := of_takes_token takes
  obtain ⟨first, rfl, member, rfl⟩ := inside.of_element
  exact ⟨first, blank, rfl, member, rfl, isBlank⟩

theorem token_element_fails {isMember : Char → Bool}
    (avoids : Avoids isMember (remaining source start)) :
    (token (Text.characterOf isMember)).Yields ruleSet source start .failure :=
  Grammar.sequence_fails_first (Grammar.element_fails avoids)

/-! ### Levels of precedence -/

theorem gathered_aggregate (head : Value) (values : List Value) :
    ValueCollector.gathered (Collector.aggregate head Value.applyStep) values =
      values.foldl Value.applyStep head :=
  rfl

theorem applyStep_float (left : Binary64) (step : Step) :
    Value.applyStep (.float left) (.pair (.char step.operator) (.float step.value)) =
      .float (step.apply left) := by
  obtain ⟨operator, blank, operand, number⟩ := step
  simp only [Value.applyStep, Operation.onValues, Step.apply]
  congr 1
  unfold Operation.ofOperator
  split
  · rfl
  · rfl
  · rfl
  · simp [Operation.onFloats]

theorem foldl_applyStep (first : Binary64) (steps : List Step) :
    (steps.map fun step => Value.pair (.char step.operator) (.float step.value)).foldl
      Value.applyStep (.float first) = .float (applySteps first steps) := by
  induction steps generalizing first with
  | nil => rfl
  | cons step steps stepsCase =>
      rw [List.map_cons, List.foldl_cons, applyStep_float, stepsCase, applySteps_cons]

/-- The operators and operands of a level, as far as there are any. -/
theorem steps_of_repeats {isMember : Char → Bool} {denotes : List Char → Binary64 → Prop}
    {taken : List (List Char × Value)}
    (repeats : (Grammar.sequence (token (Text.characterOf isMember)) operand .pair).Repeats ruleSet
      source start taken)
    (operands : ∀ start text value, text.length ≤ (Grammar.spelled taken).length →
      operand.Takes ruleSet source start text value →
        ∃ number, value = .float number ∧ denotes text number) :
    ∃ steps : List Step, Grammar.spelled taken = stepsSpelling steps ∧
      (taken.map Prod.snd =
        steps.map fun step => Value.pair (.char step.operator) (.float step.value)) ∧
      (∀ step ∈ steps, isMember step.operator) ∧ (∀ step ∈ steps, IsBlank step.blank) ∧
      ∀ step ∈ steps, denotes step.operand step.value := by
  induction repeats with
  | stop fails => exact ⟨[], rfl, rfl, by simp, by simp, by simp⟩
  | @more start text value taken takes others othersCase =>
      rw [Grammar.spelled_cons] at operands ⊢
      obtain ⟨operatorText, operandText, _, operandValue, rfl, delimits, inside, rfl⟩ :=
        takes.of_sequence
      obtain ⟨operator, blank, rfl, member, rfl, isBlank⟩ := of_takes_token_element delimits
      obtain ⟨number, rfl, denoted⟩ := operands _ operandText operandValue (by simp; omega) inside
      obtain ⟨steps, spelling, values, members, blanks, denotedAll⟩ :=
        othersCase fun start text value shorter => operands start text value (by
          rw [List.length_append]
          omega)
      refine ⟨⟨operator, blank, operandText, number⟩ :: steps, ?_, ?_, ?_, ?_, ?_⟩
      · rw [spelling]
        rfl
      · rw [List.map_cons, List.map_cons, values]
      · exact List.forall_mem_cons.mpr ⟨member, members⟩
      · exact List.forall_mem_cons.mpr ⟨isBlank, blanks⟩
      · exact List.forall_mem_cons.mpr ⟨denoted, denotedAll⟩

theorem of_takes_level {denotes : List Char → Binary64 → Prop}
    (takes : (level operand operators).Takes ruleSet source start text value)
    (operands : ∀ start part value, part.length ≤ text.length →
      operand.Takes ruleSet source start part value →
        ∃ number, value = .float number ∧ denotes part number) :
    ∃ head number steps, text = head ++ stepsSpelling steps ∧ denotes head number ∧
      (∀ step ∈ steps, operators.toList.contains step.operator) ∧
      (∀ step ∈ steps, IsBlank step.blank) ∧
      (∀ step ∈ steps, denotes step.operand step.value) ∧
      value = .float (applySteps number steps) := by
  obtain ⟨head, headValue, taken, beginning, others, rfl, rfl⟩ := takes.of_delimited
  obtain ⟨number, rfl, denoted⟩ := operands start head headValue (by simp) beginning
  obtain ⟨steps, spelling, values, members, blanks, denotedAll⟩ := steps_of_repeats others
    fun start text value shorter => operands start text value (by
      rw [List.length_append]
      omega)
  refine ⟨head, number, steps, by rw [spelling], denoted, members, blanks, denotedAll, ?_⟩
  rw [gathered_aggregate, values, foldl_applyStep]

theorem ledBy_steps {mayFollow : Char → Bool} {steps : List Step}
    (operators : ∀ step ∈ steps, mayFollow step.operator) (follows : LedBy mayFollow rest) :
    LedBy mayFollow (stepsSpelling steps ++ rest) := by
  cases steps with
  | nil => exact follows
  | cons step steps => exact ledBy_cons.mpr (operators step List.mem_cons_self)

/-- Operators and operands are matched one behind the other up to a text that goes on otherwise. -/
theorem repeats_of_steps {isMember mayFollow : Char → Bool} {steps : List Step}
    (members : ∀ step ∈ steps, isMember step.operator)
    (blanks : ∀ step ∈ steps, IsBlank step.blank)
    (black : ∀ step ∈ steps, ∀ rest, Avoids Text.isWhitespace (step.operand ++ rest))
    (operands : ∀ step ∈ steps, ∀ start rest,
      remaining source start = step.operand ++ rest → LedBy mayFollow rest →
        operand.Takes ruleSet source start step.operand (.float step.value))
    (included : ∀ character, isMember character → mayFollow character)
    (begins : remaining source start = stepsSpelling steps ++ rest)
    (follows : LedBy mayFollow rest) (ends : Avoids isMember rest) :
    ∃ taken, (Grammar.sequence (token (Text.characterOf isMember)) operand .pair).Repeats ruleSet
        source start taken ∧
      Grammar.spelled taken = stepsSpelling steps ∧
      taken.map Prod.snd =
        steps.map fun step => Value.pair (.char step.operator) (.float step.value) := by
  induction steps generalizing start with
  | nil =>
      refine ⟨[], .stop (Grammar.sequence_fails_first (token_element_fails ?_)), rfl, rfl⟩
      rw [begins]
      exact ends
  | cons step steps stepsCase =>
      obtain ⟨member, members⟩ := List.forall_mem_cons.mp members
      obtain ⟨isBlank, blanks⟩ := List.forall_mem_cons.mp blanks
      obtain ⟨blackHere, black⟩ := List.forall_mem_cons.mp black
      obtain ⟨operandHere, operands⟩ := List.forall_mem_cons.mp operands
      have beginsStep : remaining source start =
          step.operator :: (step.blank ++ (step.operand ++ (stepsSpelling steps ++ rest))) := by
        simpa [Step.spelling] using begins
      have delimits : (token (Text.characterOf isMember)).Takes ruleSet source start
          (step.operator :: step.blank) (.char step.operator) :=
        takes_token_element member isBlank beginsStep (blackHere _)
      have beginsOperand : remaining source (start + (step.operator :: step.blank).length) =
          step.operand ++ (stepsSpelling steps ++ rest) :=
        remaining_of_eq_append beginsStep
      have followsOperand : LedBy mayFollow (stepsSpelling steps ++ rest) :=
        ledBy_steps (fun next among => included _ (members next among)) follows
      have inside := operandHere _ _ beginsOperand followsOperand
      have pair : (Grammar.sequence (token (Text.characterOf isMember)) operand .pair).Takes ruleSet
          source start step.spelling _ := delimits.sequence inside
      have beginsOthers : remaining source (start + step.spelling.length) =
          stepsSpelling steps ++ rest := by
        refine remaining_of_eq_append ?_
        simpa using begins
      obtain ⟨taken, repeats, spelling, values⟩ :=
        stepsCase members blanks black operands beginsOthers
      refine ⟨_, .more pair repeats, ?_, ?_⟩
      · rw [Grammar.spelled_cons, spelling, stepsSpelling_cons]
      · rw [List.map_cons, values, List.map_cons]

theorem takes_level {mayFollow : Char → Bool} {head : List Char} {number : Binary64}
    {steps : List Step} (beginning : operand.Takes ruleSet source start head (.float number))
    (members : ∀ step ∈ steps, operators.toList.contains step.operator)
    (blanks : ∀ step ∈ steps, IsBlank step.blank)
    (black : ∀ step ∈ steps, ∀ rest, Avoids Text.isWhitespace (step.operand ++ rest))
    (operands : ∀ step ∈ steps, ∀ start rest,
      remaining source start = step.operand ++ rest → LedBy mayFollow rest →
        operand.Takes ruleSet source start step.operand (.float step.value))
    (included : ∀ character, operators.toList.contains character → mayFollow character)
    (begins : remaining source start = head ++ (stepsSpelling steps ++ rest))
    (follows : LedBy mayFollow rest)
    (ends : Avoids (fun found => operators.toList.contains found) rest) :
    (level operand operators).Takes ruleSet source start (head ++ stepsSpelling steps)
      (.float (applySteps number steps)) := by
  obtain ⟨taken, repeats, spelling, values⟩ := repeats_of_steps members blanks black operands
    included (remaining_of_eq_append begins) follows ends
  have takes : (level operand operators).Takes ruleSet source start _ _ :=
    Grammar.takes_delimited beginning repeats
  rw [spelling, values, gathered_aggregate, foldl_applyStep] at takes
  exact takes

/-! ### The rules -/

def bracketed : TextGrammar :=
  Grammar.keepingFirst (Grammar.keepingSecond (token (Text.character '(')) (.rule expressionRule))
    (token (Text.character ')'))

def negated : TextGrammar :=
  .map (Grammar.keepingSecond (token (Text.character '-')) (.rule factorRule)) Value.negate

def categoryGrammar : Category → TextGrammar
  | .expression => sum
  | .term => term
  | .factor => factor
  | .primary => primary

theorem takes_expressionRule_iff :
    (Grammar.rule expressionRule).Takes rules source start text value ↔
      sum.Takes rules source start text value := by
  have defined : (Grammar.rule expressionRule).form rules source =
      .adjusted (.traced "expr" sum) fun _ outcome => outcome := rfl
  constructor
  · intro takes
    exact (takes.of_passed defined).of_passed rfl
  · intro takes
    exact (takes.passed rfl).passed defined

theorem takes_factorRule_iff :
    (Grammar.rule factorRule).Takes rules source start text value ↔
      factor.Takes rules source start text value := by
  have defined : (Grammar.rule factorRule).form rules source =
      .adjusted (.rebuilt [] factor) fun _ outcome => outcome := rfl
  constructor
  · intro takes
    exact (takes.of_passed defined).of_passed rfl
  · intro takes
    exact (takes.passed rfl).passed defined

/-! ### What is matched has a value -/

/-- Texts of limited length that the grammar of the category matches denote what it yields. -/
def SoundBelow (source : Array Char) (limit : Nat) (category : Category) : Prop :=
  ∀ start text value, text.length < limit →
    (categoryGrammar category).Takes rules source start text value →
      ∃ number, value = .float number ∧ Denotes category text number

theorem soundBelow_primary (spanned : source.size < lastPosition) {limit : Nat}
    (expressions : SoundBelow source limit .expression) :
    SoundBelow source (limit + 1) .primary := by
  intro start text value bounded takes
  have alternatives : Grammar.Takes (.choice _ _) rules source start text value :=
    takes.of_passed rfl
  rcases alternatives.of_choice with bracketed | literal
  · obtain ⟨front, closing, _, _, rfl, opened, closes, rfl⟩ := bracketed.of_sequence
    obtain ⟨opening, inside, _, _, rfl, opens, within, rfl⟩ := opened.of_sequence
    obtain ⟨first, blank, rfl, isOpening, _, isBlank⟩ := of_takes_token_element opens
    obtain ⟨last, trailing, rfl, isClosing, _, isTrailing⟩ := of_takes_token_element closes
    obtain rfl : first = '(' := by simpa using isOpening
    obtain rfl : last = ')' := by simpa using isClosing
    have shorter : inside.length < limit := by
      simp at bounded
      omega
    obtain ⟨number, rfl, denotes⟩ :=
      expressions _ inside _ shorter (takes_expressionRule_iff.mp within)
    refine ⟨number, rfl, ?_⟩
    have whole := Denotes.parenthesized isBlank denotes isTrailing
    simpa using whole
  · obtain ⟨numeralText, trailing, rfl, decimal, isTrailing⟩ := of_takes_token literal
    obtain ⟨numeral, finite, rfl⟩ := Text.of_takes_decimal decimal spanned
    exact ⟨_, rfl, .literal numeral finite isTrailing⟩

theorem soundBelow_factor {limit : Nat} (factors : SoundBelow source limit .factor)
    (primaries : SoundBelow source (limit + 1) .primary) :
    SoundBelow source (limit + 1) .factor := by
  intro start text value bounded takes
  rcases takes.of_choice with negation | plain
  · obtain ⟨_, negated, rfl⟩ := negation.of_map
    obtain ⟨_, operandText, _, _, rfl, minus, within, rfl⟩ := negated.of_sequence
    obtain ⟨first, blank, rfl, isMinus, _, isBlank⟩ := of_takes_token_element minus
    obtain rfl : first = '-' := by simpa using isMinus
    have shorter : operandText.length < limit := by
      simp at bounded
      omega
    obtain ⟨number, rfl, denotes⟩ :=
      factors _ operandText _ shorter (takes_factorRule_iff.mp within)
    exact ⟨-number, rfl, .negation isBlank denotes⟩
  · obtain ⟨number, rfl, denotes⟩ := primaries start text value bounded plain
    exact ⟨number, rfl, .plain denotes⟩

theorem soundBelow_term {limit : Nat} (factors : SoundBelow source limit .factor) :
    SoundBelow source limit .term := by
  intro start text value bounded takes
  obtain ⟨head, number, steps, rfl, denotes, members, blanks, operands, rfl⟩ :=
    of_takes_level takes fun start part value shorter within =>
      factors start part value (by omega) (takes_factorRule_iff.mp within)
  refine ⟨_, rfl, .term denotes (fun step member => ?_) blanks operands⟩
  simpa using members step member

theorem soundBelow_expression {limit : Nat} (terms : SoundBelow source limit .term) :
    SoundBelow source limit .expression := by
  intro start text value bounded takes
  obtain ⟨head, number, steps, rfl, denotes, members, blanks, operands, rfl⟩ :=
    of_takes_level takes fun start part value shorter within =>
      terms start part value (by omega) within
  refine ⟨_, rfl, .expression denotes (fun step member => ?_) blanks operands⟩
  simpa using members step member

/-- Whatever the grammar of a category matches belongs to the category.  Between an expression and
an expression inside it there is a parenthesis, and between a factor and a factor inside it a minus
sign or a parenthesis, so the induction is on the length of the text. -/
theorem soundBelow (spanned : source.size < lastPosition) (limit : Nat) :
    ∀ category, SoundBelow source limit category := by
  induction limit with
  | zero => exact fun category start text value bounded => absurd bounded (Nat.not_lt_zero _)
  | succ limit induction =>
      have primaries := soundBelow_primary spanned (induction .expression)
      have factors := soundBelow_factor (induction .factor) primaries
      have terms := soundBelow_term factors
      intro category
      cases category with
      | expression => exact soundBelow_expression terms
      | term => exact terms
      | factor => exact factors
      | primary => exact primaries

/-! ### What has a value is matched -/

theorem mayPrecede_cases {character : Char} (may : Category.primary.mayPrecede character) :
    Text.isWhitespace character = false ∧ Text.extendsNumeral character = false := by
  simp only [Category.mayPrecede, Bool.or_eq_true, decide_eq_true_eq] at may
  rcases may with (((rfl | rfl) | rfl) | rfl) | rfl <;> decide

theorem mayPrecede_primary (category : Category) (character : Char)
    (may : category.mayPrecede character) : Category.primary.mayPrecede character := by
  cases category with
  | expression | term =>
      simp only [Category.mayPrecede, Bool.or_eq_true, decide_eq_true_eq] at may ⊢
      grind
  | factor | primary => exact may

theorem avoids_whitespace_of_ledBy {category : Category}
    (follows : LedBy category.mayPrecede rest) : Avoids Text.isWhitespace rest :=
  (follows.mono (mayPrecede_primary category)).avoids fun _ may => (mayPrecede_cases may).1

/-- Behind a literal, white space and what may follow a primary do not go on with it. -/
theorem avoids_extendsNumeral (isBlank : IsBlank blank)
    (follows : LedBy Category.primary.mayPrecede rest) :
    Avoids Text.extendsNumeral (blank ++ rest) := by
  cases blank with
  | nil => exact follows.avoids fun _ may => (mayPrecede_cases may).2
  | cons first others =>
      have white := isBlank first List.mem_cons_self
      refine avoids_cons.mpr ?_
      cases member : Text.extendsNumeral first with
      | false => rfl
      | true =>
          simp only [Text.extendsNumeral, Text.isDigitOrPoint, Bool.or_eq_true,
            decide_eq_true_eq] at member
          rcases member with ((digit | rfl) | rfl) | rfl
          · rw [Text.isWhitespace_of_isDigit digit] at white
            cases white
          · exact absurd white (by decide)
          · exact absurd white (by decide)
          · exact absurd white (by decide)

/-- Texts of the category are matched where something follows that may. -/
def Completes (source : Array Char) (category : Category) (text : List Char)
    (number : Binary64) : Prop :=
  ∀ start rest, remaining source start = text ++ rest → LedBy category.mayPrecede rest →
    (categoryGrammar category).Takes rules source start text (.float number)

theorem completes_literal (spanned : source.size < lastPosition) {trailing : List Char}
    (numeral : IsNumeral text) (finite : (Decimal.value text).isFinite)
    (isTrailing : IsBlank trailing) :
    Completes source .primary (text ++ trailing) (Decimal.value text) := by
  intro start rest begins follows
  rw [List.append_assoc] at begins
  have literal := Text.takes_decimal rules numeral finite begins
    (avoids_extendsNumeral isTrailing follows) spanned
  have tokens := takes_token literal isTrailing begins (avoids_whitespace_of_ledBy follows)
  -- No literal begins with a parenthesis.
  obtain ⟨first, others, cons, kind⟩ := exists_first_of_isNumeral numeral
  have notOpening : first ≠ '(' := by
    rcases kind with digit | rfl | rfl
    · exact Text.ne_of_isDigit digit (by decide)
    · decide
    · decide
  have fails : (token (Text.character '(')).Yields rules source start .failure := by
    refine token_element_fails ?_
    rw [begins, cons]
    exact avoids_cons.mpr (by simpa using notOpening)
  have bracketedFails : bracketed.Yields rules source start .failure :=
    Grammar.sequence_fails_first (Grammar.sequence_fails_first fails)
  exact (tokens.choice_second bracketedFails).passed rfl

theorem completes_parenthesized {trailing : List Char} {number : Binary64}
    (isBlank : IsBlank blank) (denotes : Denotes .expression text number)
    (inside : Completes source .expression text number) (isTrailing : IsBlank trailing) :
    Completes source .primary ('(' :: (blank ++ (text ++ ')' :: trailing))) number := by
  intro start rest begins follows
  have beginsOpening : remaining source start =
      '(' :: (blank ++ (text ++ (')' :: (trailing ++ rest)))) := by
    simpa using begins
  have opens : (token (Text.character '(')).Takes rules source start ('(' :: blank)
      (.char '(') :=
    takes_token_element (by decide) isBlank beginsOpening (denotes.avoids_whitespace _)
  have beginsInside : remaining source (start + ('(' :: blank).length) =
      text ++ (')' :: (trailing ++ rest)) := remaining_of_eq_append beginsOpening
  have within := takes_expressionRule_iff.mpr
    (inside _ _ beginsInside (ledBy_cons.mpr (by decide)))
  have opened : (Grammar.keepingSecond (token (Text.character '(')) (.rule expressionRule)).Takes
      rules source start ('(' :: blank ++ text) (.float number) :=
    opens.sequence within
  have beginsClosing : remaining source (start + ('(' :: blank ++ text).length) =
      ')' :: (trailing ++ rest) := by
    refine remaining_of_eq_append ?_
    simpa using begins
  have closes : (token (Text.character ')')).Takes rules source _ (')' :: trailing)
      (.char ')') :=
    takes_token_element (by decide) isTrailing beginsClosing (avoids_whitespace_of_ledBy follows)
  have matched : bracketed.Takes rules source start
      ('(' :: blank ++ text ++ ')' :: trailing) (.float number) := opened.sequence closes
  have alternatives : (Grammar.choice bracketed (token Text.decimal)).Takes rules source
      start ('(' :: blank ++ text ++ ')' :: trailing) (.float number) := matched.choice_first
  have whole : primary.Takes rules source start _ _ := alternatives.passed rfl
  simpa [categoryGrammar] using whole

theorem completes_negation {number : Binary64} (isBlank : IsBlank blank)
    (denotes : Denotes .factor text number) (operand : Completes source .factor text number) :
    Completes source .factor ('-' :: (blank ++ text)) (-number) := by
  intro start rest begins follows
  have beginsMinus : remaining source start = '-' :: (blank ++ (text ++ rest)) := by
    simpa using begins
  have minus : (token (Text.character '-')).Takes rules source start ('-' :: blank)
      (.char '-') :=
    takes_token_element (by decide) isBlank beginsMinus (denotes.avoids_whitespace _)
  have beginsOperand : remaining source (start + ('-' :: blank).length) = text ++ rest :=
    remaining_of_eq_append beginsMinus
  have within := takes_factorRule_iff.mpr (operand _ _ beginsOperand follows)
  have signed : (Grammar.keepingSecond (token (Text.character '-')) (.rule factorRule)).Takes
      rules source start ('-' :: blank ++ text) (.float number) := minus.sequence within
  have matched : negated.Takes rules source start ('-' :: blank ++ text)
      (.float (-number)) := signed.map
  exact matched.choice_first

/-- A primary without a minus sign in front is a factor. -/
theorem completes_plain {first : Char} {others : List Char} {number : Binary64}
    (notMinus : first ≠ '-') (operand : Completes source .primary (first :: others) number) :
    Completes source .factor (first :: others) number := by
  intro start rest begins follows
  have fails : (token (Text.character '-')).Yields rules source start .failure := by
    refine token_element_fails ?_
    rw [begins]
    exact avoids_cons.mpr (by simpa using notMinus)
  have negatedFails : negated.Yields rules source start .failure :=
    Grammar.map_fails (Grammar.sequence_fails_first fails)
  exact (operand start rest begins follows).choice_second negatedFails

/-- A minus sign in front of a literal goes to the factor, which negates the literal without it. -/
theorem completes_factor_literal (spanned : source.size < lastPosition) {trailing : List Char}
    (numeral : IsNumeral text) (finite : (Decimal.value text).isFinite)
    (isTrailing : IsBlank trailing) :
    Completes source .factor (text ++ trailing) (Decimal.value text) := by
  obtain ⟨sign, run, fraction, exponent, isSign, isRun, isFraction, isExponent, rfl⟩ := numeral
  obtain ⟨first, others, rfl, digit⟩ := isRun.exists_cons
  have notMinus : first ≠ '-' := Text.ne_of_isDigit digit (by decide)
  have unsigned : IsNumeral (first :: others ++ fraction ++ exponent) :=
    ⟨[], first :: others, fraction, exponent, .inl rfl, isRun, isFraction, isExponent, rfl⟩
  rcases isSign with rfl | rfl | rfl
  · exact completes_plain notMinus (completes_literal spanned unsigned finite isTrailing)
  · have signed : IsNumeral (['+'] ++ first :: others ++ fraction ++ exponent) :=
      ⟨['+'], first :: others, fraction, exponent, .inr (.inl rfl), isRun, isFraction, isExponent,
        rfl⟩
    exact completes_plain (by decide) (completes_literal spanned signed finite isTrailing)
  · have negates : Decimal.value (['-'] ++ first :: others ++ fraction ++ exponent) =
        -Decimal.value (first :: others ++ fraction ++ exponent) := Decimal.value_minus digit
    rw [negates] at finite ⊢
    rw [Binary64.isFinite_neg] at finite
    have operand := completes_plain notMinus
      (completes_literal spanned unsigned finite isTrailing)
    have denotes : Denotes .factor (first :: others ++ fraction ++ exponent ++ trailing) _ :=
      .plain (.literal unsigned finite isTrailing)
    have noBlank : IsBlank [] := fun _ absent => absurd absent List.not_mem_nil
    have whole : Completes source .factor ('-' :: ([] ++
        (first :: others ++ fraction ++ exponent ++ trailing))) _ :=
      completes_negation noBlank denotes operand
    exact whole

theorem contains_products (character : Char) :
    "*/".toList.contains character ↔ character = '*' ∨ character = '/' := by
  simp

/-- Operands of the inner category make up a text of the outer one. -/
theorem completes_level (inner outer : Category) {number : Binary64} {steps : List Step}
    (shape : categoryGrammar outer = level operand operators)
    (operandTakes : ∀ start text value,
      (categoryGrammar inner).Takes rules source start text value →
        operand.Takes rules source start text value)
    (mayStand : ∀ character, operators.toList.contains character → inner.mayPrecede character)
    (mayFollow : ∀ character, outer.mayPrecede character →
      inner.mayPrecede character ∧ operators.toList.contains character = false)
    (headCompletes : Completes source inner text number)
    (members : ∀ step ∈ steps, operators.toList.contains step.operator)
    (blanks : ∀ step ∈ steps, IsBlank step.blank)
    (operands : ∀ step ∈ steps, Denotes inner step.operand step.value)
    (operandsComplete : ∀ step ∈ steps, Completes source inner step.operand step.value) :
    Completes source outer (text ++ stepsSpelling steps) (applySteps number steps) := by
  intro start rest begins follows
  rw [List.append_assoc] at begins
  have followsOperand : LedBy inner.mayPrecede rest :=
    follows.mono fun character may => (mayFollow character may).1
  have beginning := operandTakes _ _ _ (headCompletes start _ begins
    (ledBy_steps (fun step member => mayStand _ (members step member)) followsOperand))
  rw [shape]
  exact takes_level beginning members blanks
    (fun step member => (operands step member).avoids_whitespace)
    (fun step member position others beginsThere followsThere => operandTakes _ _ _
      (operandsComplete step member position others beginsThere followsThere))
    mayStand begins followsOperand
    (follows.avoids fun character may => (mayFollow character may).2)

/-- Whatever belongs to a category is matched by its grammar where something follows that may. -/
theorem completes (spanned : source.size < lastPosition) {category : Category} {number : Binary64}
    (denotes : Denotes category text number) : Completes source category text number := by
  induction denotes with
  | expression head operators blanks operands headCase operandsCase =>
      refine completes_level .term .expression rfl (fun _ _ _ takes => takes) ?_ ?_ headCase
        (fun step member => (Text.contains_signs _).mpr (operators step member)) blanks operands
        operandsCase
      · intro character member
        rcases (Text.contains_signs character).mp member with rfl | rfl <;> decide
      · intro character may
        obtain rfl : character = ')' := by simpa [Category.mayPrecede] using may
        decide
  | term head operators blanks operands headCase operandsCase =>
      refine completes_level .factor .term rfl (fun _ _ _ => takes_factorRule_iff.mpr) ?_ ?_
        headCase (fun step member => (contains_products _).mpr (operators step member)) blanks
        operands operandsCase
      · intro character member
        rcases (contains_products character).mp member with rfl | rfl <;> decide
      · intro character may
        simp only [Category.mayPrecede, Bool.or_eq_true, decide_eq_true_eq] at may
        rcases may with (rfl | rfl) | rfl <;> decide
  | negation isBlank operand operandCase => exact completes_negation isBlank operand operandCase
  | plain operand operandCase =>
      -- Only the text of the primary tells whether a minus sign stands in front.
      cases operand with
      | parenthesized isBlank inside isTrailing => exact completes_plain (by decide) operandCase
      | literal numeral finite isTrailing =>
          exact completes_factor_literal spanned numeral finite isTrailing
  | parenthesized isBlank inside isTrailing insideCase =>
      exact completes_parenthesized isBlank inside insideCase isTrailing
  | literal numeral finite isTrailing => exact completes_literal spanned numeral finite isTrailing

/-! ### Whole inputs -/

/-- The calculator consumes exactly the inputs that denote a number, and yields the number. -/
theorem whole_yields_iff (spanned : source.size < lastPosition) :
    whole.Yields rules source 0 (.success source.size value) ↔
      ∃ number, value = .float number ∧ DenotesInput source.toList number := by
  rw [← Grammar.takes_all_iff]
  constructor
  · intro takes
    obtain ⟨blank, text, _, _, spelling, spaces, within, rfl⟩ := takes.of_sequence
    obtain ⟨number, rfl, denotes⟩ := soundBelow spanned (text.length + 1) .expression _ text _
      (Nat.lt_succ_self _) (takes_expressionRule_iff.mp within)
    exact ⟨number, rfl, blank, text, spelling, Text.isBlank_of_takes_spaces spaces, denotes⟩
  · rintro ⟨number, rfl, blank, text, spelling, isBlank, denotes⟩
    have begins : remaining source 0 = blank ++ text := spelling
    have black := denotes.avoids_whitespace []
    rw [List.append_nil] at black
    obtain ⟨_, spaces⟩ := Text.takes_spaces rules isBlank begins black
    have beginsText : remaining source (0 + blank.length) = text ++ [] := by
      rw [List.append_nil]
      exact remaining_of_eq_append begins
    have within := takes_expressionRule_iff.mpr
      (completes spanned denotes _ _ beginsText (ledBy_nil _))
    rw [spelling]
    exact spaces.sequence within

/-- The grammar of expressions is ambiguous, but only between readings that denote the same. -/
theorem denotesInput_unique {input : List Char} (spanned : input.length < lastPosition)
    {first second : Binary64} (denotes : DenotesInput input first)
    (denotesToo : DenotesInput input second) : first = second := by
  have yields {number : Binary64} (denotes : DenotesInput input number) :
      whole.Yields rules input.toArray 0 (.success input.toArray.size (.float number)) :=
    (whole_yields_iff spanned).mpr ⟨number, rfl, denotes⟩
  cases (yields denotes).unique (yields denotesToo)
  rfl

end Calculator

end RecursiveDescent
