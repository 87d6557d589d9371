import RecursiveDescent.Proofs.DecimalSyntax

/-!
# The language of arithmetic expressions

An ordinary grammar of expressions with the values that they denote:

* an expression is terms with `+` and `-` between them,
* a term is factors with `*` and `/` between them,
* a factor is a minus sign and a factor, or a primary,
* a primary is an expression in parentheses, or a decimal literal with a finite value.

White space may stand behind every token.  Operations of one level are carried out from the left.
The grammar is ambiguous: a minus sign in front of digits may belong to the literal or not.
-/

namespace RecursiveDescent

namespace Arithmetic

open Text (IsBlank IsNumeral)

/-- An operator, white space and an operand, which stand behind a first operand. -/
structure Step where
  operator : Char
  blank : List Char
  operand : List Char
  value : Binary64

def Step.spelling (step : Step) : List Char :=
  step.operator :: (step.blank ++ step.operand)

/-- Carries out the operation of a step. -/
def Step.apply (left : Binary64) (step : Step) : Binary64 :=
  match step.operator with
  | '+' => left + step.value
  | '-' => left - step.value
  | '*' => left * step.value
  | _ => left / step.value

def stepsSpelling (steps : List Step) : List Char :=
  steps.flatMap Step.spelling

/-- Carries out the operations of all steps from the left. -/
def applySteps (first : Binary64) (steps : List Step) : Binary64 :=
  steps.foldl Step.apply first

@[simp]
theorem stepsSpelling_cons (step : Step) (steps : List Step) :
    stepsSpelling (step :: steps) = step.spelling ++ stepsSpelling steps :=
  rfl

@[simp]
theorem applySteps_cons (first : Binary64) (step : Step) (steps : List Step) :
    applySteps first (step :: steps) = applySteps (step.apply first) steps :=
  rfl

/-- What a text can be read as. -/
inductive Category where
  | expression
  | term
  | factor
  | primary

/-- The text belongs to the category and denotes the number. -/
inductive Denotes : Category → List Char → Binary64 → Prop where
  | expression {text : List Char} {number : Binary64} {steps : List Step}
      (head : Denotes .term text number)
      (operators : ∀ step ∈ steps, step.operator = '+' ∨ step.operator = '-')
      (blanks : ∀ step ∈ steps, IsBlank step.blank)
      (operands : ∀ step ∈ steps, Denotes .term step.operand step.value) :
      Denotes .expression (text ++ stepsSpelling steps) (applySteps number steps)
  | term {text : List Char} {number : Binary64} {steps : List Step}
      (head : Denotes .factor text number)
      (operators : ∀ step ∈ steps, step.operator = '*' ∨ step.operator = '/')
      (blanks : ∀ step ∈ steps, IsBlank step.blank)
      (operands : ∀ step ∈ steps, Denotes .factor step.operand step.value) :
      Denotes .term (text ++ stepsSpelling steps) (applySteps number steps)
  | negation {blank text : List Char} {number : Binary64} (isBlank : IsBlank blank)
      (operand : Denotes .factor text number) :
      Denotes .factor ('-' :: (blank ++ text)) (-number)
  | plain {text : List Char} {number : Binary64} (operand : Denotes .primary text number) :
      Denotes .factor text number
  | parenthesized {blank text trailing : List Char} {number : Binary64} (isBlank : IsBlank blank)
      (inside : Denotes .expression text number) (isTrailing : IsBlank trailing) :
      Denotes .primary ('(' :: (blank ++ (text ++ ')' :: trailing))) number
  | literal {text trailing : List Char} (numeral : IsNumeral text)
      (finite : (Decimal.value text).isFinite) (isTrailing : IsBlank trailing) :
      Denotes .primary (text ++ trailing) (Decimal.value text)

/-- A whole input: white space and an expression. -/
def DenotesInput (input : List Char) (number : Binary64) : Prop :=
  ∃ blank text, input = blank ++ text ∧ IsBlank blank ∧ Denotes .expression text number

/-! ### The characters at the ends of a text -/

theorem exists_first_of_isNumeral {text : List Char} (numeral : IsNumeral text) :
    ∃ first others, text = first :: others ∧
      (Decimal.isDigit first ∨ first = '+' ∨ first = '-') := by
  obtain ⟨sign, run, fraction, exponent, isSign, isRun, _, _, rfl⟩ := numeral
  obtain ⟨first, others, rfl, digit⟩ := isRun.exists_cons
  rcases isSign with rfl | rfl | rfl
  · exact ⟨first, _, rfl, .inl digit⟩
  · exact ⟨'+', _, rfl, .inr (.inl rfl)⟩
  · exact ⟨'-', _, rfl, .inr (.inr rfl)⟩

/-- What has a value does not begin with white space. -/
theorem Denotes.exists_first {category : Category} {text : List Char} {number : Binary64}
    (denotes : Denotes category text number) :
    ∃ first others, text = first :: others ∧ Text.isWhitespace first = false := by
  induction denotes with
  | expression _ _ _ _ headCase _ | term _ _ _ _ headCase _ =>
      obtain ⟨first, others, rfl, black⟩ := headCase
      exact ⟨first, _, rfl, black⟩
  | negation _ _ _ => exact ⟨'-', _, rfl, by decide⟩
  | plain _ operandCase => exact operandCase
  | parenthesized _ _ _ _ => exact ⟨'(', _, rfl, by decide⟩
  | literal numeral _ _ =>
      obtain ⟨first, others, rfl, digit | rfl | rfl⟩ := exists_first_of_isNumeral numeral
      · exact ⟨first, _, rfl, Text.isWhitespace_of_isDigit digit⟩
      · exact ⟨'+', _, rfl, by decide⟩
      · exact ⟨'-', _, rfl, by decide⟩

theorem Denotes.avoids_whitespace {category : Category} {text : List Char} {number : Binary64}
    (denotes : Denotes category text number) (rest : List Char) :
    Avoids Text.isWhitespace (text ++ rest) := by
  obtain ⟨first, others, rfl, black⟩ := denotes.exists_first
  exact avoids_cons.mpr black

/-- The characters that may stand behind a text of a category in a longer text. -/
def Category.mayPrecede : Category → Char → Bool
  | .expression, character => character = ')'
  | .term, character => character = ')' || character = '+' || character = '-'
  | .factor, character | .primary, character =>
      character = ')' || character = '+' || character = '-' || character = '*' || character = '/'

end Arithmetic

end RecursiveDescent
