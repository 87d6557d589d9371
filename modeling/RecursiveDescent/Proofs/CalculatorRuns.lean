import RecursiveDescent.Proofs.DecimalLiterals
import RecursiveDescent.Proofs.Evaluation

/-!
# Runs of the calculator

The calculator comes to an answer on every input.  It gives the value of the input if the input is
an arithmetic expression, and otherwise says that there is a syntax error.  This holds from every
state in which the memo table of primaries is empty, whatever other tables remember.
-/

namespace RecursiveDescent

namespace Calculator

open Arithmetic
open Text (TextGrammar)

variable {source : Array Char} {start : Nat}

/-! ### The calculator terminates -/

theorem body?_cases {index : Nat} {body : TextGrammar} (found : rules.body? index = some body) :
    index = expressionRule ∧ body = .traced "expr" sum ∨
      index = factorRule ∧ body = .rebuilt [] factor := by
  match index, found with
  | 0, found => exact .inl ⟨rfl, (Option.some.inj found).symm⟩
  | 1, found => exact .inr ⟨rfl, (Option.some.inj found).symm⟩

theorem not_token_yields_nothing {ruleSet : Rules Char Value} {isMember : Char → Bool}
    {value : Value} :
    ¬ (token (Text.characterOf isMember)).Yields ruleSet source start (.success 0 value) := by
  intro yields
  obtain ⟨first, blank, nothing, _⟩ :=
    of_takes_token_element (Grammar.takes_nothing_of_yields yields)
  cases nothing

theorem lexical_character {isMember : Char → Bool} : (Text.characterOf isMember).Lexical :=
  trivial

theorem lexical_token {inner : TextGrammar} (inside : inner.Lexical) : (token inner).Lexical :=
  ⟨trivial, inside, trivial, trivial⟩

theorem guarded_token {inner : TextGrammar} (inside : inner.Lexical) :
    (token inner).Guarded rules source :=
  (lexical_token inside).guarded rules source

theorem guarded_level {operand : TextGrammar} (guarded : operand.Guarded rules source)
    (operators : String) : (level operand operators).Guarded rules source :=
  ⟨guarded, guarded_token lexical_character,
    fun _ _ _ separates => absurd separates not_token_yields_nothing⟩

theorem guarded_factor : factor.Guarded rules source :=
  ⟨⟨guarded_token lexical_character, trivial⟩,
    ⟨⟨guarded_token lexical_character, trivial⟩, guarded_token lexical_character⟩,
    guarded_token Text.lexical_decimal⟩

theorem guarded_rules (source : Array Char) : rules.Guarded source := by
  intro index body found
  rcases body?_cases found with ⟨_, rfl⟩ | ⟨_, rfl⟩
  · have factors : (Grammar.rule factorRule : TextGrammar).Guarded rules source := trivial
    exact guarded_level (guarded_level factors "*/") "+-"
  · exact guarded_factor

theorem not_token_opens {inner : TextGrammar} (inside : inner.Lexical) {index : Nat} :
    ¬ (token inner).Opens rules source index :=
  (lexical_token inside).not_opens

theorem opens_of_level_opens {operand : TextGrammar} {operators : String} {index : Nat}
    (opens : (level operand operators).Opens rules source index) :
    operand.Opens rules source index := by
  rcases opens with head | ⟨_, delimiter⟩
  · exact head
  · exact absurd delimiter (not_token_opens lexical_character)

/-- Nothing is invoked behind a token before a character has been consumed. -/
theorem not_opens_behind_token {isMember : Char → Bool} {second : TextGrammar} {index : Nat} :
    ¬ (Grammar.keepingSecond (token (Text.characterOf isMember)) second).Opens rules source
      index := by
  rintro (first | ⟨⟨_, _, yields⟩, _⟩)
  · exact not_token_opens lexical_character first
  · exact not_token_yields_nothing yields

/-- Only the rule of factors is invoked before a character has been consumed, by expressions. -/
theorem opens_cases {inner outer : Nat} (opens : rules.Opens source inner outer) :
    inner = factorRule ∧ outer = expressionRule := by
  obtain ⟨body, found, opens⟩ := opens
  rcases body?_cases found with ⟨rfl, rfl⟩ | ⟨rfl, rfl⟩
  · exact ⟨opens_of_level_opens (opens_of_level_opens opens), rfl⟩
  · rcases opens with negation | (inside | ⟨_, closing⟩) | literal
    · exact absurd negation not_opens_behind_token
    · exact absurd inside not_opens_behind_token
    · exact absurd closing (not_token_opens lexical_character)
    · exact absurd literal (not_token_opens Text.lexical_decimal)

theorem notLeftRecursive_rules (source : Array Char) : rules.NotLeftRecursive source := by
  refine Rules.notLeftRecursive_of_opens fun index circle => ?_
  obtain ⟨_, opens, _⟩ := Relation.TransGen.head'_iff.mp circle
  obtain ⟨_, _, opensLast⟩ := Relation.TransGen.tail'_iff.mp circle
  obtain ⟨rfl, _⟩ := opens_cases opens
  obtain ⟨_, absurd⟩ := opens_cases opensLast
  cases absurd

def barePrimary : TextGrammar :=
  .choice bracketed (token Text.decimal)

/-- The parsers of all memo tables in a state.  The calculator uses only the one of primaries; any
other is given a parser that yields what is there. -/
def tableOwner (state : ParserState Value) (cell : Nat) : TextGrammar :=
  if cell = primaryCell then
    barePrimary
  else
    .ofFunction fun _ position => Outcome.ofParts ((state.table cell).lookup? position)

theorem sound_of_empty_primaries {state : ParserState Value}
    (empty : ∀ position, (state.table primaryCell).lookup? position = none) :
    state.Sound rules source (tableOwner state) := by
  intro cell position width value found
  by_cases primaries : cell = primaryCell
  · subst primaries
    rw [empty position] at found
    cases found
  · unfold tableOwner
    rw [if_neg primaries]
    have total : Outcome.ofParts ((state.table cell).lookup? position) =
        .success width value := by
      rw [found]
      rfl
    exact Grammar.yields_of_settled rfl total

/-- The construct is neither a memo table nor a function on positions. -/
def Plain : TextGrammar → Prop
  | .memoized _ _ | .ofFunction _ => False
  | _ => True

theorem plain_of_isLexical (grammar : TextGrammar) (lexical : grammar.IsLexical) :
    Plain grammar := by
  cases grammar with
  | memoized _ _ | ofFunction _ => exact lexical.elim
  | _ => trivial

section Throughout

variable {accepts : TextGrammar → Prop} (plain : ∀ grammar, Plain grammar → accepts grammar)

include plain

theorem throughout_lexical {grammar : TextGrammar} (lexical : grammar.Lexical) :
    grammar.Throughout accepts :=
  lexical.mono fun part single => plain part (plain_of_isLexical part single)

theorem throughout_level {operand : TextGrammar} (inside : operand.Throughout accepts)
    (operators : String) : (level operand operators).Throughout accepts :=
  ⟨plain _ trivial, inside, throughout_lexical plain (lexical_token lexical_character)⟩

theorem throughout_factor (memoized : accepts primary) : factor.Throughout accepts := by
  have characters (expected : Char) : (token (Text.character expected)).Throughout accepts :=
    throughout_lexical plain (lexical_token lexical_character)
  have opening : (Grammar.keepingSecond (token (Text.character '(')) (.rule expressionRule)
      ).Throughout accepts := ⟨plain _ trivial, characters '(', plain _ trivial⟩
  have bracketed : bracketed.Throughout accepts := ⟨plain _ trivial, opening, characters ')'⟩
  have negated : negated.Throughout accepts :=
    ⟨plain _ trivial, plain _ trivial, characters '-', plain _ trivial⟩
  exact ⟨plain _ trivial, negated, memoized, plain _ trivial, bracketed,
    throughout_lexical plain (lexical_token Text.lexical_decimal)⟩

/-- What holds of primaries and of every plain construct holds throughout the rules. -/
theorem throughout_rules (memoized : accepts primary) : rules.Throughout accepts := by
  intro index body found
  rcases body?_cases found with ⟨_, rfl⟩ | ⟨_, rfl⟩
  · have factors : (Grammar.rule factorRule : TextGrammar).Throughout accepts := plain _ trivial
    exact ⟨plain _ trivial, throughout_level plain (throughout_level plain factors "*/") "+-"⟩
  · exact ⟨plain _ trivial, throughout_factor plain memoized⟩

theorem throughout_whole : whole.Throughout accepts :=
  ⟨plain _ trivial, ⟨plain _ trivial, plain _ trivial⟩, plain _ trivial⟩

end Throughout

theorem noFunction_of_plain (grammar : TextGrammar) (plain : Plain grammar) :
    grammar.NoFunction := by
  cases grammar with
  | ofFunction function => exact plain
  | _ => trivial

theorem owned_of_plain (owner : Nat → TextGrammar) (grammar : TextGrammar)
    (plain : Plain grammar) : grammar.Owned owner := by
  cases grammar with
  | memoized cell inner => exact plain.elim
  | _ => trivial

theorem tabulate_rules (state : ParserState Value) : rules.Tabulate (tableOwner state) := by
  have memoized : primary.Owned (tableOwner state) := if_pos rfl
  exact throughout_rules (owned_of_plain _) memoized

theorem tabulates_whole (state : ParserState Value) : whole.Tabulates (tableOwner state) :=
  throughout_whole (owned_of_plain _)

/-- The calculator yields an outcome on every input. -/
theorem exists_whole_yields (source : Array Char) :
    ∃ outcome, whole.Yields rules source 0 outcome := by
  have functionFreeRules : rules.FunctionFree := throughout_rules noFunction_of_plain trivial
  have blank : Text.spaces.Lexical := ⟨trivial, trivial⟩
  have guarded : whole.Guarded rules source := ⟨blank.guarded rules source, trivial⟩
  exact Grammar.exists_yields_of_acc (Grammar.acc_of_guarded functionFreeRules
    (guarded_rules source) (notLeftRecursive_rules source) whole
    (throughout_whole noFunction_of_plain) guarded 0)

/-! ### The answers of the calculator -/

/-- Whatever the calculator answers on an input is the value of the input, if it has one, and an
error otherwise. -/
theorem answer_of_run (spanned : source.size < lastPosition) {state last : ParserState Value}
    (empty : ∀ position, (state.table primaryCell).lookup? position = none) {steps : Nat}
    {answer : Option Value}
    (ran : whole.runComplete rules steps source state = some (answer, last)) (value : Value) :
    answer = some value ↔ ∃ number, value = .float number ∧ DenotesInput source.toList number := by
  obtain ⟨outcome, finished, rfl⟩ := Grammar.runComplete_eq_some_iff.mp ran
  have finishes : whole.Finishes rules source 0 state (outcome, last) := ⟨steps, finished⟩
  have yields := (finishes.yields (tabulate_rules state) (tabulates_whole state)
    (sound_of_empty_primaries empty)).1
  rw [Outcome.complete?_eq_some_iff, ← whole_yields_iff spanned]
  constructor
  · rintro rfl
    exact yields
  · intro complete
    exact yields.unique complete

/-- The calculator comes to an answer on every input. -/
theorem exists_answer (source : Array Char) {state : ParserState Value}
    (empty : ∀ position, (state.table primaryCell).lookup? position = none) :
    ∃ steps answer last, whole.runComplete rules steps source state = some (answer, last) := by
  obtain ⟨outcome, yields⟩ := exists_whole_yields source
  obtain ⟨last, steps, finished⟩ := yields.completes (tabulate_rules state)
    (tabulates_whole state) state (sound_of_empty_primaries empty)
  exact ⟨steps, _, last, Grammar.runComplete_eq_some_iff.mpr ⟨outcome, finished, rfl⟩⟩

/-- On an empty memo table of primaries, the calculator gives a value for exactly the arithmetic
expressions with white space in front, and gives the number that the expression denotes.  It comes
to an answer on every input, and what is run with the ample allotment of steps answers so too. -/
theorem evaluates_iff_denotes (source : Array Char) (spanned : source.size < lastPosition)
    (state : ParserState Value)
    (empty : ∀ position, (state.table primaryCell).lookup? position = none) :
    (∃ steps answer last, whole.runComplete rules steps source state = some (answer, last)) ∧
    (∀ value, (∃ steps last, whole.runComplete rules steps source state = some (some value, last)) ↔
      ∃ number, value = .float number ∧ DenotesInput source.toList number) ∧
    ∀ answer last, whole.parseComplete rules source state = some (answer, last) →
      ∀ value, answer = some value ↔
        ∃ number, value = .float number ∧ DenotesInput source.toList number := by
  refine ⟨exists_answer source empty, fun value => ⟨?_, fun denotes => ?_⟩, ?_⟩
  · rintro ⟨steps, last, ran⟩
    exact (answer_of_run spanned empty ran value).mp rfl
  · obtain ⟨steps, answer, last, ran⟩ := exists_answer source empty
    obtain rfl := (answer_of_run spanned empty ran value).mpr denotes
    exact ⟨steps, last, ran⟩
  · intro answer last ran
    rw [Grammar.parseComplete_eq_runComplete] at ran
    exact answer_of_run spanned empty ran

/-- A factor is a term of its own. -/
theorem denotes_term_of_factor {text : List Char} {number : Binary64}
    (denotes : Denotes .factor text number) : Denotes .term text number := by
  have noSteps : stepsSpelling [] = [] := rfl
  have whole : Denotes .term (text ++ stepsSpelling []) (applySteps number []) :=
    .term denotes (by simp) (by simp) (by simp)
  rw [noSteps, List.append_nil] at whole
  exact whole

/-- A term is an expression of its own. -/
theorem denotes_expression_of_term {text : List Char} {number : Binary64}
    (denotes : Denotes .term text number) : Denotes .expression text number := by
  have noSteps : stepsSpelling [] = [] := rfl
  have whole : Denotes .expression (text ++ stepsSpelling []) (applySteps number []) :=
    .expression denotes (by simp) (by simp) (by simp)
  rw [noSteps, List.append_nil] at whole
  exact whole

/-- The difference of two zeros in parentheses, negated. -/
theorem denotesInput_negated_difference :
    DenotesInput " -(0 - 0e1)".toList (-(Binary64.zero - Binary64.zero)) := by
  have noBlank : Text.IsBlank [] := fun _ absent => absurd absent List.not_mem_nil
  have oneBlank : Text.IsBlank [' '] := by
    intro character member
    obtain rfl := List.mem_singleton.mp member
    decide
  have digits (run : List Char) (nonempty : run ≠ [])
      (members : run.all Decimal.isDigit) : Text.IsDigits run :=
    ⟨nonempty, List.all_eq_true.mp members⟩
  have zero : Denotes .primary ['0', ' '] .zero :=
    .literal ⟨[], ['0'], [], [], .inl rfl, digits ['0'] (by decide) (by decide), .inl rfl, .inl rfl,
      rfl⟩ (by decide) oneBlank
  have power : Text.IsExponent ['e', '1'] :=
    .inr ⟨'e', [], ['1'], .inl rfl, .inl rfl, digits ['1'] (by decide) (by decide), rfl⟩
  have scaled : Denotes .primary ['0', 'e', '1'] .zero :=
    .literal ⟨[], ['0'], [], ['e', '1'], .inl rfl, digits ['0'] (by decide) (by decide), .inl rfl,
      power, rfl⟩ (by decide) noBlank
  have scaledTerm := denotes_term_of_factor (.plain scaled)
  have difference : Denotes .expression (['0', ' '] ++ stepsSpelling
      [⟨'-', [' '], ['0', 'e', '1'], .zero⟩]) (.zero - .zero) :=
    .expression (denotes_term_of_factor (.plain zero)) (by simp)
      (List.forall_mem_singleton.mpr oneBlank) (List.forall_mem_singleton.mpr scaledTerm)
  have negated := Denotes.negation noBlank (.plain (.parenthesized noBlank difference noBlank))
  exact ⟨[' '], _, by decide, oneBlank,
    denotes_expression_of_term (denotes_term_of_factor negated)⟩

theorem evaluates_iff_denotes_negated_difference :
    ∃ steps last, whole.runComplete rules steps " -(0 - 0e1)".toList.toArray .initial =
      some (some (.float (-(Binary64.zero - Binary64.zero))), last) := by
  have values := (evaluates_iff_denotes " -(0 - 0e1)".toList.toArray (by decide) .initial
    (fun position => by simp)).2.1
  exact (values _).mpr ⟨_, rfl, denotesInput_negated_difference⟩

end Calculator

end RecursiveDescent
