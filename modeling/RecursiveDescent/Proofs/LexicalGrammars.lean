import RecursiveDescent.Proofs.StandaloneGrammars

/-!
# Lexical grammars

The grammars of words and numbers refer to no rules and remember nothing, and they repeat single
elements only.  What such a grammar yields does not depend on rules, tables or the journal around
it, so it may be computed as if it stood alone.  It always comes to an outcome, and an allotment of
more steps than elements remain is enough: every round of a loop consumes an element.
-/

namespace RecursiveDescent

variable {ε ν : Type}

namespace Grammar

def IsElement : Grammar ε ν → Prop
  | .element _ _ => True
  | _ => False

def IsLexical : Grammar ε ν → Prop
  | .repeated item _ _ => item.IsElement
  | .delimited _ _ _ _ | .separated _ _ _ | .ofFunction _ | .memoized _ _ | .rule _ => False
  | _ => True

/-- The grammar uses neither rules nor memo tables nor functions on positions, and repeats nothing
but elements. -/
abbrev Lexical (grammar : Grammar ε ν) : Prop :=
  grammar.Throughout IsLexical

theorem IsElement.exists_eq {grammar : Grammar ε ν} (single : grammar.IsElement) :
    ∃ test meaning, grammar = element test meaning := by
  cases grammar with
  | element test meaning => exact ⟨test, meaning, rfl⟩
  | _ => exact single.elim

theorem hereditary_isLexical : Hereditary (IsLexical : Grammar ε ν → Prop) where
  fail := trivial
  succeed _ := trivial
  map _ _ := trivial
  sequence _ _ _ := trivial
  left _ _ _ _ single := single
  pairs _ _ _ _ _ impossible := impossible.elim
  separatedPairs _ _ _ _ impossible := impossible.elim

theorem noFunction_of_isLexical (grammar : Grammar ε ν) (lexical : grammar.IsLexical) :
    grammar.NoFunction := by
  cases grammar with
  | ofFunction function => exact lexical.elim
  | _ => trivial

theorem standalone_of_isLexical (grammar : Grammar ε ν) (lexical : grammar.IsLexical) :
    grammar.IsStandalone := by
  cases grammar with
  | memoized _ _ | rule _ => exact lexical.elim
  | _ => trivial

theorem Lexical.standalone {grammar : Grammar ε ν} (lexical : grammar.Lexical) :
    grammar.Standalone :=
  lexical.mono standalone_of_isLexical

theorem Lexical.functionFree {grammar : Grammar ε ν} (lexical : grammar.Lexical) :
    grammar.FunctionFree :=
  lexical.mono noFunction_of_isLexical

end Grammar

variable [DecidableEq ε] {rules : Rules ε ν} {source : Array ε} {start : Nat}

namespace Grammar

variable {grammar : Grammar ε ν} {outcome : Outcome ν} {state : ParserState ν}

theorem element_yields_success {test : ε → Bool} {meaning : ε → ν} {width : Nat} {value : ν}
    (yields : (element test meaning).Yields rules source start (.success width value)) :
    width = 1 ∧ start < source.size := by
  have settled := yields.unique (.settled rfl)
  simp only [Outcome.ofElement] at settled
  split at settled
  · rename_i found present
    split at settled
    · obtain ⟨inside, _⟩ := Array.getElem?_eq_some_iff.mp present
      exact ⟨(Outcome.success.inj settled).1, inside⟩
    · cases settled
  · cases settled

/-! ### Lexical grammars come to an outcome -/

theorem Lexical.guarded (lexical : grammar.Lexical) (rules : Rules ε ν) (source : Array ε) :
    grammar.Guarded rules source := by
  induction grammar with
  | element _ _ | literal _ _ | fixedWidth _ _ | succeed _ | fail | endOfInput _ | ofFunction _
  | rule _ => trivial
  | sequence first second combine firstCase secondCase =>
      exact ⟨firstCase lexical.2.1, secondCase lexical.2.2⟩
  | choice first second firstCase secondCase =>
      exact ⟨firstCase lexical.2.1, secondCase lexical.2.2⟩
  | repeated item collector bounds itemCase =>
      obtain ⟨test, meaning, rfl⟩ := IsElement.exists_eq lexical.1
      refine ⟨trivial, fun _ start value nothing => ?_⟩
      cases (element_yields_success nothing).1
  | delimited _ _ _ _ | separated _ _ _ => exact lexical.1.elim
  | bind first binder firstCase binderCase =>
      exact ⟨firstCase lexical.2.1, fun outcome _ _ => binderCase outcome (lexical.2.2 outcome)⟩
  | optional _ _ innerCase | ahead _ innerCase | notAhead _ _ innerCase | map _ _ innerCase
  | tryMap _ _ innerCase | filter _ _ innerCase | recognize _ _ innerCase | before _ _ innerCase
  | onSuccess _ _ innerCase | onFailure _ _ innerCase | traced _ _ innerCase
  | memoized _ _ innerCase | rebuilt _ _ innerCase | deferred _ _ innerCase =>
      exact innerCase lexical.2

/-- A lexical grammar opens no rule. -/
theorem Lexical.not_opens (lexical : grammar.Lexical) {index : Nat} :
    ¬ grammar.Opens rules source index := by
  induction grammar with
  | element _ _ | literal _ _ | fixedWidth _ _ | succeed _ | fail | endOfInput _ | ofFunction _ =>
      exact not_false
  | rule _ => exact lexical.elim
  | sequence first second combine firstCase secondCase =>
      rintro (opens | ⟨_, opens⟩)
      · exact firstCase lexical.2.1 opens
      · exact secondCase lexical.2.2 opens
  | choice first second firstCase secondCase =>
      rintro (opens | opens)
      · exact firstCase lexical.2.1 opens
      · exact secondCase lexical.2.2 opens
  | delimited _ _ _ _ | separated _ _ _ => exact lexical.1.elim
  | bind first binder firstCase binderCase =>
      rintro (opens | ⟨outcome, opens⟩)
      · exact firstCase lexical.2.1 opens
      · exact binderCase outcome (lexical.2.2 outcome) opens
  | repeated _ _ _ innerCase | optional _ _ innerCase | ahead _ innerCase | notAhead _ _ innerCase
  | map _ _ innerCase | tryMap _ _ innerCase | filter _ _ innerCase | recognize _ _ innerCase
  | before _ _ innerCase | onSuccess _ _ innerCase | onFailure _ _ innerCase
  | traced _ _ innerCase | memoized _ _ innerCase | rebuilt _ _ innerCase
  | deferred _ _ innerCase =>
      exact innerCase lexical.2

/-- A lexical grammar yields an outcome everywhere. -/
theorem Lexical.exists_yields (lexical : grammar.Lexical) (source : Array ε) (start : Nat) :
    ∃ outcome, grammar.Yields #[] source start outcome :=
  (lexical.guarded #[] source).exists_yields lexical.functionFree start

/-! ### Enough steps -/

/-- The first match of a repeated element leaves a repetition with one element less before it. -/
theorem exists_parser_repeated_eq {test : ε → Bool} {meaning : ε → ν}
    {collector : ValueCollector ν} {bounds : RepeatBounds} (more : bounds.allowsMore 0)
    {result : Outcome ν} {rounds : Nat} (enough : source.size - start < rounds + 1)
    (invoke : Nat → Parser (ParserState ν) ε ν) (state : ParserState ν)
    (beginning : (element test meaning).Yields #[] source start outcome)
    (following : (repetition (element test meaning) collector bounds outcome).Yields #[] source
      (start + outcome.advance) result)
    (left : ∀ width value, outcome = .success width value →
      source.size - (start + width) < rounds → ∀ state, ∃ final,
        (repeated (element test meaning) (collector.taking value) (bounds.drop 1)).parser rounds
          invoke source (start + width) state = some (result, final)) :
    ∃ final, (repeated (element test meaning) collector bounds).parser (rounds + 1) invoke source
      start state = some (result.advancedBy outcome.advance, final) := by
  have first (state : ParserState ν) : (element test meaning).parser (rounds + 1) invoke source
      start state = some (outcome, (element test meaning).enter #[] source start state) := by
    have settled := beginning.unique (.settled rfl)
    rw [settled]
    exact parser_settled rounds invoke rfl (fun _ same => by cases same)
  rw [parser, repeated_succ_apply rounds more, first, Option.bind_some]
  cases outcome with
  | failure =>
      have closed := following.unique (.settled (form_repetition_failure #[] source _ _ _))
      subst closed
      rw [Outcome.advance, Outcome.advancedBy_zero]
      exact ⟨_, rfl⟩
  | success width value =>
      obtain ⟨rfl, inside⟩ := element_yields_success beginning
      obtain ⟨final, followed⟩ := left 1 value rfl (by omega)
        (((element test meaning).enter #[] source start
          (state.recordAll collector.supply.emitted)).recordAll
            (collector.accumulate collector.supply.value value).emitted)
      refine ⟨final, ?_⟩
      have same : (repeated (element test meaning) (collector.taking value)
          (bounds.drop 1)).parser rounds invoke =
        Parser.repeated rounds ((element test meaning).parser (rounds + 1) invoke)
          (journaled (collector.taking value)) (bounds.drop 1) := rfl
      rw [same] at followed
      simp only [followed]
      rfl

/-- With more rounds than elements remain, the parser of a lexical grammar comes to what the grammar
yields, whatever rules mean. -/
theorem Lexical.exists_parser_eq (lexical : grammar.Lexical)
    (yields : grammar.Yields #[] source start outcome) {rounds : Nat}
    (enough : source.size - start < rounds) (invoke : Nat → Parser (ParserState ν) ε ν)
    (state : ParserState ν) :
    ∃ final, grammar.parser rounds invoke source start state = some (outcome, final) := by
  induction yields generalizing rounds state with
  | @settled grammar settled start shape =>
      have noRule (index : Nat) : grammar ≠ .rule index := by
        rintro rfl
        exact lexical.elim
      obtain ⟨fewer, rfl⟩ : ∃ fewer, rounds = fewer + 1 := ⟨rounds - 1, by omega⟩
      exact ⟨_, parser_settled fewer invoke shape noRule⟩
  | @adjusted grammar part adjust start outcome shape _ insideCase =>
      have noRule (index : Nat) : grammar ≠ .rule index := by
        rintro rfl
        exact lexical.elim
      have unanswered : grammar.answer? start state = none := by
        cases grammar with
        | memoized cell inner => exact lexical.holds.elim
        | _ => rfl
      have parts := lexical.form hereditary_isLexical (Rules.throughout_empty _) source
      rw [shape] at parts
      obtain ⟨final, inside⟩ := insideCase parts enough _
      rw [parser_adjusted rounds invoke shape noRule unanswered, inside]
      exact ⟨_, rfl⟩
  | @continued grammar first next start outcome result shape beginning following beginningCase
      followingCase =>
      have parts := lexical.form hereditary_isLexical (Rules.throughout_empty _) source
      rw [shape] at parts
      -- Only loops use rounds up, and an element in front of the next round makes up for the round.
      by_cases loop : ∃ item collector bounds, grammar = .repeated item collector bounds
      · obtain ⟨item, collector, bounds, rfl⟩ := loop
        obtain ⟨test, meaning, rfl⟩ := IsElement.exists_eq lexical.1
        by_cases more : bounds.allowsMore 0
        · cases (form_repeated_of_more more).symm.trans shape
          obtain ⟨fewer, rfl⟩ : ∃ fewer, rounds = fewer + 1 := ⟨rounds - 1, by omega⟩
          refine exists_parser_repeated_eq more enough invoke state beginning following ?_
          rintro width value rfl left state
          exact followingCase (parts.2 _) left state
        · cases (form_repeated_of_exhausted more).symm.trans shape
      · have once (item collector bounds) : grammar ≠ .repeated item collector bounds :=
          fun same => loop ⟨item, collector, bounds, same⟩
        have left : source.size - (start + outcome.advance) < rounds := by omega
        obtain ⟨middle, begun⟩ := beginningCase parts.1 enough _
        obtain ⟨final, followed⟩ := followingCase (parts.2 outcome) left _
        rw [parser_continued rounds invoke shape once, begun, Option.bind_some, followed]
        exact ⟨_, rfl⟩

/-- A lexical grammar comes to what it yields in more steps than elements remain, under any rules
and in any state. -/
theorem Lexical.exists_run_eq (lexical : grammar.Lexical)
    (yields : grammar.Yields #[] source start outcome) (rules : Rules ε ν) {steps : Nat}
    (enough : source.size - start < steps) (state : ParserState ν) :
    ∃ final, grammar.run rules steps source start state = some (outcome, final) := by
  obtain ⟨invoke, opened⟩ := exists_parser_of_run rules steps
  rw [opened]
  exact lexical.exists_parser_eq yields enough invoke state

/-- Under any rules and in any state, a lexical grammar finishes with the outcome that it yields on
its own and with no other. -/
theorem Lexical.finishes_iff_yields (lexical : grammar.Lexical) (rules : Rules ε ν)
    (state : ParserState ν) :
    (∃ final, grammar.Finishes rules source start state (outcome, final)) ↔
      grammar.Yields #[] source start outcome :=
  lexical.standalone.finishes_iff_yields rules state

/-- On a source that is shorter than the ample allotment, matching all of it answers what the
outcome of the grammar says. -/
theorem Lexical.exists_parseComplete_eq (lexical : grammar.Lexical)
    (yields : grammar.Yields #[] source 0 outcome) (short : source.size < amplySteps)
    (rules : Rules ε ν) (state : ParserState ν) :
    ∃ last, grammar.parseComplete rules source state =
      some (outcome.complete? source.size, last) := by
  rw [parseComplete_eq_runComplete]
  obtain ⟨last, ran⟩ := lexical.exists_run_eq yields rules short state
  exact ⟨last, runComplete_eq_some_iff.mpr ⟨outcome, ran, rfl⟩⟩

end Grammar

end RecursiveDescent
