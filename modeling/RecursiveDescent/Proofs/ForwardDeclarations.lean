import RecursiveDescent.Proofs.RuleDefinitions

/-!
# Forward declarations are written once and bound late

A forward declaration is one slot that any number of handles share.  Handles are cloned, grammars
are composed from them, and at some time the declaration is defined through one of them.
`Workbench.Run` is the relation for any sequence of such uses, with their answers.

The main statement looks at the state that a sequence of uses leads to.  It depends on the first
definition among them alone.  Before there is one, the declaration fails wherever it is invoked.
From then on it stands for that definition, also in grammars composed earlier, and later
definitions are refused without any effect.

That a declaration stands for its definition is eliminability: a grammar does the same as its
`unfolding`, in which the definition has taken the place of every handle.
-/

namespace RecursiveDescent

variable {ε ν : Type}

/-! ### Unfolding a definition -/

namespace Grammar

/-- The grammar with a definition in place of a rule number. -/
def unfolding (index : Nat) (definition : Grammar ε ν) : Grammar ε ν → Grammar ε ν
  | .element test value => .element test value
  | .literal expected value => .literal expected value
  | .fixedWidth width read => .fixedWidth width read
  | .succeed value => .succeed value
  | .fail => .fail
  | .endOfInput value => .endOfInput value
  | .ofFunction function => .ofFunction function
  | .sequence first second combine =>
      .sequence (unfolding index definition first) (unfolding index definition second) combine
  | .choice first second =>
      .choice (unfolding index definition first) (unfolding index definition second)
  | .optional inner fallback => .optional (unfolding index definition inner) fallback
  | .repeated item collector bounds =>
      .repeated (unfolding index definition item) collector bounds
  | .ahead inner => .ahead (unfolding index definition inner)
  | .notAhead inner value => .notAhead (unfolding index definition inner) value
  | .delimited item delimiter combine headCollector =>
      .delimited (unfolding index definition item) (unfolding index definition delimiter) combine
        headCollector
  | .separated item delimiter collector =>
      .separated (unfolding index definition item) (unfolding index definition delimiter) collector
  | .bind first binder =>
      .bind (unfolding index definition first) fun outcome =>
        unfolding index definition (binder outcome)
  | .map inner function => .map (unfolding index definition inner) function
  | .tryMap inner function => .tryMap (unfolding index definition inner) function
  | .filter inner accepts => .filter (unfolding index definition inner) accepts
  | .recognize inner read => .recognize (unfolding index definition inner) read
  | .before tag inner => .before tag (unfolding index definition inner)
  | .onSuccess tag inner => .onSuccess tag (unfolding index definition inner)
  | .onFailure tag inner => .onFailure tag (unfolding index definition inner)
  | .traced name inner => .traced name (unfolding index definition inner)
  | .memoized cell inner => .memoized cell (unfolding index definition inner)
  | .rebuilt cells inner => .rebuilt cells (unfolding index definition inner)
  | .deferred tag inner => .deferred tag (unfolding index definition inner)
  | .rule other => if other = index then definition else .rule other

theorem unfolding_rule_self (index : Nat) (definition : Grammar ε ν) :
    unfolding index definition (.rule index) = definition :=
  if_pos rfl

variable [DecidableEq ε] {rules : Rules ε ν} {index : Nat} {definition : Grammar ε ν}

/-- The parser of an unfolding invokes the parser of the definition. -/
theorem parser_unfolding (rounds : Nat) (invoke : Nat → Parser (ParserState ν) ε ν)
    (index : Nat) (definition grammar : Grammar ε ν) :
    (unfolding index definition grammar).parser rounds invoke =
      grammar.parser rounds fun other =>
        if other = index then definition.parser rounds invoke else invoke other := by
  induction grammar with
  | bind first binder firstCase binderCase => simp only [unfolding, parser, firstCase, binderCase]
  | rule other =>
      by_cases same : other = index <;> simp only [unfolding, parser, same, if_true, if_false]
  | _ => simp only [unfolding, parser, *]

omit [DecidableEq ε] in
theorem invoke_of_forward (defined : rules[index]? = some (.forward (some definition)))
    (run : Grammar ε ν → Parser (ParserState ν) ε ν) :
    rules.invoke run index = run definition := by
  funext source start
  unfold Rules.invoke
  rw [defined]

/-- A run is a parser that does to rules no more than they do with one step more. -/
theorem exists_parser_of_run_le (rules : Rules ε ν) (steps : Nat) :
    ∃ invoke, (∀ grammar : Grammar ε ν, grammar.run rules steps = grammar.parser steps invoke) ∧
      ∀ index, (invoke index).Approximates (rules.invoke (run rules steps) index) := by
  cases steps with
  | zero => exact ⟨_, fun _ => rfl, fun _ _ _ => .unfinished _⟩
  | succ steps =>
      refine ⟨_, fun _ => rfl, rules.invoke_approximates fun definition => ?_⟩
      exact definition.run_approximates rules (Nat.le_succ steps)

/-- What an unfolding does at once takes the rule one step more. -/
theorem run_unfolding_approximates (defined : rules[index]? = some (.forward (some definition)))
    (grammar : Grammar ε ν) (steps : Nat) :
    ((unfolding index definition grammar).run rules steps).Approximates
      (grammar.run rules (steps + 1)) := by
  obtain ⟨invoke, opened, invokes⟩ := exists_parser_of_run_le rules steps
  rw [opened, parser_unfolding]
  refine grammar.parser_approximates (Nat.le_succ steps) fun other => ?_
  by_cases same : other = index
  · rw [if_pos same, same, ← opened, invoke_of_forward defined]
    exact .refl _
  · rw [if_neg same]
    exact invokes other

theorem run_approximates_unfolding (defined : rules[index]? = some (.forward (some definition)))
    (grammar : Grammar ε ν) (steps : Nat) :
    (grammar.run rules steps).Approximates
      ((unfolding index definition grammar).run rules (steps + 1)) := by
  obtain ⟨invoke, opened, invokes⟩ := exists_parser_of_run_le rules steps
  have unfolded : (unfolding index definition grammar).run rules (steps + 1) =
      grammar.parser (steps + 1) _ :=
    parser_unfolding (steps + 1) (rules.invoke (run rules steps)) index definition grammar
  rw [opened, unfolded]
  refine grammar.parser_approximates (Nat.le_succ steps) fun other => ?_
  by_cases same : other = index
  · rw [if_pos same, same]
    intro source start
    have invoked := invokes index source start
    rw [invoke_of_forward defined] at invoked
    exact invoked.trans (definition.run_approximates rules (Nat.le_succ steps) source start)
  · rw [if_neg same]
    exact invokes other

/-- Where a rule has a definition, a grammar does the same as its unfolding. -/
theorem finishes_unfolding_iff (defined : rules[index]? = some (.forward (some definition)))
    (grammar : Grammar ε ν) {source : Array ε} {start : Nat} {state : ParserState ν}
    {result : Outcome ν × ParserState ν} :
    (unfolding index definition grammar).Finishes rules source start state result ↔
      grammar.Finishes rules source start state result := by
  constructor
  · rintro ⟨steps, finished⟩
    exact ⟨steps + 1,
      run_unfolding_approximates defined grammar steps source start state result finished⟩
  · rintro ⟨steps, finished⟩
    exact ⟨steps + 1,
      run_approximates_unfolding defined grammar steps source start state result finished⟩

end Grammar

/-! ### Uses of a declaration -/

/-- What is done with the handles of a forward declaration and with the grammars around them, which
are numbered in the order in which they have been built. -/
inductive DeclarationUse (ε ν : Type) : Type 1 where
  /-- Builds a grammar, with handles in it or without. -/
  | compose (grammar : Grammar ε ν)
  /-- Builds another handle. -/
  | clone (handle : Nat)
  /-- Defines the declaration. -/
  | define (handle : Nat) (definition : Grammar ε ν)
  /-- Asks whether the declaration has a definition. -/
  | isDefined (handle : Nat)
  /-- Matches a grammar or a handle on a source from a position on. -/
  | parse (number : Nat) (source : Array ε) (start : Nat)

def DeclarationUse.definition? : DeclarationUse ε ν → Option (Grammar ε ν)
  | .define _ definition => some definition
  | _ => none

inductive DeclarationAnswer (ν : Type) where
  /-- The number of what has been built. -/
  | built (number : Nat)
  /-- Whether the declaration took the definition. -/
  | defined (result : Except MisuseError Unit)
  /-- Whether the declaration has a definition. -/
  | isDefined (truth : Bool)
  /-- How a match ended. -/
  | parsed (outcome : Outcome ν)

def DeclarationAnswer.isOfDefinition : DeclarationAnswer ν → Bool
  | .defined _ => true
  | _ => false

/-- The earliest definition among some uses. -/
def firstDefinition? (uses : List (DeclarationUse ε ν)) : Option (Grammar ε ν) :=
  uses.findSome? DeclarationUse.definition?

theorem firstDefinition?_cons (use : DeclarationUse ε ν) (uses : List (DeclarationUse ε ν)) :
    firstDefinition? (use :: uses) = use.definition?.or (firstDefinition? uses) := by
  unfold firstDefinition?
  rw [List.findSome?_cons]
  cases use.definition? <;> rfl

/-- Rules with the grammars that have been built and the state of the parsers. -/
structure Workbench (ε ν : Type) : Type 1 where
  rules : Rules ε ν
  grammars : List (Grammar ε ν)
  state : ParserState ν

namespace Workbench

/-- The grammar with this number is a handle of the declaration. -/
def IsHandle (work : Workbench ε ν) (index handle : Nat) : Prop :=
  work.grammars[handle]? = some (.rule index)

def building (grammar : Grammar ε ν) (work : Workbench ε ν) : Workbench ε ν :=
  { work with grammars := work.grammars ++ [grammar] }

def defining (index : Nat) (definition : Grammar ε ν) (work : Workbench ε ν) : Workbench ε ν :=
  { work with rules := work.rules.setIfInBounds index (.forward (some definition)) }

variable [DecidableEq ε]

/-- What one use of a declaration is answered and what it leaves behind. -/
inductive Step (index : Nat) :
    DeclarationUse ε ν → Workbench ε ν → DeclarationAnswer ν → Workbench ε ν → Prop where
  | compose (grammar : Grammar ε ν) (work : Workbench ε ν) :
      Step index (.compose grammar) work (.built work.grammars.length) (work.building grammar)
  | clone {handle : Nat} {work : Workbench ε ν} (isHandle : work.IsHandle index handle) :
      Step index (.clone handle) work (.built work.grammars.length) (work.building (.rule index))
  | define {handle : Nat} {definition : Grammar ε ν} {work : Workbench ε ν} {rules : Rules ε ν}
      (isHandle : work.IsHandle index handle)
      (accepted : work.rules.define index definition = .ok rules) :
      Step index (.define handle definition) work (.defined (.ok ())) { work with rules }
  | refuse {handle : Nat} {definition : Grammar ε ν} {work : Workbench ε ν} {error : MisuseError}
      (isHandle : work.IsHandle index handle)
      (refused : work.rules.define index definition = .error error) :
      Step index (.define handle definition) work (.defined (.error error)) work
  | isDefined {handle : Nat} {work : Workbench ε ν} (isHandle : work.IsHandle index handle) :
      Step index (.isDefined handle) work (.isDefined (work.rules.isDefined index)) work
  | parse {number : Nat} {grammar : Grammar ε ν} {source : Array ε} {start : Nat}
      {work : Workbench ε ν} {outcome : Outcome ν} {final : ParserState ν}
      (built : work.grammars[number]? = some grammar)
      (finishes : grammar.Finishes work.rules source start work.state (outcome, final)) :
      Step index (.parse number source start) work (.parsed outcome) { work with state := final }

/-- Uses of a declaration, one after the other, with their answers. -/
inductive Run (index : Nat) :
    List (DeclarationUse ε ν) → Workbench ε ν → List (DeclarationAnswer ν) → Workbench ε ν →
      Prop where
  | nil (work : Workbench ε ν) : Run index [] work [] work
  | cons {use : DeclarationUse ε ν} {uses : List (DeclarationUse ε ν)}
      {answer : DeclarationAnswer ν} {answers : List (DeclarationAnswer ν)}
      {work next last : Workbench ε ν} (step : Step index use work answer next)
      (rest : Run index uses next answers last) :
      Run index (use :: uses) work (answer :: answers) last

end Workbench

/-! ### The slot of a declaration -/

namespace Rules

variable {rules : Rules ε ν} {index : Nat} {slot : Option (Grammar ε ν)}

theorem isDefined_of_forward (declared : rules[index]? = some (.forward slot)) :
    rules.isDefined index = slot.isSome := by
  simp [isDefined, declared]

theorem define_of_defined {definition : Grammar ε ν}
    (declared : rules[index]? = some (.forward (some definition))) (other : Grammar ε ν) :
    rules.define index other = .error .alreadyDefined := by
  simp [define, isDefined, declared]

theorem setIfInBounds_eq_self {rule : Rule ε ν} (found : rules[index]? = some rule) :
    rules.setIfInBounds index rule = rules := by
  apply Array.ext_getElem?
  intro other
  rw [Array.getElem?_setIfInBounds]
  by_cases same : index = other
  · subst same
    obtain ⟨inside, -⟩ := Array.getElem?_eq_some_iff.mp found
    rw [if_pos rfl, if_pos inside, found]
  · rw [if_neg same]

theorem getElem?_setIfInBounds_of_found {rule : Rule ε ν} (found : rules[index]? = some rule)
    (other : Rule ε ν) : (rules.setIfInBounds index other)[index]? = some other := by
  obtain ⟨inside, -⟩ := Array.getElem?_eq_some_iff.mp found
  exact Array.getElem?_setIfInBounds_self_of_lt inside

end Rules

namespace Workbench

variable [DecidableEq ε] {index handle : Nat} {work next start reached : Workbench ε ν}
  {use : DeclarationUse ε ν} {answer : DeclarationAnswer ν} {uses : List (DeclarationUse ε ν)}
  {answers : List (DeclarationAnswer ν)} {slot : Option (Grammar ε ν)} {definition : Grammar ε ν}

theorem step_isDefined_iff (isHandle : work.IsHandle index handle)
    (declared : work.rules[index]? = some (.forward slot)) :
    Step index (.isDefined handle) work answer next ↔
      answer = .isDefined slot.isSome ∧ next = work := by
  rw [← Rules.isDefined_of_forward declared]
  constructor
  · rintro ⟨⟩
    exact ⟨rfl, rfl⟩
  · rintro ⟨rfl, rfl⟩
    exact .isDefined isHandle

theorem step_define_iff_of_undefined (isHandle : work.IsHandle index handle)
    (declared : work.rules[index]? = some (.forward none)) :
    Step index (.define handle definition) work answer next ↔
      answer = .defined (.ok ()) ∧ next = work.defining index definition := by
  have accepted := Rules.define_of_undefined declared definition
  constructor
  · intro step
    cases step with
    | define _ given =>
        cases accepted.symm.trans given
        exact ⟨rfl, rfl⟩
    | refuse _ refused => cases accepted.symm.trans refused
  · rintro ⟨rfl, rfl⟩
    exact .define isHandle accepted

theorem step_define_iff_of_defined (isHandle : work.IsHandle index handle)
    (declared : work.rules[index]? = some (.forward (some definition))) {other : Grammar ε ν} :
    Step index (.define handle other) work answer next ↔
      answer = .defined (.error .alreadyDefined) ∧ next = work := by
  have refused := Rules.define_of_defined declared other
  constructor
  · intro step
    cases step with
    | define _ accepted => cases refused.symm.trans accepted
    | refuse _ given =>
        cases refused.symm.trans given
        exact ⟨rfl, rfl⟩
  · rintro ⟨rfl, rfl⟩
    exact .refuse isHandle refused

/-- A use writes into the slot only if it defines the declaration and the slot is empty. -/
theorem Step.rules_eq (step : Step index use work answer next)
    (declared : work.rules[index]? = some (.forward slot)) :
    next.rules = work.rules.setIfInBounds index (.forward (slot.or use.definition?)) := by
  have kept : work.rules.setIfInBounds index (.forward slot) = work.rules :=
    Rules.setIfInBounds_eq_self declared
  cases step with
  | @define handle definition work rules isHandle accepted =>
      cases slot with
      | some former => cases (Rules.define_of_defined declared definition).symm.trans accepted
      | none =>
          cases (Rules.define_of_undefined declared definition).symm.trans accepted
          rfl
  | @refuse handle definition work error isHandle refused =>
      cases slot with
      | some former => exact kept.symm
      | none => cases (Rules.define_of_undefined declared definition).symm.trans refused
  | _ =>
      simp only [DeclarationUse.definition?, Option.or_none]
      exact kept.symm

/-- After any uses the slot holds what it held before, or else the earliest definition. -/
theorem Run.rules_eq (run : Run index uses start answers reached)
    (declared : start.rules[index]? = some (.forward slot)) :
    reached.rules =
      start.rules.setIfInBounds index (.forward (slot.or (firstDefinition? uses))) := by
  induction run generalizing slot with
  | nil work =>
      rw [firstDefinition?, List.findSome?_nil, Option.or_none]
      exact (Rules.setIfInBounds_eq_self declared).symm
  | cons step _ restCase =>
      have written := step.rules_eq declared
      have holds := Rules.getElem?_setIfInBounds_of_found declared
      rw [restCase (written ▸ holds _), written, Array.setIfInBounds_setIfInBounds,
        firstDefinition?_cons, Option.or_assoc]

/-- Where the declaration has a definition, uses can be made without any further ones, and the
others are answered as before. -/
theorem Run.withoutDefinitions (run : Run index uses start answers reached)
    (declared : start.rules[index]? = some (.forward (some definition))) :
    Run index (uses.filter fun use => use.definition?.isNone) start
      (answers.filter fun answer => !answer.isOfDefinition) reached := by
  induction run with
  | nil work => exact .nil work
  | cons step _ restCase =>
      have written := step.rules_eq declared
      rw [Option.some_or, Rules.setIfInBounds_eq_self declared] at written
      have rest := restCase (written ▸ declared)
      cases step with
      | define isHandle accepted =>
          cases (Rules.define_of_defined declared _).symm.trans accepted
      | refuse isHandle refused => exact rest
      | compose grammar => exact .cons (.compose grammar _) rest
      | clone isHandle => exact .cons (.clone isHandle) rest
      | isDefined isHandle => exact .cons (.isDefined isHandle) rest
      | parse built finishes => exact .cons (.parse built finishes) rest

theorem finishes_undefined_iff {rules : Rules ε ν} {source : Array ε} {position : Nat}
    {state : ParserState ν} {result : Outcome ν × ParserState ν}
    (declared : rules[index]? = some (.forward none)) :
    (Grammar.rule index).Finishes rules source position state result ↔
      result = (.failure, state.log (.undefinedRule position)) := by
  have undefined : rules.body? index = none := by
    unfold Rules.body?
    rw [declared]
  have entered : (Grammar.rule index).enter rules source position state =
      state.log (.undefinedRule position) := by
    change state.recordAll (rules.invocationEvents index position) = _
    unfold Rules.invocationEvents
    rw [declared]
    rfl
  obtain ⟨outcome, final⟩ := result
  rw [Grammar.finishes_settled_iff (Grammar.form_rule_of_undefined undefined), entered,
    Prod.mk.injEq]

/-- The slot of a declaration holds the earliest of the definitions that have been made so far, and
everything follows from that.

Without a definition, any handle says that there is none and takes the first one, and a match of a
handle fails.  With a definition, any handle says so and refuses another one, no use comes out
differently for the refused ones before it, and a handle stands for the definition: alone, and
in any grammar, whenever that has been built.  The definition itself is matched under the same
rules, so that the handles in it stand for the definition too. -/
theorem declaration_written_once (declared : start.rules[index]? = some (.forward none))
    (run : Run index uses start answers reached) :
    reached.rules = start.rules.setIfInBounds index (.forward (firstDefinition? uses)) ∧
    (∀ handle, reached.IsHandle index handle → ∀ answer next,
      Step index (.isDefined handle) reached answer next ↔
        answer = .isDefined (firstDefinition? uses).isSome ∧ next = reached) ∧
    match firstDefinition? uses with
    | none =>
        (∀ handle, reached.IsHandle index handle → ∀ definition answer next,
          Step index (.define handle definition) reached answer next ↔
            answer = .defined (.ok ()) ∧ next = reached.defining index definition) ∧
        ∀ source position state result,
          (Grammar.rule index).Finishes reached.rules source position state result ↔
            result = (.failure, state.log (.undefinedRule position))
    | some definition =>
        (∀ handle, reached.IsHandle index handle → ∀ other answer next,
          Step index (.define handle other) reached answer next ↔
            answer = .defined (.error .alreadyDefined) ∧ next = reached) ∧
        (∀ later answers last, Run index later reached answers last →
          Run index (later.filter fun use => use.definition?.isNone) reached
            (answers.filter fun answer => !answer.isOfDefinition) last) ∧
        (∀ source position state result,
          (Grammar.rule index).Finishes reached.rules source position state result ↔
            definition.Finishes reached.rules source position state result) ∧
        ∀ grammar source position state result,
          grammar.Finishes reached.rules source position state result ↔
            (Grammar.unfolding index definition grammar).Finishes reached.rules source position
              state result := by
  have written := run.rules_eq declared
  rw [Option.none_or] at written
  have holds := Rules.getElem?_setIfInBounds_of_found declared (.forward (firstDefinition? uses))
  rw [← written] at holds
  refine ⟨written, fun handle isHandle answer next => step_isDefined_iff isHandle holds, ?_⟩
  cases found : firstDefinition? uses with
  | none =>
      rw [found] at holds
      exact ⟨fun handle isHandle _ _ _ => step_define_iff_of_undefined isHandle holds,
        fun _ _ _ _ => finishes_undefined_iff holds⟩
  | some definition =>
      rw [found] at holds
      refine ⟨fun handle isHandle _ _ _ => step_define_iff_of_defined isHandle holds,
        fun later answers last laterRun => laterRun.withoutDefinitions holds, ?_, ?_⟩
      · intro source position state result
        rw [← Grammar.finishes_unfolding_iff holds (.rule index), Grammar.unfolding_rule_self]
      · intro grammar source position state result
        exact (Grammar.finishes_unfolding_iff holds grammar).symm

def countedPositives : Grammar Nat Nat :=
  .choice (.sequence .positive (.rule 0) (· + ·)) .positive

/-- The third grammar, which doubles a count, is built before the definition and matched after it.
The definition comes through the second handle, and a later one through the first is refused. -/
theorem declaration_written_once_countedPositives : ∃ reached,
    Run 0 [.clone 0, .compose (.map (.rule 0) (2 * ·)), .parse 0 #[3] 0,
        .define 1 countedPositives, .define 0 .fail, .parse 2 #[3, 5, 0] 0]
      ⟨#[.forward none], [.rule 0], .initial⟩
      [.built 1, .built 2, .parsed .failure, .defined (.ok ()),
        .defined (.error .alreadyDefined), .parsed (.success 2 4)] reached ∧
    reached.rules = #[.forward (some countedPositives)] ∧
    ∀ source position state result,
      (Grammar.rule 0).Finishes reached.rules source position state result ↔
        countedPositives.Finishes reached.rules source position state result := by
  have declared : (#[.forward none] : Rules Nat Nat)[0]? = some (.forward none) := rfl
  refine Exists.imp (fun reached run => ⟨run, ?_⟩) ?_
  · obtain ⟨rules, -, -, -, alone, -⟩ := declaration_written_once declared run
    exact ⟨rules, alone⟩
  · have accepted := Rules.define_of_undefined declared countedPositives
    exact ⟨_, .cons (.clone rfl) <| .cons (.compose _ _) <|
      .cons (.parse rfl ((finishes_undefined_iff declared).mpr rfl)) <|
      .cons (.define rfl accepted) <| .cons (.refuse rfl rfl) <|
      .cons (.parse rfl ⟨5, rfl⟩) (.nil _)⟩

end Workbench

end RecursiveDescent
