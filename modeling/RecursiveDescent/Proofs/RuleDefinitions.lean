import RecursiveDescent.Proofs.Transparency

/-!
# Recursive rules and forward declarations

A grammar can refer to itself in two ways.  A recursive rule evaluates its definition at every
invocation and builds its body anew, with memo tables that belong to this invocation alone.  A
forward declaration receives its body once, and every invocation shares the memo tables of that
body.  On the way the two remember different things, but what a body yields does not depend on
memo tables.  So both come to the same outcomes, also over any number of calls on one source, and
where one of them never ends the other does not end either.
-/

namespace RecursiveDescent

variable {ε ν : Type}

namespace Rules

/-- Rules that have a definition at one number and agree with others everywhere else. -/
structure DefineAt (defined : Rules ε ν) (rules : Rules ε ν) (index : Nat)
    (definition : Grammar ε ν) : Prop where
  here : defined.body? index = some definition
  elsewhere : ∀ other, other ≠ index → defined.body? other = rules.body? other

variable {rules : Rules ε ν} {index : Nat}

theorem body?_setIfInBounds_of_ne {other : Nat} (different : other ≠ index) (rule : Rule ε ν) :
    Rules.body? (rules.setIfInBounds index rule) other = rules.body? other := by
  unfold body?
  rw [Array.getElem?_setIfInBounds_ne different.symm]

theorem defineAt_recursive (declared : index < rules.size) (tag : Option String)
    (cells : List Nat) (body : Grammar ε ν) :
    DefineAt (rules.setIfInBounds index (.recursive tag cells body)) rules index
      (.rebuilt cells body) where
  here := by
    unfold body?
    rw [Array.getElem?_setIfInBounds_self_of_lt declared]
  elsewhere _ different := body?_setIfInBounds_of_ne different _

theorem defineAt_forward (declared : index < rules.size) (body : Grammar ε ν) :
    DefineAt (rules.setIfInBounds index (.forward (some body))) rules index body where
  here := by
    unfold body?
    rw [Array.getElem?_setIfInBounds_self_of_lt declared]
  elsewhere _ different := body?_setIfInBounds_of_ne different _

theorem DefineAt.throughout {defined : Rules ε ν} {definition : Grammar ε ν}
    {accepts : Grammar ε ν → Prop} (defines : defined.DefineAt rules index definition)
    (rulesHold : rules.Throughout accepts) (holds : definition.Throughout accepts) :
    defined.Throughout accepts := by
  intro other body found
  by_cases same : other = index
  · subst same
    obtain rfl := Option.some.inj (defines.here.symm.trans found)
    exact holds
  · rw [defines.elsewhere other same] at found
    exact rulesHold other body found

theorem DefineAt.undefined {first second : Rules ε ν} {left right : Grammar ε ν} {other : Nat}
    (firstDefines : first.DefineAt rules index left)
    (secondDefines : second.DefineAt rules index right) (undefined : first.body? other = none) :
    second.body? other = none := by
  have different : other ≠ index := by
    rintro rfl
    cases firstDefines.here.symm.trans undefined
  rw [secondDefines.elsewhere other different, ← firstDefines.elsewhere other different]
  exact undefined

theorem define_of_undefined (undefined : rules[index]? = some (.forward none))
    (body : Grammar ε ν) :
    rules.define index body = .ok (rules.setIfInBounds index (.forward (some body))) := by
  simp [define, isDefined, undefined]

end Rules

namespace Grammar

variable [DecidableEq ε] {rules others : Rules ε ν} {source : Array ε} {grammar : Grammar ε ν}
  {start : Nat} {outcome : Outcome ν}

/-! ### Matching under other rules -/

/-- Only the form of a rule number depends on the rules. -/
theorem form_eq_or_rule (rules others : Rules ε ν) (source : Array ε) (grammar : Grammar ε ν) :
    grammar.form rules source = grammar.form others source ∨ ∃ index, grammar = rule index := by
  cases grammar with
  | rule index => exact .inr ⟨index, rfl⟩
  | _ => exact .inl rfl

theorem form_rule_cases (rules : Rules ε ν) (source : Array ε) (index : Nat) :
    (rules.body? index = none ∧ (rule index).form rules source = .settled fun _ => .failure) ∨
      ∃ body, rules.body? index = some body ∧
        (rule index).form rules source = .adjusted body fun _ outcome => outcome := by
  cases found : rules.body? index with
  | none => exact .inl ⟨rfl, form_rule_of_undefined found⟩
  | some body => exact .inr ⟨body, rfl, form_rule_of_defined found⟩

/-- What a grammar yields it yields under other rules too, if these leave the same numbers
undefined and yield what the definitions yield under them. -/
theorem Yields.under
    (undefined : ∀ index, rules.body? index = none → others.body? index = none)
    (defined : ∀ index body start outcome, rules.body? index = some body →
      body.Yields others source start outcome → (rule index).Yields others source start outcome)
    (yields : grammar.Yields rules source start outcome) :
    grammar.Yields others source start outcome := by
  induction yields with
  | @settled grammar settled start shape =>
      rcases form_eq_or_rule rules others source grammar with same | ⟨index, rfl⟩
      · exact .settled (same.symm.trans shape)
      · rcases form_rule_cases rules source index with ⟨missing, form⟩ | ⟨body, found, form⟩
        · cases form.symm.trans shape
          exact .settled (form_rule_of_undefined (undefined index missing))
        · cases form.symm.trans shape
  | @adjusted grammar part adjust start outcome shape _ insideCase =>
      rcases form_eq_or_rule rules others source grammar with same | ⟨index, rfl⟩
      · exact .adjusted (same.symm.trans shape) insideCase
      · rcases form_rule_cases rules source index with ⟨missing, form⟩ | ⟨body, found, form⟩
        · cases form.symm.trans shape
        · cases form.symm.trans shape
          exact defined index _ _ _ found insideCase
  | @continued grammar first next start outcome result shape _ _ beginningCase followingCase =>
      rcases form_eq_or_rule rules others source grammar with same | ⟨index, rfl⟩
      · exact .continued (same.symm.trans shape) beginningCase followingCase
      · rcases form_rule_cases rules source index with ⟨_, form⟩ | ⟨_, _, form⟩ <;>
          cases form.symm.trans shape

/-- Building a definition anew at every invocation does not change what any grammar yields. -/
theorem yields_rebuilt_iff {shared fresh : Rules ε ν} {index : Nat} {body : Grammar ε ν}
    {cells : List Nat} (freshDefines : fresh.DefineAt rules index (.rebuilt cells body))
    (sharedDefines : shared.DefineAt rules index body) :
    grammar.Yields fresh source start outcome ↔ grammar.Yields shared source start outcome := by
  constructor
  · apply Yields.under fun _ => freshDefines.undefined sharedDefines
    intro other definition start outcome found yields
    by_cases same : other = index
    · subst same
      cases freshDefines.here.symm.trans found
      obtain ⟨_, inside, rfl⟩ := yields.of_adjusted rfl
      exact .passed (form_rule_of_defined sharedDefines.here) inside
    · rw [freshDefines.elsewhere other same, ← sharedDefines.elsewhere other same] at found
      exact .passed (form_rule_of_defined found) yields
  · apply Yields.under fun _ => sharedDefines.undefined freshDefines
    intro other definition start outcome found yields
    by_cases same : other = index
    · subst same
      cases sharedDefines.here.symm.trans found
      exact .passed (form_rule_of_defined freshDefines.here) (.passed rfl yields)
    · rw [sharedDefines.elsewhere other same, ← freshDefines.elsewhere other same] at found
      exact .passed (form_rule_of_defined found) yields

/-! ### Calls -/

/-- A declared rule can be defined, and then calls of it can be made with the same outcomes as
calls of the recursive rule that has the same body and builds it anew at every invocation.  Each
side begins on memo tables that remember nothing. -/
theorem recursive_finishes_iff_forward {owner : Nat → Grammar ε ν} {index : Nat}
    (declared : rules[index]? = some (.forward none)) (rulesTabulated : rules.Tabulate owner)
    {body : Grammar ε ν} (tabulated : body.Tabulates owner) (tag : Option String)
    (cells : List Nat) :
    ∃ defined, rules.define index body = .ok defined ∧
      ∀ (source : Array ε) (fresh shared : ParserState ν),
        (∀ cell position, (fresh.table cell).lookup? position = none) →
        (∀ cell position, (shared.table cell).lookup? position = none) →
        ∀ (starts : List Nat) (outcomes : List (Outcome ν)),
          (∃ final, (rule index).FinishesEach
              (rules.setIfInBounds index (.recursive tag cells body)) source starts fresh outcomes
              final) ↔
            ∃ final, (rule index).FinishesEach defined source starts shared outcomes final := by
  refine ⟨_, Rules.define_of_undefined declared body, ?_⟩
  intro source fresh shared freshForgotten sharedForgotten starts outcomes
  have inside : index < rules.size := (Array.getElem?_eq_some_iff.mp declared).1
  have freshDefines := Rules.defineAt_recursive inside tag cells body
  have sharedDefines := Rules.defineAt_forward inside body
  have freshTabulated : Rules.Tabulate _ owner :=
    freshDefines.throughout rulesTabulated ⟨trivial, tabulated⟩
  have sharedTabulated : Rules.Tabulate _ owner :=
    sharedDefines.throughout rulesTabulated tabulated
  have handleTabulated : (rule index : Grammar ε ν).Tabulates owner := trivial
  rw [exists_finishesEach_iff freshTabulated handleTabulated freshForgotten,
    exists_finishesEach_iff sharedTabulated handleTabulated sharedForgotten]
  constructor
  · exact List.Forall₂.imp fun _ _ => (yields_rebuilt_iff freshDefines sharedDefines).mp
  · exact List.Forall₂.imp fun _ _ => (yields_rebuilt_iff freshDefines sharedDefines).mpr

/-! Counting positive elements with memo tables for the element and for the rule itself, of which
the recursive rule has new ones at every invocation. -/

theorem yields_rule_positives (start : Nat) (outcome : Outcome Nat) (final : ParserState Nat)
    (finished : (rule 0 : Grammar Nat Nat).run #[.forward (some positives.withoutTables)] 5
      #[3, 5, 0] start .initial = some (outcome, final)) :
    (rule 0).Yields #[.forward (some positives)] #[3, 5, 0] start outcome := by
  rw [← exists_finishes_withoutTables_iff, withoutTables_positives]
  exact ⟨final, 5, finished⟩

theorem recursive_finishes_iff_forward_positives :
    ∃ final, (rule 0).FinishesEach #[.recursive (some "positives") [0, 1] positives] #[3, 5, 0]
      [0, 2, 0] .initial [.success 2 2, .failure, .success 2 2] final := by
  have declared : (#[.forward none] : Rules Nat Nat)[0]? = some (.forward none) := rfl
  have undefinedTabulated : Rules.Tabulate (#[.forward none] : Rules Nat Nat) positivesOwner := by
    intro index body found
    cases index <;> simp [Rules.body?] at found
  have bodyTabulated : positives.Tabulates positivesOwner :=
    ⟨trivial, ⟨trivial, ⟨rfl, trivial⟩, rfl, trivial⟩, rfl, trivial⟩
  have handleTabulated : (rule 0 : Grammar Nat Nat).Tabulates positivesOwner := trivial
  have forgotten (cell position : Nat) :
      ((ParserState.initial : ParserState Nat).table cell).lookup? position = none := by
    simp
  obtain ⟨defined, accepted, same⟩ := recursive_finishes_iff_forward declared undefinedTabulated
    bodyTabulated (some "positives") [0, 1]
  cases accepted
  apply (same #[3, 5, 0] .initial .initial forgotten forgotten _ _).mpr
  apply (exists_finishesEach_iff tabulate_positives handleTabulated forgotten _ _).mpr
  exact .cons (yields_rule_positives 0 _ _ rfl) (.cons (yields_rule_positives 2 _ _ rfl)
    (.cons (yields_rule_positives 0 _ _ rfl) .nil))

end Grammar

end RecursiveDescent
