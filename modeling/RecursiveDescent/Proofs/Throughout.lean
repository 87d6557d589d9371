import RecursiveDescent.Proofs.Meaning

/-!
# Properties of all parts of a grammar

A condition on single constructs holds throughout a grammar when it holds of the grammar, of its
parts, of their parts and so on, and of whatever a binder may choose.  Matching a grammar also
comes across grammars that are not written in it, such as what is left of a repetition.  A
condition that these satisfy as well passes from a grammar to the parts of its form.
-/

namespace RecursiveDescent

variable {ε ν : Type}

namespace Grammar

/-- The condition holds of the grammar and of everything in it. -/
def Throughout (accepts : Grammar ε ν → Prop) : Grammar ε ν → Prop
  | .element test value => accepts (.element test value)
  | .literal expected value => accepts (.literal expected value)
  | .fixedWidth width read => accepts (.fixedWidth width read)
  | .succeed value => accepts (.succeed value)
  | .fail => accepts .fail
  | .endOfInput value => accepts (.endOfInput value)
  | .ofFunction function => accepts (.ofFunction function)
  | .sequence first second combine =>
      accepts (.sequence first second combine) ∧
        first.Throughout accepts ∧ second.Throughout accepts
  | .choice first second =>
      accepts (.choice first second) ∧ first.Throughout accepts ∧ second.Throughout accepts
  | .optional inner fallback => accepts (.optional inner fallback) ∧ inner.Throughout accepts
  | .repeated item collector bounds =>
      accepts (.repeated item collector bounds) ∧ item.Throughout accepts
  | .ahead inner => accepts (.ahead inner) ∧ inner.Throughout accepts
  | .notAhead inner value => accepts (.notAhead inner value) ∧ inner.Throughout accepts
  | .delimited item delimiter combine headCollector =>
      accepts (.delimited item delimiter combine headCollector) ∧
        item.Throughout accepts ∧ delimiter.Throughout accepts
  | .separated item delimiter collector =>
      accepts (.separated item delimiter collector) ∧
        item.Throughout accepts ∧ delimiter.Throughout accepts
  | .bind first binder =>
      accepts (.bind first binder) ∧
        first.Throughout accepts ∧ ∀ outcome, (binder outcome).Throughout accepts
  | .map inner function => accepts (.map inner function) ∧ inner.Throughout accepts
  | .tryMap inner function => accepts (.tryMap inner function) ∧ inner.Throughout accepts
  | .filter inner test => accepts (.filter inner test) ∧ inner.Throughout accepts
  | .recognize inner read => accepts (.recognize inner read) ∧ inner.Throughout accepts
  | .before tag inner => accepts (.before tag inner) ∧ inner.Throughout accepts
  | .onSuccess tag inner => accepts (.onSuccess tag inner) ∧ inner.Throughout accepts
  | .onFailure tag inner => accepts (.onFailure tag inner) ∧ inner.Throughout accepts
  | .traced name inner => accepts (.traced name inner) ∧ inner.Throughout accepts
  | .memoized cell inner => accepts (.memoized cell inner) ∧ inner.Throughout accepts
  | .rebuilt cells inner => accepts (.rebuilt cells inner) ∧ inner.Throughout accepts
  | .deferred tag inner => accepts (.deferred tag inner) ∧ inner.Throughout accepts
  | .rule index => accepts (.rule index)

/-- The condition holds of the grammars that a match comes across without their being written in
the grammar that is matched. -/
structure Hereditary (accepts : Grammar ε ν → Prop) : Prop where
  fail : accepts .fail
  succeed : ∀ value, accepts (.succeed value)
  map : ∀ inner function, accepts (.map inner function)
  sequence : ∀ first second combine, accepts (.sequence first second combine)
  left : ∀ item collector bounds value, accepts (.repeated item collector bounds) →
    accepts (.repeated item (collector.taking value) (bounds.drop 1))
  pairs : ∀ item delimiter combine headCollector head,
    accepts (.delimited item delimiter combine headCollector) →
      accepts (.repeated (.sequence delimiter item combine) (headCollector head) .zeroOrMore)
  separatedPairs : ∀ item delimiter collector head,
    accepts (.separated item delimiter collector) →
      accepts (.repeated (.sequence delimiter item fun _ value => value) (collector.accept head)
        .zeroOrMore)

end Grammar

def Rules.Throughout (rules : Rules ε ν) (accepts : Grammar ε ν → Prop) : Prop :=
  ∀ index body, rules.body? index = some body → body.Throughout accepts

theorem Rules.throughout_single {accepts : Grammar ε ν → Prop} {definition : Grammar ε ν}
    (holds : definition.Throughout accepts) :
    Rules.Throughout #[.forward (some definition)] accepts := by
  intro index body found
  obtain rfl := Rules.eq_of_body?_single found
  exact holds

namespace Grammar

variable {accepts : Grammar ε ν → Prop} {rules : Rules ε ν} {grammar : Grammar ε ν}

theorem Throughout.holds (throughout : grammar.Throughout accepts) : accepts grammar := by
  cases grammar with
  | element _ _ | literal _ _ | fixedWidth _ _ | succeed _ | fail | endOfInput _ | ofFunction _
  | rule _ => exact throughout
  | _ => exact throughout.1

theorem Throughout.mono {weaker : Grammar ε ν → Prop} (holds : grammar.Throughout accepts)
    (implies : ∀ grammar, accepts grammar → weaker grammar) : grammar.Throughout weaker := by
  induction grammar with
  | element _ _ | literal _ _ | fixedWidth _ _ | succeed _ | fail | endOfInput _ | ofFunction _
  | rule _ => exact implies _ holds
  | sequence first second combine firstCase secondCase =>
      exact ⟨implies _ holds.1, firstCase holds.2.1, secondCase holds.2.2⟩
  | choice first second firstCase secondCase =>
      exact ⟨implies _ holds.1, firstCase holds.2.1, secondCase holds.2.2⟩
  | delimited item delimiter combine headCollector itemCase delimiterCase =>
      exact ⟨implies _ holds.1, itemCase holds.2.1, delimiterCase holds.2.2⟩
  | separated item delimiter collector itemCase delimiterCase =>
      exact ⟨implies _ holds.1, itemCase holds.2.1, delimiterCase holds.2.2⟩
  | bind first binder firstCase binderCase =>
      exact ⟨implies _ holds.1, firstCase holds.2.1, fun outcome =>
        binderCase outcome (holds.2.2 outcome)⟩
  | optional inner _ innerCase | repeated inner _ _ innerCase | ahead inner innerCase
  | notAhead inner _ innerCase | map inner _ innerCase | tryMap inner _ innerCase
  | filter inner _ innerCase | recognize inner _ innerCase | before _ inner innerCase
  | onSuccess _ inner innerCase | onFailure _ inner innerCase | traced _ inner innerCase
  | memoized _ inner innerCase | rebuilt _ inner innerCase | deferred _ inner innerCase =>
      exact ⟨implies _ holds.1, innerCase holds.2⟩

/-- What holds throughout a grammar holds throughout the parts of its form. -/
theorem Throughout.form [DecidableEq ε] (holds : grammar.Throughout accepts)
    (hereditary : Hereditary accepts) (rulesHold : rules.Throughout accepts)
    (source : Array ε) :
    (grammar.form rules source).All (Throughout accepts) := by
  cases grammar with
  | element _ _ | literal _ _ | fixedWidth _ _ | succeed _ | fail | endOfInput _
  | ofFunction _ => trivial
  | sequence first second combine =>
      refine ⟨holds.2.1, fun outcome => ?_⟩
      cases outcome with
      | success width value => exact ⟨hereditary.map _ _, holds.2.2⟩
      | failure => exact hereditary.fail
  | choice first second =>
      refine ⟨holds.2.1, fun outcome => ?_⟩
      cases outcome with
      | success width value => exact hereditary.succeed value
      | failure => exact holds.2.2
  | repeated item collector bounds =>
      by_cases more : bounds.allowsMore 0
      · simp only [Grammar.form, more, if_true]
        refine ⟨holds.2, fun outcome => ?_⟩
        cases outcome with
        | success width value =>
            exact ⟨hereditary.left item collector bounds value holds.1, holds.2⟩
        | failure =>
            by_cases few : 0 < bounds.minimum
            · simp only [repetition, few, if_true]
              exact hereditary.fail
            · simp only [repetition, few, if_false]
              exact hereditary.succeed _
      · simp [Grammar.form, more, Form.All]
  | delimited item delimiter combine headCollector =>
      refine ⟨holds.2.1, fun outcome => ?_⟩
      cases outcome with
      | success width head =>
          exact ⟨hereditary.pairs item delimiter combine headCollector head holds.1,
            hereditary.sequence _ _ _, holds.2.2, holds.2.1⟩
      | failure => exact hereditary.fail
  | separated item delimiter collector =>
      refine ⟨holds.2.1, fun outcome => ?_⟩
      cases outcome with
      | success width head =>
          exact ⟨hereditary.separatedPairs item delimiter collector head holds.1,
            hereditary.sequence _ _ _, holds.2.2, holds.2.1⟩
      | failure => exact hereditary.fail
  | bind first binder => exact holds.2
  | rule index =>
      simp only [Grammar.form]
      cases found : rules.body? index with
      | none => trivial
      | some body => exact rulesHold index body found
  | _ => exact holds.2

/-- What holds throughout a grammar holds throughout the attempts within it. -/
theorem Throughout.within [DecidableEq ε] {source : Array ε} {inner outer : Site ε ν}
    (holds : outer.1.Throughout accepts) (hereditary : Hereditary accepts)
    (rulesHold : rules.Throughout accepts) (within : Within rules source inner outer) :
    inner.1.Throughout accepts := by
  have parts := holds.form hereditary rulesHold source
  cases within with
  | part shape =>
      rw [shape] at parts
      exact parts
  | first shape =>
      rw [shape] at parts
      exact parts.1
  | next shape _ =>
      rw [shape] at parts
      exact parts.2 _

end Grammar

end RecursiveDescent
