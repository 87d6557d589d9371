import RecursiveDescent.GrammarRun
import RecursiveDescent.Proofs.NormalForm
import Mathlib.Logic.Relation

/-!
# The meaning of a grammar

What a grammar yields on a source does not depend on memo tables, hooks or allotments of steps.
This file says what it is, without a state.

Every grammar has one of three forms.  It may settle its outcome at once, adjust the outcome of
one part, or go on behind a first part with a grammar that the outcome of the first part chooses.
A repetition is of the third form: an item, and behind it a repetition with less to match whose
collector has taken the item in.  `Grammar.Yields` is the relation that the three forms generate.

`Grammar.Within` relates a grammar at a position to the attempts that its match consists of.  A
grammar yields an outcome exactly when there is no endless descent into such attempts, which is
`Grammar.exists_yields_iff_acc`.
-/

namespace RecursiveDescent

variable {ε ν : Type}

/-- The grammar that a rule number stands for, if it is defined. -/
def Rules.body? (rules : Rules ε ν) (index : Nat) : Option (Grammar ε ν) :=
  match rules[index]? with
  | some (.recursive _ cells body) => some (.rebuilt cells body)
  | some (.forward definition) => definition
  | none => none

/-- Where one forward rule is defined, there is no other definition. -/
theorem Rules.eq_of_body?_single {definition body : Grammar ε ν} {index : Nat}
    (found : Rules.body? #[.forward (some definition)] index = some body) :
    body = definition := by
  cases index with
  | zero => exact (Option.some.inj found).symm
  | succ index => simp [Rules.body?] at found

namespace ValueCollector

/-- The collector that has taken a value in already. -/
def taking (collector : ValueCollector ν) (value : ν) : ValueCollector ν :=
  collector.startingFrom (collector.accumulate collector.supply.value value).value

/-- What the collector makes of no values. -/
def result (collector : ValueCollector ν) : ν :=
  (collector.finish collector.supply.value).value

end ValueCollector

/-- A grammar to be matched from a position on. -/
abbrev Site (ε ν : Type) : Type 1 :=
  Grammar ε ν × Nat

/-! ### The three forms -/

/-- How the outcome of a grammar comes about on a given source. -/
inductive Form (ε ν : Type) : Type 1 where
  /-- The position alone decides. -/
  | settled (outcome : Nat → Outcome ν)
  /-- The outcome of a part is changed. -/
  | adjusted (part : Grammar ε ν) (adjust : Nat → Outcome ν → Outcome ν)
  /-- The outcome of a first part chooses what follows it. -/
  | continued (first : Grammar ε ν) (next : Outcome ν → Grammar ε ν)

/-- All parts of a form have a property. -/
def Form.All (property : Grammar ε ν → Prop) : Form ε ν → Prop
  | .settled _ => True
  | .adjusted part _ => property part
  | .continued first next => property first ∧ ∀ outcome, property (next outcome)

namespace Grammar

def sequel (second : Grammar ε ν) (combine : ν → ν → ν) : Outcome ν → Grammar ε ν
  | .success _ value => .map second (combine value)
  | .failure => .fail

def alternative (second : Grammar ε ν) : Outcome ν → Grammar ε ν
  | .success _ value => .succeed value
  | .failure => second

/-- The outcome of a repetition that ends without a match. -/
def closing (collector : ValueCollector ν) (bounds : RepeatBounds) : Outcome ν :=
  if 0 < bounds.minimum then .failure else .success 0 collector.result

/-- What follows the first item of a repetition. -/
def repetition (item : Grammar ε ν) (collector : ValueCollector ν) (bounds : RepeatBounds) :
    Outcome ν → Grammar ε ν
  | .success _ value => .repeated item (collector.taking value) (bounds.drop 1)
  | .failure => if 0 < bounds.minimum then .fail else .succeed collector.result

/-- What follows the head of a list: pairs of a delimiter and an item. -/
def pairs (item delimiter : Grammar ε ν) (combine : ν → ν → ν)
    (headCollector : ν → ValueCollector ν) : Outcome ν → Grammar ε ν
  | .success _ head =>
      .repeated (.sequence delimiter item combine) (headCollector head) .zeroOrMore
  | .failure => .fail

def form [DecidableEq ε] (rules : Rules ε ν) (source : Array ε) : Grammar ε ν → Form ε ν
  | .element test value => .settled (Outcome.ofElement test value source)
  | .literal expected value => .settled (Outcome.ofLiteral expected value source)
  | .fixedWidth width read => .settled (Outcome.ofFixedWidth width read source)
  | .succeed value => .settled fun _ => .success 0 value
  | .fail => .settled fun _ => .failure
  | .endOfInput value => .settled (Outcome.ofEnd value source)
  | .ofFunction function => .settled (function source)
  | .sequence first second combine => .continued first (sequel second combine)
  | .choice first second => .continued first (alternative second)
  | .optional inner fallback => .adjusted inner fun _ => Outcome.orElse fallback
  | .repeated item collector bounds =>
      if bounds.allowsMore 0 then
        .continued item (repetition item collector bounds)
      else
        .settled fun _ => closing collector bounds
  | .ahead inner => .adjusted inner fun _ => Outcome.withoutWidth
  | .notAhead inner value => .adjusted inner fun _ => Outcome.negated value
  | .delimited item delimiter combine headCollector =>
      .continued item (pairs item delimiter combine headCollector)
  | .separated item delimiter collector =>
      .continued item (pairs item delimiter (fun _ value => value) collector.accept)
  | .bind first binder => .continued first binder
  | .map inner function => .adjusted inner fun _ => Outcome.map function
  | .tryMap inner function => .adjusted inner fun _ => Outcome.filterMap function
  | .filter inner accepts => .adjusted inner fun _ => Outcome.accepted accepts
  | .recognize inner read => .adjusted inner (Outcome.reread read source)
  | .before _ inner | .onSuccess _ inner | .onFailure _ inner | .traced _ inner
  | .memoized _ inner | .rebuilt _ inner | .deferred _ inner =>
      .adjusted inner fun _ outcome => outcome
  | .rule index =>
      match rules.body? index with
      | some body => .adjusted body fun _ outcome => outcome
      | none => .settled fun _ => .failure

variable [DecidableEq ε] {rules : Rules ε ν} {source : Array ε}

theorem form_repeated_of_more {item : Grammar ε ν} {collector : ValueCollector ν}
    {bounds : RepeatBounds} (more : bounds.allowsMore 0) :
    (repeated item collector bounds).form rules source =
      .continued item (repetition item collector bounds) := by
  simp [form, more]

theorem form_repeated_of_exhausted {item : Grammar ε ν} {collector : ValueCollector ν}
    {bounds : RepeatBounds} (exhausted : ¬ bounds.allowsMore 0) :
    (repeated item collector bounds).form rules source =
      .settled fun _ => closing collector bounds := by
  simp [form, exhausted]

theorem form_rule_of_defined {index : Nat} {body : Grammar ε ν}
    (defined : rules.body? index = some body) :
    (rule index).form rules source = .adjusted body fun _ outcome => outcome := by
  simp [form, defined]

theorem form_rule_of_undefined {index : Nat} (undefined : rules.body? index = none) :
    (rule index).form rules source = .settled fun _ => .failure := by
  simp [form, undefined]

variable (rules source)

theorem form_repetition_failure (item : Grammar ε ν) (collector : ValueCollector ν)
    (bounds : RepeatBounds) :
    (repetition item collector bounds .failure).form rules source =
      .settled fun _ => closing collector bounds := by
  by_cases few : 0 < bounds.minimum <;> simp [repetition, closing, few, form]

/-- The grammar, matched on the source from a position on, comes to the outcome. -/
inductive Yields : Grammar ε ν → Nat → Outcome ν → Prop where
  | settled {grammar outcome start} (shape : grammar.form rules source = .settled outcome) :
      Yields grammar start (outcome start)
  | adjusted {grammar part adjust start outcome}
      (shape : grammar.form rules source = .adjusted part adjust)
      (inside : Yields part start outcome) :
      Yields grammar start (adjust start outcome)
  | continued {grammar first next start outcome result}
      (shape : grammar.form rules source = .continued first next)
      (beginning : Yields first start outcome)
      (following : Yields (next outcome) (start + outcome.advance) result) :
      Yields grammar start (result.advancedBy outcome.advance)

variable {rules source}

/-- A grammar that only passes the outcome of a part on yields what the part yields. -/
theorem Yields.passed {grammar part : Grammar ε ν} {start : Nat} {outcome : Outcome ν}
    (shape : grammar.form rules source = .adjusted part fun _ outcome => outcome)
    (inside : part.Yields rules source start outcome) :
    grammar.Yields rules source start outcome := by
  have derived := Yields.adjusted shape inside
  exact derived

theorem Yields.of_adjusted {grammar part : Grammar ε ν} {adjust : Nat → Outcome ν → Outcome ν}
    {start : Nat} {outcome : Outcome ν} (yields : grammar.Yields rules source start outcome)
    (shape : grammar.form rules source = .adjusted part adjust) :
    ∃ inner, part.Yields rules source start inner ∧ outcome = adjust start inner := by
  cases yields with
  | settled other => cases shape.symm.trans other
  | adjusted other inside =>
      cases shape.symm.trans other
      exact ⟨_, inside, rfl⟩
  | continued other _ _ => cases shape.symm.trans other

theorem Yields.of_continued {grammar first : Grammar ε ν} {next : Outcome ν → Grammar ε ν}
    {start : Nat} {outcome : Outcome ν} (yields : grammar.Yields rules source start outcome)
    (shape : grammar.form rules source = .continued first next) :
    ∃ begun result, first.Yields rules source start begun ∧
      (next begun).Yields rules source (start + begun.advance) result ∧
      outcome = result.advancedBy begun.advance := by
  cases yields with
  | settled other => cases shape.symm.trans other
  | adjusted other _ => cases shape.symm.trans other
  | continued other beginning following =>
      cases shape.symm.trans other
      exact ⟨_, _, beginning, following, rfl⟩

/-- A grammar yields at most one outcome. -/
theorem Yields.unique {grammar : Grammar ε ν} {start : Nat} {left right : Outcome ν}
    (first : grammar.Yields rules source start left)
    (second : grammar.Yields rules source start right) : left = right := by
  induction first generalizing right with
  | settled shape =>
      cases second with
      | settled other => cases shape.symm.trans other; rfl
      | adjusted other _ => cases shape.symm.trans other
      | continued other _ _ => cases shape.symm.trans other
  | adjusted shape _ insideCase =>
      cases second with
      | settled other => cases shape.symm.trans other
      | adjusted other inside =>
          cases shape.symm.trans other
          rw [insideCase inside]
      | continued other _ _ => cases shape.symm.trans other
  | continued shape _ _ beginningCase followingCase =>
      cases second with
      | settled other => cases shape.symm.trans other
      | adjusted other _ => cases shape.symm.trans other
      | continued other beginning following =>
          cases shape.symm.trans other
          cases beginningCase beginning
          rw [followingCase following]

/-! ### The attempts that a match consists of -/

variable (rules source)

/-- The match of the second site consists, among others, of an attempt of the first one. -/
inductive Within : Site ε ν → Site ε ν → Prop where
  | part {grammar part adjust start}
      (shape : grammar.form rules source = .adjusted part adjust) :
      Within (part, start) (grammar, start)
  | first {grammar first next start}
      (shape : grammar.form rules source = .continued first next) :
      Within (first, start) (grammar, start)
  | next {grammar first next start outcome}
      (shape : grammar.form rules source = .continued first next)
      (beginning : first.Yields rules source start outcome) :
      Within (next outcome, start + outcome.advance) (grammar, start)

variable {rules source}

theorem acc_of_settled {grammar : Grammar ε ν} {outcome : Nat → Outcome ν} (start : Nat)
    (shape : grammar.form rules source = .settled outcome) :
    Acc (Within rules source) (grammar, start) := by
  refine ⟨_, fun inner within => ?_⟩
  cases within with
  | part other => cases shape.symm.trans other
  | first other => cases shape.symm.trans other
  | next other _ => cases shape.symm.trans other

theorem acc_of_adjusted {grammar part : Grammar ε ν} {adjust : Nat → Outcome ν → Outcome ν}
    {start : Nat} (shape : grammar.form rules source = .adjusted part adjust)
    (inside : Acc (Within rules source) (part, start)) :
    Acc (Within rules source) (grammar, start) := by
  refine ⟨_, fun inner within => ?_⟩
  cases within with
  | part other =>
      cases shape.symm.trans other
      exact inside
  | first other => cases shape.symm.trans other
  | next other _ => cases shape.symm.trans other

theorem acc_of_continued {grammar first : Grammar ε ν} {next : Outcome ν → Grammar ε ν}
    {start : Nat} (shape : grammar.form rules source = .continued first next)
    (beginning : Acc (Within rules source) (first, start))
    (following : ∀ outcome, first.Yields rules source start outcome →
      Acc (Within rules source) (next outcome, start + outcome.advance)) :
    Acc (Within rules source) (grammar, start) := by
  refine ⟨_, fun inner within => ?_⟩
  cases within with
  | part other => cases shape.symm.trans other
  | first other =>
      cases shape.symm.trans other
      exact beginning
  | next other begun =>
      cases shape.symm.trans other
      exact following _ begun

/-- A grammar that yields an outcome consists of no endless descent. -/
theorem Yields.acc {grammar : Grammar ε ν} {start : Nat} {outcome : Outcome ν}
    (yields : grammar.Yields rules source start outcome) :
    Acc (Within rules source) (grammar, start) := by
  induction yields with
  | settled shape => exact acc_of_settled _ shape
  | adjusted shape _ insideCase => exact acc_of_adjusted shape insideCase
  | continued shape beginning _ beginningCase followingCase =>
      refine acc_of_continued shape beginningCase fun outcome begun => ?_
      cases beginning.unique begun
      exact followingCase

/-- A grammar yields an outcome when all attempts that it consists of do. -/
theorem exists_yields_of_acc {site : Site ε ν} (descent : Acc (Within rules source) site) :
    ∃ outcome, site.1.Yields rules source site.2 outcome := by
  induction descent with
  | intro site _ innerCase =>
      obtain ⟨grammar, start⟩ := site
      cases shape : grammar.form rules source with
      | settled outcome => exact ⟨_, .settled shape⟩
      | adjusted part adjust =>
          obtain ⟨outcome, inside⟩ := innerCase (part, start) (.part shape)
          exact ⟨_, .adjusted shape inside⟩
      | continued first next =>
          obtain ⟨outcome, beginning⟩ := innerCase (first, start) (.first shape)
          obtain ⟨result, following⟩ := innerCase _ (.next shape beginning)
          exact ⟨_, .continued shape beginning following⟩

theorem exists_yields_iff_acc (grammar : Grammar ε ν) (start : Nat) :
    (∃ outcome, grammar.Yields rules source start outcome) ↔
      Acc (Within rules source) (grammar, start) :=
  ⟨fun ⟨_, yields⟩ => yields.acc, exists_yields_of_acc⟩

/-- What a grammar yields does not lead back to the same grammar at the same position. -/
theorem Yields.not_within_itself {grammar : Grammar ε ν} {start : Nat} {outcome : Outcome ν}
    (yields : grammar.Yields rules source start outcome) :
    ¬ Relation.TransGen (Within rules source) (grammar, start) (grammar, start) := by
  have descent := yields.acc.transGen
  generalize (grammar, start) = site at descent
  induction descent with
  | intro site _ innerCase => exact fun circle => innerCase site circle circle

end Grammar

end RecursiveDescent
