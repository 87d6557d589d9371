import RecursiveDescent.Proofs.Meaning

/-!
# Left recursion

A rule is left recursive on a source if an invocation of it leads to another invocation of it at
the same position.  The match of the grammar then does not end.  This file says when there is no
such rule: it is enough that no rule leads back to itself through the parts of the definitions
that may be matched before an element has been consumed.
-/

namespace RecursiveDescent

variable {ε ν : Type} [DecidableEq ε]

/-- An invocation of the second rule at the position leads to one of the first rule there. -/
def Rules.Reaches (rules : Rules ε ν) (source : Array ε) (start inner outer : Nat) : Prop :=
  Relation.TransGen (Grammar.Within rules source) (.rule inner, start) (.rule outer, start)

/-- No rule is invoked within an invocation of itself before an element has been consumed. -/
def Rules.NotLeftRecursive (rules : Rules ε ν) (source : Array ε) : Prop :=
  ∀ index start, ¬ rules.Reaches source start index index

/-- Induction on the order in which rules invoke each other at one position.  There are finitely
many rules, and a rule that has been invoked is not left to be invoked within itself. -/
theorem Rules.NotLeftRecursive.induction {rules : Rules ε ν} {source : Array ε}
    (notLeftRecursive : rules.NotLeftRecursive source) (start : Nat) {property : Nat → Prop}
    (step : ∀ index,
      (∀ other, other < rules.size → rules.Reaches source start other index → property other) →
        property index) (index : Nat) : property index := by
  -- `left` has all rules that may still be invoked at this position.
  have descend (left : List Nat) : ∀ index,
      (∀ other, other < rules.size → rules.Reaches source start other index → other ∈ left) →
        property index := by
    induction size : left.length using Nat.strongRecOn generalizing left with
    | ind count shorter =>
        intro index covered
        refine step index fun other defined reached => ?_
        have member := covered other defined reached
        have fewer : (left.filter (· ≠ other)).length < count := by
          rw [← size, List.length_filter_lt_length_iff_exists]
          exact ⟨other, member, by simp⟩
        refine shorter _ fewer (left.filter (· ≠ other)) rfl other fun third known deeper => ?_
        have different : third ≠ other := by
          rintro rfl
          exact notLeftRecursive third start deeper
        exact List.mem_filter.mpr ⟨covered third known (deeper.trans reached), by simp [different]⟩
  exact descend (List.range rules.size) index fun other defined _ => List.mem_range.mpr defined

/-! ### Rules that are opened at the beginning -/

/-- The rule may be invoked in a match of the grammar before an element has been consumed.  What a
binder chooses counts as such even behind a match, since it may also stand behind a failure. -/
def Grammar.Opens (rules : Rules ε ν) (source : Array ε) (index : Nat) : Grammar ε ν → Prop
  | .element _ _ | .literal _ _ | .fixedWidth _ _ | .succeed _ | .fail | .endOfInput _
  | .ofFunction _ => False
  | .rule other => index = other
  | .sequence first second _ =>
      first.Opens rules source index ∨
        (∃ start value, first.Yields rules source start (.success 0 value)) ∧
          second.Opens rules source index
  | .choice first second => first.Opens rules source index ∨ second.Opens rules source index
  | .repeated item _ _ => item.Opens rules source index
  | .delimited item delimiter _ _ | .separated item delimiter _ =>
      item.Opens rules source index ∨
        (∃ start value, item.Yields rules source start (.success 0 value)) ∧
          delimiter.Opens rules source index
  | .bind first binder =>
      first.Opens rules source index ∨ ∃ outcome, (binder outcome).Opens rules source index
  | .optional inner _ | .ahead inner | .notAhead inner _ | .map inner _ | .tryMap inner _
  | .filter inner _ | .recognize inner _ | .before _ inner | .onSuccess _ inner
  | .onFailure _ inner | .traced _ inner | .memoized _ inner | .rebuilt _ inner
  | .deferred _ inner => inner.Opens rules source index

/-- The definition of the second rule may invoke the first one before an element has been
consumed. -/
def Rules.Opens (rules : Rules ε ν) (source : Array ε) (inner outer : Nat) : Prop :=
  ∃ body, rules.body? outer = some body ∧ body.Opens rules source inner

namespace Grammar

variable {rules : Rules ε ν} {source : Array ε} {inner outer : Site ε ν} {index : Nat}

/-- Attempts do not go back in the source. -/
theorem Within.le (within : Within rules source inner outer) : outer.2 ≤ inner.2 := by
  cases within with
  | part _ | first _ => exact Nat.le_refl _
  | next _ _ => exact Nat.le_add_right _ _

theorem le_of_reflTransGen (path : Relation.ReflTransGen (Within rules source) inner outer) :
    outer.2 ≤ inner.2 := by
  induction path with
  | refl => exact Nat.le_refl _
  | tail _ within pathCase => exact Nat.le_trans within.le pathCase

theorem Opens.of_pairs {item delimiter : Grammar ε ν} {combine : ν → ν → ν}
    {headCollector : ν → ValueCollector ν} {outcome : Outcome ν} {start : Nat}
    (begun : item.Yields rules source start outcome) (nothing : outcome.advance = 0)
    (opens : (pairs item delimiter combine headCollector outcome).Opens rules source index) :
    item.Opens rules source index ∨
      (∃ start value, item.Yields rules source start (.success 0 value)) ∧
        delimiter.Opens rules source index := by
  cases outcome with
  | failure => exact opens.elim
  | success width head =>
      obtain rfl : width = 0 := nothing
      rcases opens with delimiterOpens | ⟨_, itemOpens⟩
      · exact .inr ⟨⟨start, head, begun⟩, delimiterOpens⟩
      · exact .inl itemOpens

/-- What the attempt within the invocation of a rule opens is opened by the definition. -/
theorem Opens.within_rule {other start : Nat} (opens : inner.1.Opens rules source index)
    (within : Within rules source inner (rule other, start)) :
    rules.Opens source index other := by
  cases found : rules.body? other with
  | none =>
      cases within with
      | part shape | first shape | next shape _ => simp [form, found] at shape
  | some body =>
      cases within with
      | part shape =>
          simp only [form, found] at shape
          cases shape
          exact ⟨body, found, opens⟩
      | first shape | next shape _ => simp [form, found] at shape

/-- What an attempt at the position of a whole match opens is opened by the whole. -/
theorem Opens.within (opens : inner.1.Opens rules source index)
    (within : Within rules source inner outer) (level : inner.2 = outer.2)
    (unnamed : ∀ other, outer.1 ≠ rule other) : outer.1.Opens rules source index := by
  cases within with
  | @part grammar part adjust start shape =>
      cases grammar with
      | optional inner _ | ahead inner | notAhead inner _ | map inner _ | tryMap inner _
      | filter inner _ | recognize inner _ | before _ inner | onSuccess _ inner
      | onFailure _ inner | traced _ inner | memoized _ inner | rebuilt _ inner
      | deferred _ inner =>
          cases shape
          exact opens
      | repeated item collector bounds =>
          simp only [form] at shape
          split at shape <;> cases shape
      | rule other => exact absurd rfl (unnamed other)
      | _ => cases shape
  | @first grammar first next start shape =>
      cases grammar with
      | sequence left right _ | choice left right | delimited left right _ _
      | separated left right _ | bind left _ =>
          cases shape
          exact .inl opens
      | repeated item collector bounds =>
          simp only [form] at shape
          split at shape
          · cases shape
            exact opens
          · cases shape
      | rule other => exact absurd rfl (unnamed other)
      | _ => cases shape
  | @next grammar first next start outcome shape beginning =>
      have nothing : outcome.advance = 0 := Nat.add_eq_left.mp level
      cases grammar with
      | sequence left right combine =>
          cases shape
          cases outcome with
          | success width value =>
              obtain rfl : width = 0 := nothing
              exact .inr ⟨⟨start, value, beginning⟩, opens⟩
          | failure => exact opens.elim
      | choice left right =>
          cases shape
          cases outcome with
          | success width value => exact opens.elim
          | failure => exact .inr opens
      | repeated item collector bounds =>
          simp only [form] at shape
          split at shape
          · cases shape
            cases outcome with
            | success width value => exact opens
            | failure =>
                simp only [repetition] at opens
                split at opens <;> exact opens.elim
          · cases shape
      | delimited item delimiter combine headCollector =>
          cases shape
          exact Opens.of_pairs beginning nothing opens
      | separated item delimiter collector =>
          cases shape
          exact Opens.of_pairs beginning nothing opens
      | bind left binder =>
          cases shape
          exact .inr ⟨outcome, opens⟩
      | rule other => exact absurd rfl (unnamed other)
      | _ => cases shape

/-- Along attempts at one position, rules are invoked by the definitions that open them. -/
theorem exists_opens_of_path {start : Nat}
    (path : Relation.ReflTransGen (Within rules source) (rule index, start) outer)
    (level : outer.2 = start) :
    ∃ middle, Relation.ReflTransGen (rules.Opens source) index middle ∧
      outer.1.Opens rules source middle := by
  induction path with
  | refl => exact ⟨index, .refl, rfl⟩
  | @tail between outer path within pathCase =>
      have forward : between.2 ≤ start := le_of_reflTransGen path
      have same : between.2 = start := by
        have back := within.le
        omega
      obtain ⟨middle, chain, opens⟩ := pathCase same
      by_cases named : ∃ other, outer.1 = rule other
      · obtain ⟨grammar, position⟩ := outer
        obtain ⟨other, rfl⟩ := named
        exact ⟨other, chain.tail (opens.within_rule within), rfl⟩
      · have unnamed (other : Nat) : outer.1 ≠ rule other := fun equal => named ⟨other, equal⟩
        exact ⟨middle, chain, opens.within within (same.trans level.symm) unnamed⟩

end Grammar

/-- Rules that do not lead back to themselves through what their definitions open are not left
recursive. -/
theorem Rules.notLeftRecursive_of_opens {rules : Rules ε ν} {source : Array ε}
    (acyclic : ∀ index, ¬ Relation.TransGen (rules.Opens source) index index) :
    rules.NotLeftRecursive source := by
  intro index start circle
  obtain ⟨between, path, within⟩ := Relation.TransGen.tail'_iff.mp circle
  have level : between.2 = start :=
    Nat.le_antisymm (Grammar.le_of_reflTransGen path) within.le
  obtain ⟨middle, chain, opens⟩ := Grammar.exists_opens_of_path path level
  exact acyclic index (.tail' chain (opens.within_rule within))

end RecursiveDescent
