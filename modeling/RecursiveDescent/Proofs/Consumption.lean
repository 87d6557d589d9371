import RecursiveDescent.Proofs.Takes
import RecursiveDescent.Proofs.Throughout

/-!
# Consumption

A grammar without functions on positions looks at elements of the source only, so it consumes
nothing where no element remains and never runs past the end.  Positions are words: a source that
does not end before the last position is beyond the second statement, because windows into it may
be cut short.
-/

namespace RecursiveDescent

variable {ε ν : Type}

/-- The construct is not a function on positions. -/
def Grammar.NoFunction : Grammar ε ν → Prop
  | .ofFunction _ => False
  | _ => True

abbrev Grammar.FunctionFree (grammar : Grammar ε ν) : Prop :=
  grammar.Throughout Grammar.NoFunction

abbrev Rules.FunctionFree (rules : Rules ε ν) : Prop :=
  rules.Throughout Grammar.NoFunction

theorem Grammar.hereditary_noFunction :
    Hereditary (NoFunction : Grammar ε ν → Prop) where
  fail := trivial
  succeed _ := trivial
  map _ _ := trivial
  sequence _ _ _ := trivial
  left _ _ _ _ _ := trivial
  pairs _ _ _ _ _ _ := trivial
  separatedPairs _ _ _ _ _ := trivial

/-! ### How far outcomes advance -/

theorem le_size_of_window {source : Array ε} {start width : Nat} {elements : List ε}
    (found : window source start width = some elements) : start ≤ source.size := by
  simp only [window] at found
  split at found
  · omega
  · cases found

namespace Outcome

variable {source : Array ε} {start : Nat}

/-- An outcome at a position stays inside the source. -/
def Inside (source : Array ε) (start : Nat) (outcome : Outcome ν) : Prop :=
  outcome.advance = 0 ∨
    start ≤ source.size ∧
      (source.size < lastPosition → start + outcome.advance ≤ source.size)

@[simp]
theorem inside_failure : (failure : Outcome ν).Inside source start :=
  .inl rfl

@[simp]
theorem inside_success_zero (value : ν) : (success 0 value).Inside source start :=
  .inl rfl

theorem inside_of_window {width : Nat} {elements : List ε} (value : ν)
    (found : window source start width = some elements) :
    (success width value).Inside source start := by
  refine .inr ⟨le_size_of_window found, fun spanned => ?_⟩
  rw [window_eq source spanned] at found
  split at found
  · assumption
  · cases found

theorem ofElement_inside (test : ε → Bool) (value : ε → ν) :
    (ofElement test value source start).Inside source start := by
  unfold ofElement
  cases found : source[start]? with
  | none => exact inside_failure
  | some element =>
      have before := (Array.getElem?_eq_some_iff.mp found).1
      by_cases passes : test element
      · simp only [passes, if_true]
        exact .inr ⟨by omega, fun _ => before⟩
      · simp [passes]

theorem ofLiteral_inside [DecidableEq ε] (expected : List ε) (value : ν) :
    (ofLiteral expected value source start).Inside source start := by
  unfold ofLiteral
  split
  · exact inside_of_window value (by assumption)
  · exact inside_failure

theorem ofFixedWidth_inside (width : Nat) (read : List ε → Option ν) :
    (ofFixedWidth width read source start).Inside source start := by
  unfold ofFixedWidth
  cases found : window source start width with
  | none => exact inside_failure
  | some elements =>
      simp only [Option.bind_some]
      cases read elements with
      | none => exact inside_failure
      | some value => exact inside_of_window value found

theorem ofEnd_inside (value : ν) : (ofEnd value source start).Inside source start := by
  unfold ofEnd
  split
  · exact inside_success_zero value
  · exact inside_failure

theorem advance_advancedBy_le (outcome : Outcome ν) (offset : Nat) :
    (outcome.advancedBy offset).advance ≤ offset + outcome.advance := by
  cases outcome with
  | success width value => simp [advancedBy, advance, Nat.add_comm]
  | failure => simp [advancedBy, advance]

end Outcome

namespace Grammar

variable [DecidableEq ε] {rules : Rules ε ν} {source : Array ε} {grammar : Grammar ε ν}

theorem inside_of_settled (functionFree : grammar.FunctionFree) {settled : Nat → Outcome ν}
    (shape : grammar.form rules source = .settled settled) (start : Nat) :
    (settled start).Inside source start := by
  cases grammar with
  | element test value =>
      cases shape
      exact Outcome.ofElement_inside test value
  | literal expected value =>
      cases shape
      exact Outcome.ofLiteral_inside expected value
  | fixedWidth width read =>
      cases shape
      exact Outcome.ofFixedWidth_inside width read
  | succeed value =>
      cases shape
      exact Outcome.inside_success_zero value
  | fail =>
      cases shape
      exact Outcome.inside_failure
  | endOfInput value =>
      cases shape
      exact Outcome.ofEnd_inside value
  | ofFunction function => exact functionFree.elim
  | repeated item collector bounds =>
      simp only [form] at shape
      split at shape
      · cases shape
      · cases shape
        unfold closing
        split
        · exact Outcome.inside_failure
        · exact Outcome.inside_success_zero _
  | rule index =>
      simp only [form] at shape
      split at shape
      · cases shape
      · cases shape
        exact Outcome.inside_failure
  | _ => cases shape

/-- An adjusted outcome advances no further than the outcome of the part. -/
theorem advance_adjusted_le {part : Grammar ε ν} {adjust : Nat → Outcome ν → Outcome ν}
    (shape : grammar.form rules source = .adjusted part adjust) (start : Nat)
    (outcome : Outcome ν) : (adjust start outcome).advance ≤ outcome.advance := by
  cases grammar with
  | optional inner fallback => cases shape; cases outcome <;> exact Nat.le_refl _
  | ahead inner => cases shape; cases outcome <;> exact Nat.zero_le _
  | notAhead inner value => cases shape; cases outcome <;> exact Nat.zero_le _
  | map inner function => cases shape; cases outcome <;> exact Nat.le_refl _
  | tryMap inner function =>
      cases shape
      cases outcome with
      | failure => exact Nat.le_refl _
      | success width value =>
          cases found : function value <;> simp [Outcome.filterMap, found, Outcome.ofParts,
            Outcome.advance]
  | filter inner accepts =>
      cases shape
      cases outcome with
      | failure => exact Nat.le_refl _
      | success width value =>
          cases passes : accepts value <;> simp [Outcome.accepted, passes, Outcome.advance]
  | recognize inner read =>
      cases shape
      cases outcome with
      | failure => exact Nat.le_refl _
      | success width value =>
          cases found : window source start width <;>
            simp [Outcome.reread, found, Outcome.advance]
  | before _ inner | onSuccess _ inner | onFailure _ inner | traced _ inner | memoized _ inner
  | rebuilt _ inner | deferred _ inner =>
      cases shape
      exact Nat.le_refl _
  | repeated item collector bounds =>
      simp only [form] at shape
      split at shape <;> cases shape
  | rule index =>
      simp only [form] at shape
      split at shape
      · cases shape
        exact Nat.le_refl _
      · cases shape
  | _ => cases shape

/-- What a grammar without functions yields stays inside the source. -/
theorem Yields.inside {start : Nat} {outcome : Outcome ν}
    (yields : grammar.Yields rules source start outcome) (functionFree : grammar.FunctionFree)
    (rulesFunctionFree : rules.FunctionFree) : outcome.Inside source start := by
  induction yields with
  | settled shape => exact inside_of_settled functionFree shape _
  | @adjusted grammar part adjust start outcome shape _ insideCase =>
      have parts := functionFree.form hereditary_noFunction rulesFunctionFree source
      rw [shape] at parts
      have shorter := advance_adjusted_le shape start outcome
      rcases insideCase parts with nothing | ⟨begins, ends⟩
      · exact .inl (by omega)
      · refine .inr ⟨begins, fun spanned => ?_⟩
        have bounded := ends spanned
        omega
  | @continued grammar first next start outcome result shape _ _ beginningCase followingCase =>
      have parts := functionFree.form hereditary_noFunction rulesFunctionFree source
      rw [shape] at parts
      have total := result.advance_advancedBy_le outcome.advance
      rcases beginningCase parts.1 with nothing | ⟨begins, ends⟩
      · rcases followingCase (parts.2 outcome) with nothingMore | ⟨beginsThere, endsThere⟩
        · exact .inl (by omega)
        · refine .inr ⟨by omega, fun spanned => ?_⟩
          have bounded := endsThere spanned
          omega
      · refine .inr ⟨begins, fun spanned => ?_⟩
        have bounded := ends spanned
        rcases followingCase (parts.2 outcome) with nothingMore | ⟨_, endsThere⟩
        · omega
        · have boundedThere := endsThere spanned
          omega

/-- A match that consumes something starts inside the source. -/
theorem Yields.le_size {start width : Nat} {value : ν}
    (yields : grammar.Yields rules source start (.success width value))
    (functionFree : grammar.FunctionFree) (rulesFunctionFree : rules.FunctionFree)
    (consumes : 0 < width) : start ≤ source.size := by
  rcases yields.inside functionFree rulesFunctionFree with nothing | ⟨begins, _⟩
  · have equal : width = 0 := nothing
    omega
  · exact begins

/-- A match does not run past the end of the source. -/
theorem Yields.add_advance_le {start : Nat} {outcome : Outcome ν}
    (yields : grammar.Yields rules source start outcome) (functionFree : grammar.FunctionFree)
    (rulesFunctionFree : rules.FunctionFree) (spanned : source.size < lastPosition)
    (begins : start ≤ source.size) : start + outcome.advance ≤ source.size := by
  rcases yields.inside functionFree rulesFunctionFree with nothing | ⟨_, ends⟩
  · omega
  · exact ends spanned

/-- A match is the match of a text. -/
theorem Yields.exists_takes {start width : Nat} {value : ν}
    (yields : grammar.Yields rules source start (.success width value))
    (functionFree : grammar.FunctionFree) (rulesFunctionFree : rules.FunctionFree)
    (spanned : source.size < lastPosition) :
    ∃ text, text.length = width ∧ grammar.Takes rules source start text value := by
  have short : width ≤ (remaining source start).length := by
    rw [length_remaining]
    rcases yields.inside functionFree rulesFunctionFree with nothing | ⟨_, ends⟩
    · have empty : width = 0 := nothing
      omega
    · have bounded : start + width ≤ source.size := ends spanned
      omega
  have length : ((remaining source start).take width).length = width :=
    List.length_take_of_le short
  refine ⟨(remaining source start).take width, length, ?_⟩
  rw [← length] at yields
  exact takes_of_yields (List.take_append_drop width _).symm yields

end Grammar

end RecursiveDescent
