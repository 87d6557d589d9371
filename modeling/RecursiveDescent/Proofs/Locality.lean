import RecursiveDescent.Proofs.AppendOnly

/-!
# Locality

A grammar without functions on positions never looks behind the position from which it is matched.
Wherever the same elements remain, in whatever source and behind whatever beginning, it comes to
the same outcome, or does not come to an end at all.

The relation that carries the argument is `SameRemainder`.  It survives every advance inside the
source, and that a match does not advance beyond the source is shown in
`RecursiveDescent.Proofs.Consumption`.
-/

namespace RecursiveDescent

variable {ε ν : Type}

/-- Positions in two sources from which the same elements remain. -/
structure SameRemainder (source : Array ε) (start : Nat) (other : Array ε) (otherStart : Nat) :
    Prop where
  spanned : source.size < lastPosition
  otherSpanned : other.size < lastPosition
  begins : start ≤ source.size
  otherBegins : otherStart ≤ other.size
  remaining_eq : remaining source start = remaining other otherStart

namespace SameRemainder

variable {source other : Array ε} {start otherStart : Nat}

theorem symm (same : SameRemainder source start other otherStart) :
    SameRemainder other otherStart source start where
  spanned := same.otherSpanned
  otherSpanned := same.spanned
  begins := same.otherBegins
  otherBegins := same.begins
  remaining_eq := same.remaining_eq.symm

theorem room_eq (same : SameRemainder source start other otherStart) :
    source.size - start = other.size - otherStart := by
  have lengths := congrArg List.length same.remaining_eq
  rwa [length_remaining, length_remaining] at lengths

theorem advance (same : SameRemainder source start other otherStart) {width : Nat}
    (inside : start + width ≤ source.size) :
    SameRemainder source (start + width) other (otherStart + width) where
  spanned := same.spanned
  otherSpanned := same.otherSpanned
  begins := inside
  otherBegins := by
    have room := same.room_eq
    have begins := same.otherBegins
    omega
  remaining_eq := by
    rw [← drop_remaining, ← drop_remaining, same.remaining_eq]

/-- What remains somewhere is a source of its own. -/
theorem of_remaining (spanned : source.size < lastPosition) (begins : start ≤ source.size) :
    SameRemainder source start (remaining source start).toArray 0 where
  spanned := spanned
  otherSpanned := by
    have length : (remaining source start).toArray.size = source.size - start := by simp
    omega
  begins := begins
  otherBegins := Nat.zero_le _
  remaining_eq := by simp

/-! ### What is seen of a source -/

theorem getElem?_eq (same : SameRemainder source start other otherStart) :
    source[start]? = other[otherStart]? := by
  rw [getElem?_eq_head?_remaining, getElem?_eq_head?_remaining, same.remaining_eq]

theorem size_le_iff (same : SameRemainder source start other otherStart) :
    source.size ≤ start ↔ other.size ≤ otherStart := by
  rw [← remaining_eq_nil_iff, ← remaining_eq_nil_iff, same.remaining_eq]

theorem window_eq (same : SameRemainder source start other otherStart) (width : Nat) :
    window source start width = window other otherStart width := by
  have room := same.room_eq
  have begins := same.begins
  have otherBegins := same.otherBegins
  have fits : start + width ≤ source.size ↔ otherStart + width ≤ other.size := by omega
  rw [RecursiveDescent.window_eq source same.spanned,
    RecursiveDescent.window_eq other same.otherSpanned, same.remaining_eq]
  simp only [fits]

theorem ofElement_eq (same : SameRemainder source start other otherStart) (test : ε → Bool)
    (value : ε → ν) :
    Outcome.ofElement test value source start = Outcome.ofElement test value other otherStart := by
  unfold Outcome.ofElement
  rw [same.getElem?_eq]

theorem ofLiteral_eq [DecidableEq ε] (same : SameRemainder source start other otherStart)
    (expected : List ε) (value : ν) :
    Outcome.ofLiteral expected value source start =
      Outcome.ofLiteral expected value other otherStart := by
  unfold Outcome.ofLiteral
  rw [same.window_eq]

theorem ofFixedWidth_eq (same : SameRemainder source start other otherStart) (width : Nat)
    (read : List ε → Option ν) :
    Outcome.ofFixedWidth width read source start =
      Outcome.ofFixedWidth width read other otherStart := by
  unfold Outcome.ofFixedWidth
  rw [same.window_eq]

theorem ofEnd_eq (same : SameRemainder source start other otherStart) (value : ν) :
    Outcome.ofEnd value source start = Outcome.ofEnd value other otherStart := by
  unfold Outcome.ofEnd
  simp only [same.size_le_iff]

theorem reread_eq (same : SameRemainder source start other otherStart) (read : List ε → ν)
    (outcome : Outcome ν) :
    Outcome.reread read source start outcome = Outcome.reread read other otherStart outcome := by
  cases outcome with
  | failure => rfl
  | success width value =>
      simp only [Outcome.reread]
      rw [same.window_eq]

end SameRemainder

namespace Grammar

variable [DecidableEq ε] {rules : Rules ε ν} {source other : Array ε} {start otherStart : Nat}
  {grammar : Grammar ε ν}

/-! ### Forms on the other source -/

theorem settled_elsewhere (same : SameRemainder source start other otherStart)
    (functionFree : grammar.FunctionFree) {settled : Nat → Outcome ν}
    (shape : grammar.form rules source = .settled settled) :
    ∃ there, grammar.form rules other = .settled there ∧ there otherStart = settled start := by
  cases grammar with
  | element test value =>
      cases shape
      exact ⟨_, rfl, (same.ofElement_eq test value).symm⟩
  | literal expected value =>
      cases shape
      exact ⟨_, rfl, (same.ofLiteral_eq expected value).symm⟩
  | fixedWidth width read =>
      cases shape
      exact ⟨_, rfl, (same.ofFixedWidth_eq width read).symm⟩
  | endOfInput value =>
      cases shape
      exact ⟨_, rfl, (same.ofEnd_eq value).symm⟩
  | ofFunction function => exact functionFree.elim
  | succeed value =>
      cases shape
      exact ⟨_, rfl, rfl⟩
  | fail =>
      cases shape
      exact ⟨_, rfl, rfl⟩
  | repeated item collector bounds =>
      by_cases more : bounds.allowsMore 0
      · rw [form_repeated_of_more more] at shape
        cases shape
      · rw [form_repeated_of_exhausted more] at shape
        cases shape
        exact ⟨_, form_repeated_of_exhausted more, rfl⟩
  | rule index =>
      cases found : rules.body? index with
      | none =>
          rw [form_rule_of_undefined found] at shape
          cases shape
          exact ⟨_, form_rule_of_undefined found, rfl⟩
      | some body =>
          rw [form_rule_of_defined found] at shape
          cases shape
  | _ => cases shape

theorem adjusted_elsewhere (same : SameRemainder source start other otherStart)
    {part : Grammar ε ν} {adjust : Nat → Outcome ν → Outcome ν}
    (shape : grammar.form rules source = .adjusted part adjust) :
    ∃ adjustThere, grammar.form rules other = .adjusted part adjustThere ∧
      ∀ outcome, adjustThere otherStart outcome = adjust start outcome := by
  cases grammar with
  | recognize inner read =>
      cases shape
      exact ⟨_, rfl, fun outcome => (same.reread_eq read outcome).symm⟩
  | optional _ _ | ahead _ | notAhead _ _ | map _ _ | tryMap _ _ | filter _ _ | before _ _
  | onSuccess _ _ | onFailure _ _ | traced _ _ | memoized _ _ | rebuilt _ _ | deferred _ _ =>
      cases shape
      exact ⟨_, rfl, fun _ => rfl⟩
  | repeated item collector bounds =>
      by_cases more : bounds.allowsMore 0
      · rw [form_repeated_of_more more] at shape
        cases shape
      · rw [form_repeated_of_exhausted more] at shape
        cases shape
  | rule index =>
      cases found : rules.body? index with
      | none =>
          rw [form_rule_of_undefined found] at shape
          cases shape
      | some body =>
          rw [form_rule_of_defined found] at shape
          cases shape
          exact ⟨_, form_rule_of_defined found, fun _ => rfl⟩
  | _ => cases shape

/-- How a match goes on does not depend on the source. -/
theorem continued_elsewhere (other : Array ε) {first : Grammar ε ν}
    {next : Outcome ν → Grammar ε ν} (shape : grammar.form rules source = .continued first next) :
    grammar.form rules other = .continued first next := by
  cases grammar with
  | repeated item collector bounds => exact shape
  | rule index =>
      cases found : rules.body? index with
      | none =>
          rw [form_rule_of_undefined found] at shape
          cases shape
      | some body =>
          rw [form_rule_of_defined found] at shape
          cases shape
  | sequence _ _ _ | choice _ _ | delimited _ _ _ _ | separated _ _ _ | bind _ _ =>
      cases shape
      rfl
  | _ => cases shape

/-- What a grammar yields somewhere, it yields wherever the same elements remain. -/
theorem Yields.elsewhere {outcome : Outcome ν}
    (yields : grammar.Yields rules source start outcome) (functionFree : grammar.FunctionFree)
    (rulesFunctionFree : rules.FunctionFree)
    (same : SameRemainder source start other otherStart) :
    grammar.Yields rules other otherStart outcome := by
  induction yields generalizing otherStart with
  | @settled grammar settled start shape =>
      obtain ⟨there, shapeThere, equal⟩ := settled_elsewhere same functionFree shape
      rw [← equal]
      exact .settled shapeThere
  | @adjusted grammar part adjust start outcome shape _ insideCase =>
      have part := functionFree.form hereditary_noFunction rulesFunctionFree source
      rw [shape] at part
      obtain ⟨adjustThere, shapeThere, equal⟩ := adjusted_elsewhere same shape
      rw [← equal]
      exact .adjusted shapeThere (insideCase part same)
  | @continued grammar first next start outcome result shape beginning _ beginningCase
      followingCase =>
      have parts := functionFree.form hereditary_noFunction rulesFunctionFree source
      rw [shape] at parts
      -- The rest starts at another position, and the remainders agree there as well because the
      -- beginning has stayed inside the source.
      have inside : start + outcome.advance ≤ source.size :=
        beginning.add_advance_le parts.1 rulesFunctionFree same.spanned same.begins
      exact .continued (continued_elsewhere other shape) (beginningCase parts.1 same)
        (followingCase (parts.2 outcome) (same.advance inside))

theorem yields_elsewhere_iff (functionFree : grammar.FunctionFree)
    (rulesFunctionFree : rules.FunctionFree)
    (same : SameRemainder source start other otherStart) (outcome : Outcome ν) :
    grammar.Yields rules source start outcome ↔
      grammar.Yields rules other otherStart outcome :=
  ⟨fun yields => yields.elsewhere functionFree rulesFunctionFree same,
    fun yields => yields.elsewhere functionFree rulesFunctionFree same.symm⟩

/-! ### Runs on the other source -/

/-- Two runs from empty memo tables, at positions from which the same elements remain, finish with
the same outcome or do not finish, and so does the run on the remaining elements alone. -/
theorem finishes_iff_of_same_remainder {owner : Nat → Grammar ε ν}
    (rulesTabulated : rules.Tabulate owner) (tabulated : grammar.Tabulates owner)
    (rulesFunctionFree : rules.FunctionFree) (functionFree : grammar.FunctionFree)
    (spanned : source.size < lastPosition) (otherSpanned : other.size < lastPosition)
    (begins : start ≤ source.size) (otherBegins : otherStart ≤ other.size)
    (same : remaining source start = remaining other otherStart) {state otherState : ParserState ν}
    (forgotten : ∀ cell position, (state.table cell).lookup? position = none)
    (otherForgotten : ∀ cell position, (otherState.table cell).lookup? position = none)
    (outcome : Outcome ν) :
    ((∃ final, grammar.Finishes rules source start state (outcome, final)) ↔
      ∃ final, grammar.Finishes rules other otherStart otherState (outcome, final)) ∧
    ((∃ final, grammar.Finishes rules source start state (outcome, final)) ↔
      ∃ final, grammar.Finishes rules (remaining source start).toArray 0 otherState
        (outcome, final)) := by
  have runs (source : Array ε) (start : Nat) {state : ParserState ν}
      (forgotten : ∀ cell position, (state.table cell).lookup? position = none) :
      (∃ final, grammar.Finishes rules source start state (outcome, final)) ↔
        grammar.Yields rules source start outcome :=
    exists_finishes_iff_yields rulesTabulated tabulated (ParserState.sound_of_forgotten forgotten)
  rw [runs source start forgotten, runs other otherStart otherForgotten, runs _ 0 otherForgotten]
  constructor
  · exact yields_elsewhere_iff functionFree rulesFunctionFree
      ⟨spanned, otherSpanned, begins, otherBegins, same⟩ outcome
  · exact yields_elsewhere_iff functionFree rulesFunctionFree (.of_remaining spanned begins) outcome

theorem finishes_iff_of_same_remainder_positives :
    remaining #[0, 7, 3, 5, 0] 2 = remaining #[3, 5, 0] 0 ∧
      ∃ final, (memoized 1 (.rule 0)).Finishes #[.forward (some positives)] #[0, 7, 3, 5, 0] 2
        .initial (.success 2 2, final) := by
  have forgotten (cell position : Nat) :
      ((ParserState.initial : ParserState Nat).table cell).lookup? position = none := by
    simp
  have same : remaining #[0, 7, 3, 5, 0] 2 = remaining #[3, 5, 0] 0 := by decide
  refine ⟨same, (finishes_iff_of_same_remainder tabulate_positives tabulates_positives
    functionFree_positives ⟨trivial, trivial⟩ (by decide) (by decide) (by decide) (by decide) same
    forgotten forgotten _).1.mpr ?_⟩
  exact yields_positives.completes tabulate_positives tabulates_positives .initial
    (ParserState.sound_of_forgotten forgotten)

end Grammar

end RecursiveDescent
