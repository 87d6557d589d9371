import RecursiveDescent.Proofs.Consumption
import RecursiveDescent.Proofs.ParsingExpression
import RecursiveDescent.Proofs.Transparency

/-!
# Grammars as parsing expression grammars

A grammar whose matches do not depend on values is a parsing expression.  Bounded repetitions
become sequences and nested options, lists a head and a star of pairs, lookaheads one or two
negations, rules nonterminals; what only concerns values, events or memo tables disappears.

Inside the source, such a grammar consumes exactly what its expression derives on the remaining
elements, fails exactly where the expression derives failure, and otherwise does neither.
-/

namespace RecursiveDescent

variable {ε ν : Type} [DecidableEq ε]

namespace Grammar

open ParsingExpression

def repetitionExpression (item : ParsingExpression ε) (bounds : RepeatBounds) :
    ParsingExpression ε :=
  times item
    (match bounds.maximum with
      | some limit => options item (limit - bounds.minimum)
      | none => .star item)
    bounds.minimum

/-- The expression of a list: a head and pairs of a delimiter and an item. -/
def listExpression (item delimiter : ParsingExpression ε) : ParsingExpression ε :=
  .sequence item (.star (.sequence delimiter item))

/-- The parsing expression of a grammar.  Constructs that have none are read as failure. -/
def expression : Grammar ε ν → ParsingExpression ε
  | .element accepts _ => .test accepts
  | .literal expected _ => tests (expected.map fun element found => decide (found = element))
  | .fixedWidth width _ => tests (List.replicate width fun _ => true)
  | .succeed _ => .empty
  | .fail => never
  | .endOfInput _ => .not any
  | .sequence first second _ => .sequence first.expression second.expression
  | .choice first second => .choice first.expression second.expression
  | .optional inner _ => .choice inner.expression .empty
  | .repeated item _ bounds => repetitionExpression item.expression bounds
  | .ahead inner => .not (.not inner.expression)
  | .notAhead inner _ => .not inner.expression
  | .delimited item delimiter _ _ | .separated item delimiter _ =>
      listExpression item.expression delimiter.expression
  | .map inner _ | .recognize inner _ | .before _ inner | .onSuccess _ inner
  | .onFailure _ inner | .traced _ inner | .memoized _ inner | .rebuilt _ inner
  | .deferred _ inner => inner.expression
  | .rule index => .nonterminal index
  | .ofFunction _ | .bind _ _ | .tryMap _ _ | .filter _ _ => never

/-- The construct matches regardless of values. -/
def ValueFree : Grammar ε ν → Prop
  | .ofFunction _ | .bind _ _ | .tryMap _ _ | .filter _ _ => False
  | .fixedWidth width read => ∀ elements, elements.length = width → (read elements).isSome
  | _ => True

omit [DecidableEq ε] in
theorem hereditary_valueFree : Hereditary (ValueFree : Grammar ε ν → Prop) where
  fail := trivial
  succeed _ := trivial
  map _ _ := trivial
  sequence _ _ _ := trivial
  left _ _ _ _ _ := trivial
  pairs _ _ _ _ _ _ := trivial
  separatedPairs _ _ _ _ _ := trivial

end Grammar

/-- The expressions of the rules.  An undefined rule fails. -/
def Rules.productions (rules : Rules ε ν) (index : Nat) : ParsingExpression ε :=
  match rules.body? index with
  | some body => body.expression
  | none => .never

/-- The number of elements that an outcome consumed, unless it is a failure. -/
def Outcome.width? : Outcome ν → Option Nat
  | .success width _ => some width
  | .failure => none

omit [DecidableEq ε] in
theorem Outcome.width?_advancedBy (outcome : Outcome ν) (offset : Nat) :
    (outcome.advancedBy offset).width? = outcome.width?.map fun width => offset + width := by
  cases outcome with
  | success width value => simp [advancedBy, width?, Nat.add_comm]
  | failure => rfl

/-! ### Repetitions -/

namespace Grammar

open ParsingExpression

variable {productions : Nat → ParsingExpression ε} {item : ParsingExpression ε} {text : List ε}

omit [DecidableEq ε] in
theorem repetitionExpression_succ (item : ParsingExpression ε) {minimum : Nat}
    {maximum : Option Nat} (order : ∀ limit, maximum = some limit → minimum + 1 ≤ limit) :
    repetitionExpression item ⟨minimum + 1, maximum, order⟩ =
      .sequence item (repetitionExpression item
        (RepeatBounds.drop ⟨minimum + 1, maximum, order⟩ 1)) := by
  cases maximum with
  | none => rfl
  | some limit =>
      have least := order limit rfl
      have left : limit - 1 - minimum = limit - (minimum + 1) := by omega
      simp [repetitionExpression, times, left]

omit [DecidableEq ε] in
theorem derives_repetition_success {bounds : RepeatBounds} {width : Nat} {result : Option Nat}
    (more : bounds.allowsMore 0) (begins : Derives productions item text (some width))
    (follows : Derives productions (repetitionExpression item (bounds.drop 1))
      (text.drop width) result) :
    Derives productions (repetitionExpression item bounds) text
      (result.map fun rest => width + rest) := by
  obtain ⟨minimum, maximum, order⟩ := bounds
  cases minimum with
  | succ minimum =>
      rw [repetitionExpression_succ]
      exact begins.sequence follows
  | zero =>
      cases maximum with
      | none =>
          cases result with
          | none => exact absurd follows Derives.star_ne_none
          | some rest => exact .star_step begins follows
      | some limit =>
          cases limit with
          | zero => simp [RepeatBounds.allowsMore] at more
          | succ limit =>
              cases result with
              | none => exact absurd follows options_ne_none
              | some rest => exact .choice_first (.sequence_success begins follows)

omit [DecidableEq ε] in
theorem derives_repetition_failure (bounds : RepeatBounds)
    (fails : Derives productions item text none) :
    Derives productions (repetitionExpression item bounds) text
      (if 0 < bounds.minimum then none else some 0) := by
  obtain ⟨minimum, maximum, order⟩ := bounds
  cases minimum with
  | succ minimum => exact .sequence_first fails
  | zero =>
      cases maximum with
      | none => exact .star_end fails
      | some limit =>
          cases limit with
          | zero => exact .empty
          | succ limit => exact .choice_second (.sequence_first fails) .empty

omit [DecidableEq ε] in
theorem derives_repetition_exhausted (productions : Nat → ParsingExpression ε)
    (item : ParsingExpression ε) (text : List ε) {bounds : RepeatBounds}
    (exhausted : ¬ bounds.allowsMore 0) :
    bounds.minimum = 0 ∧
      Derives productions (repetitionExpression item bounds) text (some 0) := by
  obtain ⟨minimum, maximum, order⟩ := bounds
  cases maximum with
  | none => simp [RepeatBounds.allowsMore] at exhausted
  | some limit =>
      have least := order limit rfl
      have nothing : limit = 0 := by
        simp only [RepeatBounds.allowsMore, decide_eq_true_eq] at exhausted
        omega
      subst nothing
      obtain rfl : minimum = 0 := by omega
      exact ⟨rfl, .empty⟩

/-! ### What is yielded is derived -/

variable {rules : Rules ε ν} {source : Array ε} {grammar : Grammar ε ν} {start : Nat}

omit [DecidableEq ε] in
theorem derives_ofElement (accepts : ε → Bool) (value : ε → ν) (source : Array ε)
    (start : Nat) :
    Derives productions (.test accepts) (remaining source start)
      (Outcome.ofElement accepts value source start).width? := by
  unfold Outcome.ofElement
  rw [getElem?_eq_head?_remaining]
  cases remaining source start with
  | nil => exact .test_end
  | cons head tail =>
      cases fits : accepts head with
      | true =>
          simp only [List.head?_cons, fits, if_true]
          exact .test_success fits
      | false =>
          simp only [List.head?_cons, fits, Bool.false_eq_true, if_false]
          exact .test_failure fits

theorem derives_ofLiteral (spanned : source.size < lastPosition) (begins : start ≤ source.size)
    (expected : List ε) (value : ν) :
    Derives productions (tests (expected.map fun element found => decide (found = element)))
      (remaining source start) (Outcome.ofLiteral expected value source start).width? := by
  have derived := derives_tests productions
    (expected.map fun element found => decide (found = element)) (remaining source start)
  rw [List.length_map] at derived
  unfold Outcome.ofLiteral
  by_cases beginning : expected <+: remaining source start
  · have found := (window_eq_some_iff source spanned start expected.length expected).mpr
      ⟨begins, rfl, beginning⟩
    rw [if_pos ((passes_equals_iff expected _).mpr beginning)] at derived
    rw [if_pos found]
    exact derived
  · have missing : window source start expected.length ≠ some expected := fun found =>
      beginning ((window_eq_some_iff source spanned start expected.length expected).mp found).2.2
    rw [if_neg fun passing => beginning ((passes_equals_iff expected _).mp passing)] at derived
    rw [if_neg missing]
    exact derived

omit [DecidableEq ε] in
theorem derives_ofFixedWidth (spanned : source.size < lastPosition)
    (begins : start ≤ source.size) {width : Nat} {read : List ε → Option ν}
    (total : ∀ elements, elements.length = width → (read elements).isSome) :
    Derives productions (tests (List.replicate width fun _ => true)) (remaining source start)
      (Outcome.ofFixedWidth width read source start).width? := by
  have derived := derives_tests productions
    (List.replicate width fun _ : ε => true) (remaining source start)
  rw [List.length_replicate] at derived
  unfold Outcome.ofFixedWidth
  rw [window_eq source spanned]
  by_cases enough : width ≤ (remaining source start).length
  · rw [if_pos ((passes_replicate_iff width _).mpr enough)] at derived
    rw [length_remaining] at enough
    have length : ((remaining source start).take width).length = width := by
      simp
      omega
    obtain ⟨value, readable⟩ := Option.isSome_iff_exists.mp (total _ length)
    rw [if_pos (by omega), Option.bind_some, readable]
    exact derived
  · rw [if_neg fun passing => enough ((passes_replicate_iff width _).mp passing)] at derived
    rw [length_remaining] at enough
    rw [if_neg (by omega)]
    exact derived

omit [DecidableEq ε] in
theorem derives_ofEnd (value : ν) (source : Array ε) (start : Nat) :
    Derives productions (.not any) (remaining source start)
      (Outcome.ofEnd value source start).width? := by
  unfold Outcome.ofEnd
  by_cases ended : source.size ≤ start
  · rw [if_pos ended, (remaining_eq_nil_iff source start).mpr ended]
    exact .not_success derives_any_nil
  · rw [if_neg ended]
    cases rest : remaining source start with
    | nil => exact absurd ((remaining_eq_nil_iff source start).mp rest) ended
    | cons head tail => exact .not_failure (derives_any_cons head tail)

theorem derives_of_settled (spanned : source.size < lastPosition)
    (valueFree : grammar.Throughout ValueFree) {settled : Nat → Outcome ν}
    (shape : grammar.form rules source = .settled settled) (begins : start ≤ source.size) :
    Derives rules.productions grammar.expression (remaining source start)
      (settled start).width? := by
  cases grammar with
  | element accepts value =>
      cases shape
      exact derives_ofElement accepts value source start
  | literal expected value =>
      cases shape
      exact derives_ofLiteral spanned begins expected value
  | fixedWidth width read =>
      cases shape
      exact derives_ofFixedWidth spanned begins valueFree
  | succeed value =>
      cases shape
      exact .empty
  | fail =>
      cases shape
      exact derives_never
  | endOfInput value =>
      cases shape
      exact derives_ofEnd value source start
  | ofFunction function => exact valueFree.elim
  | repeated item collector bounds =>
      by_cases more : bounds.allowsMore 0
      · simp [form, more] at shape
      · simp only [form, more, if_false, Bool.false_eq_true] at shape
        cases shape
        obtain ⟨least, derived⟩ := derives_repetition_exhausted rules.productions
          item.expression (remaining source start) more
        simp only [closing, least]
        exact derived
  | rule index =>
      cases found : rules.body? index with
      | some body => simp [form, found] at shape
      | none =>
          simp only [form, found] at shape
          cases shape
          refine .nonterminal ?_
          simp only [Rules.productions, found]
          exact derives_never
  | _ => cases shape

theorem derives_of_adjusted (spanned : source.size < lastPosition)
    (valueFree : grammar.Throughout ValueFree) {part : Grammar ε ν}
    {adjust : Nat → Outcome ν → Outcome ν} {outcome : Outcome ν}
    (shape : grammar.form rules source = .adjusted part adjust)
    (ends : start + outcome.advance ≤ source.size)
    (inside : Derives rules.productions part.expression (remaining source start)
      outcome.width?) :
    Derives rules.productions grammar.expression (remaining source start)
      (adjust start outcome).width? := by
  cases grammar with
  | optional inner fallback =>
      cases shape
      cases outcome with
      | success width value => exact .choice_first inside
      | failure => exact .choice_second inside .empty
  | ahead inner =>
      cases shape
      cases outcome with
      | success width value => exact .not_success (.not_failure inside)
      | failure => exact .not_failure (.not_success inside)
  | notAhead inner value =>
      cases shape
      cases outcome with
      | success width value => exact .not_failure inside
      | failure => exact .not_success inside
  | map inner function =>
      cases shape
      cases outcome <;> exact inside
  | recognize inner read =>
      cases shape
      cases outcome with
      | failure => exact inside
      | success width value =>
          have ends : start + width ≤ source.size := ends
          simp only [Outcome.reread, window_eq source spanned, if_pos ends]
          exact inside
  | before _ inner | onSuccess _ inner | onFailure _ inner | traced _ inner | memoized _ inner
  | rebuilt _ inner | deferred _ inner =>
      cases shape
      exact inside
  | tryMap inner function => exact valueFree.1.elim
  | filter inner accepts => exact valueFree.1.elim
  | repeated item collector bounds =>
      simp only [form] at shape
      split at shape <;> cases shape
  | rule index =>
      cases found : rules.body? index with
      | none => simp [form, found] at shape
      | some body =>
          simp only [form, found] at shape
          cases shape
          refine .nonterminal ?_
          simp only [Rules.productions, found]
          exact inside
  | _ => cases shape

/-- A list derives its head and then what its pairs derive. -/
theorem derives_list {productions : Nat → ParsingExpression ε}
    {item delimiter : Grammar ε ν} {combine : ν → ν → ν} {headCollector : ν → ValueCollector ν}
    {outcome result : Outcome ν}
    (begins : Derives productions item.expression (remaining source start) outcome.width?)
    (follows : Derives productions
      (pairs item delimiter combine headCollector outcome).expression
      (remaining source (start + outcome.advance)) result.width?) :
    Derives productions (listExpression item.expression delimiter.expression)
      (remaining source start) (result.advancedBy outcome.advance).width? := by
  rw [Outcome.width?_advancedBy]
  cases outcome with
  | failure =>
      rw [← derives_never.unique follows]
      exact .sequence_first begins
  | success width head =>
      rw [Outcome.advance, ← drop_remaining] at follows
      exact begins.sequence follows

theorem derives_of_continued (valueFree : grammar.Throughout ValueFree) {first : Grammar ε ν}
    {next : Outcome ν → Grammar ε ν} {outcome result : Outcome ν}
    (shape : grammar.form rules source = .continued first next)
    (begins : Derives rules.productions first.expression (remaining source start) outcome.width?)
    (follows : Derives rules.productions (next outcome).expression
      (remaining source (start + outcome.advance)) result.width?) :
    Derives rules.productions grammar.expression (remaining source start)
      (result.advancedBy outcome.advance).width? := by
  cases grammar with
  | sequence left right combine =>
      cases shape
      rw [Outcome.width?_advancedBy]
      cases outcome with
      | failure =>
          rw [← derives_never.unique follows]
          exact .sequence_first begins
      | success width value =>
          rw [Outcome.advance, ← drop_remaining] at follows
          exact begins.sequence follows
  | choice left right =>
      cases shape
      rw [Outcome.width?_advancedBy]
      cases outcome with
      | failure =>
          simp only [Outcome.advance, Nat.zero_add, Option.map_id']
          exact .choice_second begins follows
      | success width value =>
          rw [← Derives.empty.unique follows]
          exact .choice_first begins
  | delimited item delimiter combine headCollector =>
      cases shape
      exact derives_list begins follows
  | separated item delimiter collector =>
      cases shape
      exact derives_list begins follows
  | repeated item collector bounds =>
      by_cases more : bounds.allowsMore 0
      · simp only [form, more, if_true] at shape
        cases shape
        rw [Outcome.width?_advancedBy]
        cases outcome with
        | failure =>
            have closed := derives_repetition_failure bounds begins
            simp only [repetition] at follows
            by_cases few : 0 < bounds.minimum
            · rw [if_pos few] at follows closed
              rw [← derives_never.unique follows]
              exact closed
            · rw [if_neg few] at follows closed
              rw [← Derives.empty.unique follows]
              exact closed
        | success width value =>
            rw [Outcome.advance, ← drop_remaining] at follows
            exact derives_repetition_success more begins follows
      · simp [form, more] at shape
  | bind first binder => exact valueFree.1.elim
  | rule index =>
      simp only [form] at shape
      split at shape <;> cases shape
  | _ => cases shape

omit [DecidableEq ε] in
/-- A grammar that is free of values has no functions on positions. -/
theorem Throughout.functionFree (valueFree : grammar.Throughout ValueFree) :
    grammar.FunctionFree :=
  valueFree.mono fun grammar holds => by cases grammar <;> trivial

omit [DecidableEq ε] in
theorem functionFree_of_valueFree (rulesValueFree : rules.Throughout ValueFree) :
    rules.FunctionFree :=
  fun index body found => (rulesValueFree index body found).functionFree

/-- Inside the source, the expression of a grammar derives what the grammar yields. -/
theorem Yields.derives {outcome : Outcome ν}
    (yields : grammar.Yields rules source start outcome)
    (valueFree : grammar.Throughout ValueFree) (rulesValueFree : rules.Throughout ValueFree)
    (spanned : source.size < lastPosition) (begins : start ≤ source.size) :
    Derives rules.productions grammar.expression (remaining source start) outcome.width? := by
  have rulesFunctionFree := functionFree_of_valueFree rulesValueFree
  induction yields with
  | settled shape => exact derives_of_settled spanned valueFree shape begins
  | @adjusted grammar part adjust start outcome shape inside insideCase =>
      have parts := valueFree.form hereditary_valueFree rulesValueFree source
      rw [shape] at parts
      have ends := inside.add_advance_le parts.functionFree rulesFunctionFree spanned begins
      exact derives_of_adjusted spanned valueFree shape ends (insideCase parts begins)
  | @continued grammar first next start outcome result shape beginning _ beginningCase
      followingCase =>
      have parts := valueFree.form hereditary_valueFree rulesValueFree source
      rw [shape] at parts
      have ends := beginning.add_advance_le parts.1.functionFree rulesFunctionFree spanned begins
      exact derives_of_continued valueFree shape (beginningCase parts.1 begins)
        (followingCase (parts.2 outcome) ends)

/-! ### What is derived is yielded -/

omit [DecidableEq ε] in
theorem calls_repetition_item {bounds : RepeatBounds} (more : bounds.allowsMore 0) :
    Relation.TransGen (Calls productions) (item, text)
      (repetitionExpression item bounds, text) := by
  obtain ⟨minimum, maximum, order⟩ := bounds
  cases minimum with
  | succ minimum => exact .single .sequence_first
  | zero =>
      cases maximum with
      | none => exact .single .star_first
      | some limit =>
          cases limit with
          | zero => simp [RepeatBounds.allowsMore] at more
          | succ limit => exact .tail (.single .sequence_first) .choice_first

omit [DecidableEq ε] in
theorem calls_repetition_rest {bounds : RepeatBounds} {width : Nat} (more : bounds.allowsMore 0)
    (begins : Derives productions item text (some width)) :
    Relation.TransGen (Calls productions)
      (repetitionExpression item (bounds.drop 1), text.drop width)
      (repetitionExpression item bounds, text) := by
  obtain ⟨minimum, maximum, order⟩ := bounds
  cases minimum with
  | succ minimum =>
      rw [repetitionExpression_succ]
      exact .single (.sequence_second begins)
  | zero =>
      cases maximum with
      | none => exact .single (.star_next begins)
      | some limit =>
          cases limit with
          | zero => simp [RepeatBounds.allowsMore] at more
          | succ limit => exact .tail (.single (.sequence_second begins)) .choice_first

/-- Whatever the expression of a grammar at a position calls for, if it is the expression of a
grammar at a position, is yielded. -/
def CalledYield (rules : Rules ε ν) (source : Array ε) (grammar : Grammar ε ν) (start : Nat) :
    Prop :=
  ∀ inner : Grammar ε ν, inner.Throughout ValueFree → ∀ position ≤ source.size,
    Relation.TransGen (Calls rules.productions)
      (inner.expression, remaining source position)
      (grammar.expression, remaining source start) →
    ∃ outcome, inner.Yields rules source position outcome

theorem exists_yields_of_list {item delimiter : Grammar ε ν} {combine : ν → ν → ν}
    {headCollector : ν → ValueCollector ν}
    (shape : grammar.form rules source =
      .continued item (pairs item delimiter combine headCollector))
    (same : grammar.expression = listExpression item.expression delimiter.expression)
    (itemFree : item.Throughout ValueFree) (delimiterFree : delimiter.Throughout ValueFree)
    (rulesValueFree : rules.Throughout ValueFree) (spanned : source.size < lastPosition)
    (begins : start ≤ source.size) (called : CalledYield rules source grammar start) :
    ∃ outcome, grammar.Yields rules source start outcome := by
  have rulesFunctionFree := functionFree_of_valueFree rulesValueFree
  unfold CalledYield at called
  rw [same] at called
  obtain ⟨outcome, beginning⟩ := called item itemFree start begins (.single .sequence_first)
  cases outcome with
  | failure => exact ⟨_, .continued shape beginning (.settled rfl)⟩
  | success width head =>
      have ends := beginning.add_advance_le itemFree.functionFree rulesFunctionFree spanned begins
      have derived := beginning.derives itemFree rulesValueFree spanned begins
      have call : Calls rules.productions
          (.star (.sequence delimiter.expression item.expression),
            (remaining source start).drop width)
          (listExpression item.expression delimiter.expression, remaining source start) :=
        .sequence_second derived
      rw [drop_remaining] at call
      have pairsFree : (repeated (sequence delimiter item combine) (headCollector head)
          .zeroOrMore).Throughout ValueFree :=
        ⟨trivial, trivial, delimiterFree, itemFree⟩
      obtain ⟨result, following⟩ := called _ pairsFree (start + width) ends (.single call)
      exact ⟨_, .continued shape beginning following⟩

/-- A grammar yields an outcome when all grammars do whose expressions its expression calls for. -/
theorem exists_yields_of_called (valueFree : grammar.Throughout ValueFree)
    (rulesValueFree : rules.Throughout ValueFree) (spanned : source.size < lastPosition)
    (begins : start ≤ source.size) (called : CalledYield rules source grammar start) :
    ∃ outcome, grammar.Yields rules source start outcome := by
  have rulesFunctionFree := functionFree_of_valueFree rulesValueFree
  induction grammar with
  | element accepts value => exact ⟨_, .settled rfl⟩
  | literal expected value => exact ⟨_, .settled rfl⟩
  | fixedWidth width read => exact ⟨_, .settled rfl⟩
  | succeed value => exact ⟨_, .settled rfl⟩
  | fail => exact ⟨_, .settled rfl⟩
  | endOfInput value => exact ⟨_, .settled rfl⟩
  | ofFunction function => exact valueFree.elim
  | sequence first second combine =>
      obtain ⟨outcome, beginning⟩ := called first valueFree.2.1 start begins
        (.single .sequence_first)
      have ends := beginning.add_advance_le valueFree.2.1.functionFree rulesFunctionFree spanned
        begins
      have derived := beginning.derives valueFree.2.1 rulesValueFree spanned begins
      cases outcome with
      | failure => exact ⟨_, .continued rfl beginning (.settled rfl)⟩
      | success width value =>
          have call : Calls rules.productions
              (second.expression, (remaining source start).drop width)
              (.sequence first.expression second.expression, remaining source start) :=
            .sequence_second derived
          rw [drop_remaining] at call
          obtain ⟨result, following⟩ := called second valueFree.2.2 (start + width) ends
            (.single call)
          exact ⟨_, .continued rfl beginning (.adjusted rfl following)⟩
  | choice first second =>
      obtain ⟨outcome, beginning⟩ := called first valueFree.2.1 start begins
        (.single .choice_first)
      have derived := beginning.derives valueFree.2.1 rulesValueFree spanned begins
      cases outcome with
      | failure =>
          obtain ⟨result, following⟩ := called second valueFree.2.2 start begins
            (.single (.choice_second derived))
          exact ⟨_, .continued rfl beginning following⟩
      | success width value => exact ⟨_, .continued rfl beginning (.settled rfl)⟩
  | optional inner fallback =>
      obtain ⟨outcome, inside⟩ := called inner valueFree.2 start begins (.single .choice_first)
      exact ⟨_, .adjusted rfl inside⟩
  | repeated item collector bounds =>
      by_cases more : bounds.allowsMore 0
      · have shape : (repeated item collector bounds).form rules source =
            .continued item (repetition item collector bounds) := form_repeated_of_more more
        obtain ⟨outcome, beginning⟩ := called item valueFree.2 start begins
          (calls_repetition_item more)
        cases outcome with
        | failure =>
            exact ⟨_, .continued shape beginning
              (.settled (form_repetition_failure rules source item collector bounds))⟩
        | success width value =>
            have ends := beginning.add_advance_le valueFree.2.functionFree rulesFunctionFree
              spanned begins
            have derived := beginning.derives valueFree.2 rulesValueFree spanned begins
            have call := calls_repetition_rest more derived
            rw [drop_remaining] at call
            have restFree : (repeated item (collector.taking value)
                (bounds.drop 1)).Throughout ValueFree :=
              ⟨trivial, valueFree.2⟩
            obtain ⟨result, following⟩ := called _ restFree (start + width) ends call
            exact ⟨_, .continued shape beginning following⟩
      · exact ⟨_, .settled (form_repeated_of_exhausted more)⟩
  | ahead inner =>
      obtain ⟨outcome, inside⟩ := called inner valueFree.2 start begins
        (.tail (.single .not) .not)
      exact ⟨_, .adjusted rfl inside⟩
  | notAhead inner value =>
      obtain ⟨outcome, inside⟩ := called inner valueFree.2 start begins (.single .not)
      exact ⟨_, .adjusted rfl inside⟩
  | delimited item delimiter combine headCollector =>
      exact exists_yields_of_list rfl rfl valueFree.2.1 valueFree.2.2 rulesValueFree spanned begins
        called
  | separated item delimiter collector =>
      exact exists_yields_of_list rfl rfl valueFree.2.1 valueFree.2.2 rulesValueFree spanned begins
        called
  | bind first binder => exact valueFree.1.elim
  | tryMap inner function => exact valueFree.1.elim
  | filter inner accepts => exact valueFree.1.elim
  | rule index =>
      cases found : rules.body? index with
      | none => exact ⟨_, .settled (form_rule_of_undefined found)⟩
      | some body =>
          have call : Calls rules.productions (body.expression, remaining source start)
              (.nonterminal index, remaining source start) := by
            have production : rules.productions index = body.expression := by
              simp [Rules.productions, found]
            rw [← production]
            exact .nonterminal
          obtain ⟨outcome, inside⟩ := called body (rulesValueFree index body found) start begins
            (.single call)
          exact ⟨_, .adjusted (form_rule_of_defined found) inside⟩
  | map inner _ innerCase | recognize inner _ innerCase | before _ inner innerCase
  | onSuccess _ inner innerCase | onFailure _ inner innerCase | traced _ inner innerCase
  | memoized _ inner innerCase | rebuilt _ inner innerCase | deferred _ inner innerCase =>
      obtain ⟨outcome, inside⟩ := innerCase valueFree.2 called
      exact ⟨_, .adjusted rfl inside⟩

/-- Inside the source, a grammar yields an outcome when its expression derives a result. -/
theorem exists_yields_of_derives {result : Option Nat} (valueFree : grammar.Throughout ValueFree)
    (rulesValueFree : rules.Throughout ValueFree) (spanned : source.size < lastPosition)
    (begins : start ≤ source.size)
    (derived : Derives rules.productions grammar.expression (remaining source start) result) :
    ∃ outcome, grammar.Yields rules source start outcome := by
  -- From the expression of a grammar to that of a part it is often more than one step, so the
  -- induction is on all judgements that the derivation rests on.
  have descent := derived.acc.transGen
  clear derived
  generalize judgement : (grammar.expression, remaining source start) = origin at descent
  induction descent generalizing grammar start with
  | intro origin _ calledCase =>
      subst judgement
      refine exists_yields_of_called valueFree rulesValueFree spanned begins ?_
      intro inner innerFree position inside calls
      exact calledCase _ calls innerFree inside rfl

/-- Inside the source, a grammar yields an outcome of a width, or failure, exactly when its
expression derives it. -/
theorem exists_yields_iff_derives (valueFree : grammar.Throughout ValueFree)
    (rulesValueFree : rules.Throughout ValueFree) (spanned : source.size < lastPosition)
    (begins : start ≤ source.size) (result : Option Nat) :
    (∃ outcome, grammar.Yields rules source start outcome ∧ outcome.width? = result) ↔
      Derives rules.productions grammar.expression (remaining source start) result := by
  constructor
  · rintro ⟨outcome, yields, rfl⟩
    exact yields.derives valueFree rulesValueFree spanned begins
  · intro derived
    obtain ⟨outcome, yields⟩ := exists_yields_of_derives valueFree rulesValueFree spanned begins
      derived
    have derivedToo := yields.derives valueFree rulesValueFree spanned begins
    exact ⟨outcome, yields, derivedToo.unique derived⟩

/-- A grammar that is free of values, on memo tables that remember nothing yet, matches with
exactly the widths that its parsing expression derives on the remaining elements, and fails
exactly where the expression derives failure.  Positions are words, so the source has to end before
the last of them. -/
theorem finishes_iff_derives {owner : Nat → Grammar ε ν} (rulesTabulated : rules.Tabulate owner)
    (tabulated : grammar.Tabulates owner) (rulesValueFree : rules.Throughout ValueFree)
    (valueFree : grammar.Throughout ValueFree) (source : Array ε)
    (spanned : source.size < lastPosition) (start : Nat) (begins : start ≤ source.size)
    (state : ParserState ν)
    (forgotten : ∀ cell position, (state.table cell).lookup? position = none) :
    (∀ width,
      (∃ value final,
        grammar.Finishes rules source start state (.success width value, final)) ↔
      Derives rules.productions grammar.expression (remaining source start) (some width)) ∧
    ((∃ final, grammar.Finishes rules source start state (.failure, final)) ↔
      Derives rules.productions grammar.expression (remaining source start) none) := by
  have sound : state.Sound rules source owner := ParserState.sound_of_forgotten forgotten
  have agree (outcome : Outcome ν) :
      (∃ last, grammar.Finishes rules source start state (outcome, last)) ↔
        grammar.Yields rules source start outcome :=
    exists_finishes_iff_yields rulesTabulated tabulated sound
  constructor
  · intro width
    rw [← exists_yields_iff_derives valueFree rulesValueFree spanned begins]
    constructor
    · rintro ⟨value, finishes⟩
      exact ⟨.success width value, (agree _).mp finishes, rfl⟩
    · rintro ⟨outcome, yields, same⟩
      cases outcome with
      | failure => cases same
      | success consumed value =>
          cases same
          exact ⟨value, (agree _).mpr yields⟩
  · rw [← exists_yields_iff_derives valueFree rulesValueFree spanned begins]
    constructor
    · intro finishes
      exact ⟨.failure, (agree _).mp finishes, rfl⟩
    · rintro ⟨outcome, yields, same⟩
      cases outcome with
      | success width value => cases same
      | failure => exact (agree _).mpr yields

theorem valueFree_positives : Rules.Throughout #[.forward (some positives)] ValueFree :=
  Rules.throughout_single
    ⟨trivial, ⟨trivial, ⟨trivial, trivial⟩, trivial, trivial⟩, trivial, trivial⟩

theorem finishes_iff_derives_positives :
    Derives (Rules.productions #[.forward (some positives)]) (.nonterminal 0) [3, 5, 0]
      (some 2) := by
  have agree := finishes_iff_derives tabulate_positives tabulates_positives valueFree_positives
    ⟨trivial, trivial⟩ #[3, 5, 0] (by decide) 0 (by decide) .initial
    (fun cell position => by simp)
  obtain ⟨final, finishes⟩ := yields_positives.completes tabulate_positives tabulates_positives
    .initial (ParserState.sound_of_forgotten fun cell position => by simp)
  exact (agree.1 2).mp ⟨2, final, finishes⟩

end Grammar

end RecursiveDescent
