import RecursiveDescent.Proofs.Completeness
import RecursiveDescent.Proofs.Consumption
import RecursiveDescent.Proofs.LeftRecursion

/-!
# Guarded grammars terminate

A run that does not end descends without end into attempts within attempts.  Attempts never go
back in the source, so such a descent stays at one position from some attempt on.  There, each
attempt is of a part of the grammar that the last one was of, unless a loop goes on after a match
of nothing or a rule is invoked.  In a guarded grammar the former does not happen.  As there are
finitely many rules, the latter leads back to a rule that is already at work at this position.

The proof that there is no such descent follows this in the other direction: an induction on what
remains of the source, at one position an induction on the rules, and for one rule an induction on
its definition.
-/

namespace RecursiveDescent

variable {ε ν : Type} [DecidableEq ε]

/-- No unbounded loop in the grammar goes on after a match of nothing.  The grammars that a binder
chooses count if its first part can come to the outcome that chooses them. -/
def Grammar.Guarded (rules : Rules ε ν) (source : Array ε) : Grammar ε ν → Prop
  | .element _ _ | .literal _ _ | .fixedWidth _ _ | .succeed _ | .fail | .endOfInput _
  | .ofFunction _ | .rule _ => True
  | .sequence first second _ | .choice first second =>
      first.Guarded rules source ∧ second.Guarded rules source
  | .repeated item _ bounds =>
      item.Guarded rules source ∧
        (bounds.maximum = none →
          ∀ start value, ¬ item.Yields rules source start (.success 0 value))
  | .delimited item delimiter _ _ | .separated item delimiter _ =>
      item.Guarded rules source ∧ delimiter.Guarded rules source ∧
        ∀ start separator value, delimiter.Yields rules source start (.success 0 separator) →
          ¬ item.Yields rules source start (.success 0 value)
  | .bind first binder =>
      first.Guarded rules source ∧
        ∀ outcome start, first.Yields rules source start outcome →
          (binder outcome).Guarded rules source
  | .optional inner _ | .ahead inner | .notAhead inner _ | .map inner _ | .tryMap inner _
  | .filter inner _ | .recognize inner _ | .before _ inner | .onSuccess _ inner
  | .onFailure _ inner | .traced _ inner | .memoized _ inner | .rebuilt _ inner
  | .deferred _ inner => inner.Guarded rules source

def Rules.Guarded (rules : Rules ε ν) (source : Array ε) : Prop :=
  ∀ index body, rules.body? index = some body → body.Guarded rules source

namespace Grammar

variable {rules : Rules ε ν} {source : Array ε} {grammar : Grammar ε ν} {start : Nat}

/-! ### Attempts within guarded grammars -/

/-- A sequence that matches nothing has two parts that match nothing. -/
theorem Yields.sequence_zero {first second : Grammar ε ν} {combine : ν → ν → ν} {value : ν}
    (yields : (sequence first second combine).Yields rules source start (.success 0 value)) :
    ∃ firstValue secondValue, first.Yields rules source start (.success 0 firstValue) ∧
      second.Yields rules source start (.success 0 secondValue) := by
  obtain ⟨begun, result, beginning, following, total⟩ := yields.of_continued rfl
  cases begun with
  | failure =>
      cases following.unique (.settled rfl)
      cases total
  | success width firstValue =>
      obtain ⟨inner, inside, rfl⟩ := following.of_adjusted rfl
      cases inner with
      | failure => cases total
      | success nextWidth secondValue =>
          have widths : 0 = nextWidth + width := (Outcome.success.inj total).1
          obtain ⟨rfl, rfl⟩ : nextWidth = 0 ∧ width = 0 := by omega
          exact ⟨firstValue, secondValue, beginning, inside⟩

theorem guarded_pairs {item delimiter : Grammar ε ν} (combine : ν → ν → ν)
    (headCollector : ν → ValueCollector ν) (itemGuarded : item.Guarded rules source)
    (delimiterGuarded : delimiter.Guarded rules source)
    (progress : ∀ start separator value,
      delimiter.Yields rules source start (.success 0 separator) →
        ¬ item.Yields rules source start (.success 0 value)) (outcome : Outcome ν) :
    (pairs item delimiter combine headCollector outcome).Guarded rules source := by
  cases outcome with
  | failure => trivial
  | success width head =>
      refine ⟨⟨delimiterGuarded, itemGuarded⟩, fun _ start value yields => ?_⟩
      obtain ⟨separator, itemValue, separates, matched⟩ := yields.sequence_zero
      exact progress start separator itemValue separates matched

/-- Attempts within a guarded grammar are of guarded grammars. -/
theorem Guarded.within {inner outer : Site ε ν} (guarded : outer.1.Guarded rules source)
    (rulesGuarded : rules.Guarded source) (within : Within rules source inner outer) :
    inner.1.Guarded rules source := by
  cases within with
  | @part grammar part adjust start shape =>
      cases grammar with
      | optional inner _ | ahead inner | notAhead inner _ | map inner _ | tryMap inner _
      | filter inner _ | recognize inner _ | before _ inner | onSuccess _ inner
      | onFailure _ inner | traced _ inner | memoized _ inner | rebuilt _ inner
      | deferred _ inner =>
          cases shape
          exact guarded
      | repeated item collector bounds =>
          simp only [form] at shape
          split at shape <;> cases shape
      | rule index =>
          cases found : rules.body? index with
          | none => simp [form, found] at shape
          | some body =>
              simp only [form, found] at shape
              cases shape
              exact rulesGuarded index part found
      | _ => cases shape
  | @first grammar first next start shape =>
      cases grammar with
      | sequence left right _ | choice left right | delimited left right _ _
      | separated left right _ | bind left _ =>
          cases shape
          exact guarded.1
      | repeated item collector bounds =>
          simp only [form] at shape
          split at shape
          · cases shape
            exact guarded.1
          · cases shape
      | rule index =>
          simp only [form] at shape
          split at shape <;> cases shape
      | _ => cases shape
  | @next grammar first next start outcome shape beginning =>
      cases grammar with
      | sequence left right combine =>
          cases shape
          cases outcome with
          | success width value => exact guarded.2
          | failure => trivial
      | choice left right =>
          cases shape
          cases outcome with
          | success width value => trivial
          | failure => exact guarded.2
      | repeated item collector bounds =>
          simp only [form] at shape
          split at shape
          · cases shape
            cases outcome with
            | success width value =>
                refine ⟨guarded.1, fun unbounded => guarded.2 ?_⟩
                simpa using unbounded
            | failure =>
                simp only [repetition]
                split <;> trivial
          · cases shape
      | delimited item delimiter combine headCollector =>
          cases shape
          exact guarded_pairs combine headCollector guarded.1 guarded.2.1 guarded.2.2 outcome
      | separated item delimiter collector =>
          cases shape
          exact guarded_pairs _ _ guarded.1 guarded.2.1 guarded.2.2 outcome
      | bind left binder =>
          cases shape
          exact guarded.2 outcome start beginning
      | rule index =>
          simp only [form] at shape
          split at shape <;> cases shape
      | _ => cases shape

/-! ### No descent at one position

Attempts at later positions come to an end by the induction on what remains of the source. -/

/-- Guarded grammars at later positions consist of no endless descent. -/
def AccLater (rules : Rules ε ν) (source : Array ε) (start : Nat) : Prop :=
  ∀ (grammar : Grammar ε ν) (position : Nat), start < position → start ≤ source.size →
    grammar.FunctionFree → grammar.Guarded rules source →
      Acc (Within rules source) (grammar, position)

section Here

variable (later : AccLater rules source start) (rulesFunctionFree : rules.FunctionFree)
  (rulesGuarded : rules.Guarded source)

include later rulesFunctionFree rulesGuarded

theorem acc_of_continued_here
    (functionFree : grammar.FunctionFree) (guarded : grammar.Guarded rules source)
    {first : Grammar ε ν} {next : Outcome ν → Grammar ε ν}
    (shape : grammar.form rules source = .continued first next)
    (beginning : Acc (Within rules source) (first, start))
    (here : ∀ outcome, first.Yields rules source start outcome → outcome.advance = 0 →
      Within rules source (next outcome, start) (grammar, start) →
        Acc (Within rules source) (next outcome, start)) :
    Acc (Within rules source) (grammar, start) := by
  refine acc_of_continued shape beginning fun outcome begun => ?_
  have within : Within rules source (next outcome, start + outcome.advance) (grammar, start) :=
    .next shape begun
  -- A match of nothing leaves the descent at this position, any other one takes it further on.
  rcases Nat.eq_zero_or_pos outcome.advance with nothing | something
  · rw [nothing, Nat.add_zero] at within ⊢
    exact here outcome begun nothing within
  · have begins : Within rules source (first, start) (grammar, start) := .first shape
    have firstFree := functionFree.within hereditary_noFunction rulesFunctionFree begins
    have inside : start ≤ source.size := by
      cases outcome with
      | failure => exact absurd something (Nat.lt_irrefl 0)
      | success width value => exact begun.le_size firstFree rulesFunctionFree something
    exact later _ _ (by omega) inside
      (functionFree.within hereditary_noFunction rulesFunctionFree within)
      (guarded.within rulesGuarded within)

/-- A repetition whose items come to an end does so if what is left of it after a match of nothing
does. -/
theorem acc_repeated_of_left {item : Grammar ε ν} (collector : ValueCollector ν)
    (bounds : RepeatBounds) (functionFree : item.FunctionFree)
    (guarded : (repeated item collector bounds).Guarded rules source)
    (items : Acc (Within rules source) (item, start))
    (left : bounds.allowsMore 0 → ∀ value, item.Yields rules source start (.success 0 value) →
      Acc (Within rules source) (repeated item (collector.taking value) (bounds.drop 1), start)) :
    Acc (Within rules source) (repeated item collector bounds, start) := by
  by_cases more : bounds.allowsMore 0
  · refine acc_of_continued_here later rulesFunctionFree rulesGuarded ⟨trivial, functionFree⟩
      guarded (form_repeated_of_more more) items fun outcome begun nothing _ => ?_
    cases outcome with
    | failure =>
        exact acc_of_settled start (form_repetition_failure rules source item collector bounds)
    | success width value =>
        obtain rfl : width = 0 := nothing
        exact left more value begun
  · exact acc_of_settled start (form_repeated_of_exhausted more)

/-- A bounded loop may go on after a match of nothing, but not more often than its bound says. -/
theorem acc_repeated_bounded {item : Grammar ε ν} (functionFree : item.FunctionFree)
    (itemGuarded : item.Guarded rules source) (items : Acc (Within rules source) (item, start))
    (limit : Nat) (collector : ValueCollector ν) (bounds : RepeatBounds)
    (bounded : bounds.maximum = some limit) :
    Acc (Within rules source) (repeated item collector bounds, start) := by
  have guarded (collector : ValueCollector ν) {bounds : RepeatBounds} {limit : Nat}
      (bounded : bounds.maximum = some limit) :
      (repeated item collector bounds).Guarded rules source :=
    ⟨itemGuarded, fun unbounded => by simp [bounded] at unbounded⟩
  induction limit generalizing collector bounds with
  | zero =>
      refine acc_repeated_of_left later rulesFunctionFree rulesGuarded collector bounds
        functionFree (guarded collector bounded) items fun more _ _ => ?_
      simp [RepeatBounds.allowsMore, bounded] at more
  | succ limit limitCase =>
      refine acc_repeated_of_left later rulesFunctionFree rulesGuarded collector bounds
        functionFree (guarded collector bounded) items fun _ value _ => ?_
      exact limitCase (collector.taking value) (bounds.drop 1) (by simp [bounded])

/-- A guarded repetition comes to an end if its items do. -/
theorem acc_repeated {item : Grammar ε ν} {collector : ValueCollector ν}
    {bounds : RepeatBounds} (functionFree : item.FunctionFree)
    (guarded : (repeated item collector bounds).Guarded rules source)
    (items : Acc (Within rules source) (item, start)) :
    Acc (Within rules source) (repeated item collector bounds, start) := by
  cases bounded : bounds.maximum with
  | none =>
      exact acc_repeated_of_left later rulesFunctionFree rulesGuarded collector bounds
        functionFree guarded items fun _ value nothing =>
          absurd nothing (guarded.2 bounded start value)
  | some limit =>
      exact acc_repeated_bounded later rulesFunctionFree rulesGuarded functionFree guarded.1 items
        limit collector bounds bounded

/-- A guarded list comes to an end if its items and the delimiters within it do. -/
theorem acc_list {item delimiter : Grammar ε ν} {combine : ν → ν → ν}
    {headCollector : ν → ValueCollector ν}
    (functionFree : grammar.FunctionFree) (guarded : grammar.Guarded rules source)
    (shape : grammar.form rules source =
      .continued item (pairs item delimiter combine headCollector))
    (pairFree : (sequence delimiter item combine).FunctionFree)
    (pairsGuarded : ∀ outcome,
      (pairs item delimiter combine headCollector outcome).Guarded rules source)
    (items : Acc (Within rules source) (item, start))
    (delimiters :
      Relation.ReflTransGen (Within rules source) (delimiter, start) (grammar, start) →
        Acc (Within rules source) (delimiter, start)) :
    Acc (Within rules source) (grammar, start) := by
  refine acc_of_continued_here later rulesFunctionFree rulesGuarded functionFree guarded shape
    items fun outcome _ _ within => ?_
  cases outcome with
  | failure => exact acc_of_settled start rfl
  | success width head =>
      have rest := pairsGuarded (.success width head)
      have toPair : Within rules source (delimiter, start)
          (sequence delimiter item combine, start) := .first rfl
      have toPairs : Within rules source (sequence delimiter item combine, start)
          (pairs item delimiter combine headCollector (.success width head), start) := .first rfl
      refine acc_repeated later rulesFunctionFree rulesGuarded pairFree rest ?_
      -- Behind a delimiter of no width stands an item at the position of the head.
      refine acc_of_continued_here later rulesFunctionFree rulesGuarded pairFree rest.1 rfl
        (delimiters (((Relation.ReflTransGen.single toPair).tail toPairs).tail within))
        fun separated _ _ _ => ?_
      cases separated with
      | failure => exact acc_of_settled start rfl
      | success width separator => exact acc_of_adjusted rfl items

/-- A guarded grammar comes to an end if the rules do that are invoked within it at the same
position. -/
theorem acc_of_invoked (grammar : Grammar ε ν) (functionFree : grammar.FunctionFree)
    (guarded : grammar.Guarded rules source)
    (invoked : ∀ index,
      Relation.ReflTransGen (Within rules source) (rule index, start) (grammar, start) →
        Acc (Within rules source) (rule index, start)) :
    Acc (Within rules source) (grammar, start) := by
  induction grammar with
  | element _ _ | literal _ _ | fixedWidth _ _ | succeed _ | fail | endOfInput _ | ofFunction _ =>
      exact acc_of_settled start rfl
  | rule index => exact invoked index .refl
  | sequence first second combine firstCase secondCase =>
      refine acc_of_continued_here later rulesFunctionFree rulesGuarded functionFree guarded rfl
        (firstCase functionFree.2.1 guarded.1 fun index path =>
          invoked index (path.tail (.first rfl)))
        fun outcome _ _ within => ?_
      cases outcome with
      | failure => exact acc_of_settled start rfl
      | success width value =>
          exact acc_of_adjusted rfl (secondCase functionFree.2.2 guarded.2 fun index path =>
            invoked index ((path.tail (.part rfl)).tail within))
  | choice first second firstCase secondCase =>
      refine acc_of_continued_here later rulesFunctionFree rulesGuarded functionFree guarded rfl
        (firstCase functionFree.2.1 guarded.1 fun index path =>
          invoked index (path.tail (.first rfl)))
        fun outcome _ _ within => ?_
      cases outcome with
      | success width value => exact acc_of_settled start rfl
      | failure =>
          exact secondCase functionFree.2.2 guarded.2 fun index path =>
            invoked index (path.tail within)
  | repeated item collector bounds itemCase =>
      by_cases more : bounds.allowsMore 0
      · exact acc_repeated later rulesFunctionFree rulesGuarded functionFree.2 guarded
          (itemCase functionFree.2 guarded.1 fun index path =>
            invoked index (path.tail (.first (form_repeated_of_more more))))
      · exact acc_of_settled start (form_repeated_of_exhausted more)
  | delimited item delimiter combine headCollector itemCase delimiterCase =>
      exact acc_list later rulesFunctionFree rulesGuarded functionFree guarded rfl
        ⟨trivial, functionFree.2.2, functionFree.2.1⟩
        (guarded_pairs combine headCollector guarded.1 guarded.2.1 guarded.2.2)
        (itemCase functionFree.2.1 guarded.1 fun index path =>
          invoked index (path.tail (.first rfl)))
        fun inside => delimiterCase functionFree.2.2 guarded.2.1 fun index path =>
          invoked index (path.trans inside)
  | separated item delimiter collector itemCase delimiterCase =>
      exact acc_list later rulesFunctionFree rulesGuarded functionFree guarded rfl
        ⟨trivial, functionFree.2.2, functionFree.2.1⟩
        (guarded_pairs _ _ guarded.1 guarded.2.1 guarded.2.2)
        (itemCase functionFree.2.1 guarded.1 fun index path =>
          invoked index (path.tail (.first rfl)))
        fun inside => delimiterCase functionFree.2.2 guarded.2.1 fun index path =>
          invoked index (path.trans inside)
  | bind first binder firstCase binderCase =>
      refine acc_of_continued_here later rulesFunctionFree rulesGuarded functionFree guarded rfl
        (firstCase functionFree.2.1 guarded.1 fun index path =>
          invoked index (path.tail (.first rfl)))
        fun outcome begun _ within => ?_
      exact binderCase outcome (functionFree.2.2 outcome) (guarded.2 outcome start begun)
        fun index path => invoked index (path.tail within)
  | optional inner _ innerCase | ahead inner innerCase | notAhead inner _ innerCase
  | map inner _ innerCase | tryMap inner _ innerCase | filter inner _ innerCase
  | recognize inner _ innerCase | before _ inner innerCase | onSuccess _ inner innerCase
  | onFailure _ inner innerCase | traced _ inner innerCase | memoized _ inner innerCase
  | rebuilt _ inner innerCase | deferred _ inner innerCase =>
      exact acc_of_adjusted rfl (innerCase functionFree.2 guarded fun index path =>
        invoked index (path.tail (.part rfl)))

/-- All rules come to an end. -/
theorem acc_rule (notLeftRecursive : rules.NotLeftRecursive source) (index : Nat) :
    Acc (Within rules source) (rule index, start) := by
  induction index using notLeftRecursive.induction start with
  | step index earlier =>
      cases found : rules.body? index with
      | none => exact acc_of_settled start (form_rule_of_undefined found)
      | some body =>
          have shape : (rule index).form rules source =
              .adjusted body fun _ outcome => outcome := form_rule_of_defined found
          refine acc_of_adjusted shape (acc_of_invoked later rulesFunctionFree rulesGuarded body
            (rulesFunctionFree index body found) (rulesGuarded index body found)
            fun other path => ?_)
          by_cases defined : other < rules.size
          · exact earlier other defined (.tail' path (.part shape))
          · have missing : rules.body? other = none := by
              simp [Rules.body?, defined]
            exact acc_of_settled start (form_rule_of_undefined missing)

end Here

/-- Guarded grammars consist of no endless descent. -/
theorem acc_of_guarded (rulesFunctionFree : rules.FunctionFree)
    (rulesGuarded : rules.Guarded source) (notLeftRecursive : rules.NotLeftRecursive source)
    (grammar : Grammar ε ν) (functionFree : grammar.FunctionFree)
    (guarded : grammar.Guarded rules source) (start : Nat) :
    Acc (Within rules source) (grammar, start) := by
  -- The end of the source is a position of its own, where grammars may still match nothing.
  induction remaining : source.size + 1 - start using Nat.strongRecOn
    generalizing grammar start with
  | ind room shorter =>
      have later : AccLater rules source start :=
        fun grammar position beyond inside functionFree guarded =>
          shorter (source.size + 1 - position) (by omega) grammar functionFree guarded position rfl
      exact acc_of_invoked later rulesFunctionFree rulesGuarded grammar functionFree guarded
        fun index _ => acc_rule later rulesFunctionFree rulesGuarded notLeftRecursive index

/-- A guarded grammar without functions on positions and without left recursion finishes on every
source, from every position and every sound state, and leaves sound memo tables. -/
theorem guarded_finishes {owner : Nat → Grammar ε ν} (rulesTabulated : rules.Tabulate owner)
    (tabulated : grammar.Tabulates owner) (rulesFunctionFree : rules.FunctionFree)
    (functionFree : grammar.FunctionFree) (rulesGuarded : rules.Guarded source)
    (guarded : grammar.Guarded rules source) (notLeftRecursive : rules.NotLeftRecursive source)
    (start : Nat) {state : ParserState ν} (sound : state.Sound rules source owner) :
    ∃ outcome final, grammar.Finishes rules source start state (outcome, final) ∧
      final.Sound rules source owner := by
  obtain ⟨outcome, yields⟩ := exists_yields_of_acc
    (acc_of_guarded rulesFunctionFree rulesGuarded notLeftRecursive grammar functionFree guarded
      start)
  obtain ⟨final, finishes⟩ := yields.completes rulesTabulated tabulated state sound
  exact ⟨outcome, final, finishes, (finishes.yields rulesTabulated tabulated sound).2⟩

/-! Brackets within brackets, counted, with a memo table for the brackets.  The loop for those in
the middle is unbounded, and each of its rounds invokes the rule that the loop is in. -/

/-- Brackets, zero for the opening and one for the closing one, with further brackets between. -/
def brackets : Grammar Nat Nat :=
  .sequence (.literal [0] 1)
    (.sequence (.repeated (.memoized 0 (.rule 0)) (.ofFold 0 (· + ·) id) .zeroOrMore)
      (.literal [1] 0) (· + ·))
    (· + ·)

theorem not_literal_yields_nothing {rules : Rules Nat Nat} {source : Array Nat} {start : Nat}
    {element result value : Nat} :
    ¬ (literal [element] result).Yields rules source start (.success 0 value) := by
  intro yields
  have settled := yields.unique (.settled rfl)
  simp only [Outcome.ofLiteral] at settled
  split at settled <;> simp at settled

theorem guarded_brackets (source : Array Nat) :
    Rules.Guarded #[.forward (some brackets)] source := by
  intro index body found
  obtain rfl := Rules.eq_of_body?_single found
  refine ⟨trivial, ⟨trivial, fun _ start value yields => ?_⟩, trivial⟩
  obtain ⟨invoked, invocation, rfl⟩ := yields.of_adjusted rfl
  obtain ⟨defined, definition, rfl⟩ := invocation.of_adjusted rfl
  obtain ⟨opening, _, opens, _⟩ := definition.sequence_zero
  exact not_literal_yields_nothing opens

theorem notLeftRecursive_brackets (source : Array Nat) :
    Rules.NotLeftRecursive #[.forward (some brackets)] source := by
  refine Rules.notLeftRecursive_of_opens fun index circle => ?_
  obtain ⟨_, _, body, found, opens⟩ := Relation.TransGen.tail'_iff.mp circle
  obtain rfl := Rules.eq_of_body?_single found
  rcases opens with nothing | ⟨⟨start, value, opening⟩, _⟩
  · exact nothing
  · exact not_literal_yields_nothing opening

theorem tabulates_brackets : brackets.Tabulates fun _ => .rule 0 :=
  ⟨trivial, trivial, ⟨trivial, ⟨trivial, rfl, trivial⟩, trivial⟩⟩

theorem functionFree_brackets : brackets.FunctionFree :=
  ⟨trivial, trivial, ⟨trivial, ⟨trivial, trivial, trivial⟩, trivial⟩⟩

theorem guarded_finishes_brackets :
    ∃ outcome final, brackets.Finishes #[.forward (some brackets)] #[0, 0, 1, 0, 1] 0 .initial
      (outcome, final) ∧
        final.Sound #[.forward (some brackets)] #[0, 0, 1, 0, 1] fun _ => .rule 0 :=
  guarded_finishes (Rules.throughout_single tabulates_brackets) tabulates_brackets
    (Rules.throughout_single functionFree_brackets) functionFree_brackets (guarded_brackets _)
    (guarded_brackets _ 0 brackets rfl) (notLeftRecursive_brackets _) 0
    (ParserState.sound_of_forgotten fun cell position => by simp)

end Grammar

end RecursiveDescent
