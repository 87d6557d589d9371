import RecursiveDescent.Proofs.NormalForm

/-!
# Parsers that spell what they consume

Two attempts agree when, from states that look alike, both are unfinished or both finish with
related results.  The relation of interest between two parsers is that the second one does what
the first one does but has, in place of its value, a value that says which elements were consumed.

A parser that is recognized stands in this relation to the parser itself, and the combinators
respect it: the texts of a sequence, of a repetition and of a list are the texts of the parts, one
behind the other.  So there is no need to compare one window over a whole run with many windows at
shifting offsets; the comparison happens once, where a parser is recognized.
-/

namespace RecursiveDescent

variable {σ ε α β γ δ κ τ : Type}

/-! ### Attempts that agree -/

namespace Attempt

/-- From states that are alike, either neither attempt finishes, or both do, with related results
and in states that are alike again. -/
def Agrees (alike : σ → σ → Prop) (related : α → β → Prop) (first : Attempt σ α)
    (second : Attempt σ β) : Prop :=
  ∀ state other, alike state other →
    Option.Rel (fun result answer => related result.1 answer.1 ∧ alike result.2 answer.2)
      (first state) (second other)

namespace Agrees

variable {alike : σ → σ → Prop} {related : α → β → Prop} {ultimately : γ → δ → Prop}
  {first : Attempt σ α} {second : Attempt σ β}

theorem both (agrees : first.Agrees alike related second) {state other : σ}
    (look : alike state other) :
    (first state = none ∧ second other = none) ∨
      ∃ result answer, first state = some result ∧ second other = some answer ∧
        related result.1 answer.1 ∧ alike result.2 answer.2 := by
  have finished := agrees state other look
  generalize first state = begun at finished ⊢
  generalize second other = begunToo at finished ⊢
  cases finished with
  | none => exact .inl ⟨rfl, rfl⟩
  | some held => exact .inr ⟨_, _, rfl, rfl, held⟩

theorem followedBy {next : α → Attempt σ γ} {other : β → Attempt σ δ}
    (begins : first.Agrees alike related second)
    (follows : ∀ value answer, related value answer →
      (next value).Agrees alike ultimately (other answer)) :
    Agrees alike ultimately (first >>= next) (second >>= other) := by
  intro state stateToo look
  rw [Attempt.bind_apply, Attempt.bind_apply]
  rcases begins.both look with
    ⟨begun, begunToo⟩ | ⟨result, answer, begun, begunToo, held, lookAgain⟩
  · rw [begun, begunToo]
    exact .none
  · rw [begun, begunToo]
    exact follows _ _ held _ _ lookAgain

theorem result {value : α} {answer : β} (both : related value answer) :
    Agrees alike related (pure value : Attempt σ α) (pure answer) :=
  fun _ _ look => .some ⟨both, look⟩

theorem unfinished :
    Agrees alike related (Attempt.unfinished : Attempt σ α) Attempt.unfinished :=
  fun _ _ _ => .none

/-- Results may be passed on through different functions. -/
theorem passedOn {value : α → γ} {answer : β → δ} (begins : first.Agrees alike related second)
    (follows : ∀ outcome other, related outcome other → ultimately (value outcome) (answer other)) :
    Agrees alike ultimately (first >>= fun outcome => pure (value outcome))
      (second >>= fun other => pure (answer other)) :=
  begins.followedBy fun _ _ both => result (follows _ _ both)

/-- An effect of the first attempt that no state shows, next to one of the second attempt that
leaves the states alone. -/
theorem afterEffects {effect : StateM σ κ} {idle : StateM σ τ} (holds : τ → Prop)
    {next : κ → Attempt σ α} {other : τ → Attempt σ β}
    (unseen : ∀ state stateToo, alike state stateToo → alike (effect state).2 stateToo)
    (leaves : ∀ state, holds (idle state).1 ∧ (idle state).2 = state)
    (follows : ∀ value answer, holds answer → (next value).Agrees alike related (other answer)) :
    Agrees alike related (Attempt.ofEffect effect >>= next) (Attempt.ofEffect idle >>= other) := by
  intro state stateToo look
  obtain ⟨holding, unchanged⟩ := leaves stateToo
  have lookAgain : alike (effect state).2 (idle stateToo).2 := by
    rw [unchanged]
    exact unseen state stateToo look
  rw [Attempt.bind_apply, Attempt.bind_apply]
  exact follows _ _ holding _ _ lookAgain

end Agrees

end Attempt

/-! ### Outcomes and parsers that spell -/

section Spelling

variable (alike : σ → σ → Prop) (spells : β → List ε → Prop) (source : Array ε)

/-- The second outcome has, in place of the value of the first one, a value that says which
elements were consumed.  They lie inside the source. -/
inductive Outcome.Spelt (start : Nat) : Outcome α → Outcome β → Prop where
  | failure : Spelt start .failure .failure
  | success {width value text} (inside : start + width ≤ source.size)
      (said : spells text ((remaining source start).take width)) :
      Spelt start (.success width value) (.success width text)

/-- The second parser says what the first one consumes, wherever the first one starts inside the
source. -/
def Parser.Spelt (inner : Parser σ ε α) (texts : Parser σ ε β) : Prop :=
  ∀ start ≤ source.size,
    (inner source start).Agrees alike (Outcome.Spelt spells source start) (texts source start)

/-- A parser that starts inside the source ends inside the source, and states that are alike are
alike to it. -/
def Parser.EndsInside (inner : Parser σ ε α) : Prop :=
  ∀ start ≤ source.size,
    (inner source start).Agrees alike
      (fun outcome other => outcome = other ∧ start + outcome.advance ≤ source.size)
      (inner source start)

/-- No state shows what a collector does. -/
structure Collector.Unseen (collector : Collector (StateM σ) α γ) : Prop where
  supply : ∀ state other, alike state other → alike (collector.supply state).2 other
  accumulate : ∀ accumulator value state other, alike state other →
    alike (collector.accumulate accumulator value state).2 other
  finish : ∀ accumulator state other, alike state other →
    alike (collector.finish accumulator state).2 other

end Spelling

/-- A collector that leaves the states alone and tells the elements that its values say, one
behind the other. -/
structure Collector.Joins (spells : β → List ε → Prop) (tells : δ → List ε → Prop)
    (collector : Collector (StateM σ) β δ) (holds : collector.Accumulator → List ε → Prop) :
    Prop where
  supply : ∀ state, holds (collector.supply state).1 [] ∧ (collector.supply state).2 = state
  accumulate : ∀ accumulator elements text others, holds accumulator elements →
    spells text others → ∀ state,
      holds (collector.accumulate accumulator text state).1 (elements ++ others) ∧
        (collector.accumulate accumulator text state).2 = state
  finish : ∀ accumulator elements, holds accumulator elements → ∀ state,
    tells (collector.finish accumulator state).1 elements ∧
      (collector.finish accumulator state).2 = state

theorem Collector.Unseen.accept {alike : σ → σ → Prop} {collector : Collector (StateM σ) α γ}
    (unseen : collector.Unseen alike) (head : α) : (collector.accept head).Unseen alike where
  supply state other look :=
    unseen.accumulate _ head _ other (unseen.supply state other look)
  accumulate := unseen.accumulate
  finish := unseen.finish

/-! ### Texts in a source -/

theorem window_of_le {source : Array ε} (spanned : source.size < lastPosition) {start width : Nat}
    (ends : start + width ≤ source.size) :
    window source start width = some ((remaining source start).take width) :=
  (window_eq source spanned start width).trans (if_pos ends)

/-- A text of some width is a text and the text behind it. -/
theorem take_remaining_add (source : Array ε) (start width more : Nat) :
    (remaining source start).take (width + more) =
      (remaining source start).take width ++ (remaining source (start + width)).take more := by
  rw [List.take_add, drop_remaining]

/-- The outcome with a reading of the consumed elements in place of its value. -/
def Outcome.spelling (read : List ε → β) (source : Array ε) (start : Nat) :
    Outcome α → Outcome β
  | .success width _ => .success width (read ((remaining source start).take width))
  | .failure => .failure

theorem Outcome.reread_eq_spelling {source : Array ε} {start : Nat} {outcome : Outcome α}
    (spanned : source.size < lastPosition) (ends : start + outcome.advance ≤ source.size)
    (read : List ε → β) :
    outcome.reread read source start = outcome.spelling read source start := by
  cases outcome with
  | failure => rfl
  | success width value =>
      have reaches : start + width ≤ source.size := ends
      simp only [Outcome.reread, Outcome.spelling, window_of_le spanned reaches]

namespace Parser

variable {alike : σ → σ → Prop} {spells : β → List ε → Prop} {tells : δ → List ε → Prop}
  {source : Array ε} {read : List ε → β}

/-! ### Recognized parsers -/

theorem recognize_recognize (inner : Parser σ ε α) (first : List ε → τ) (read : List ε → β) :
    Parser.recognize (Parser.recognize inner first) read = Parser.recognize inner read := by
  funext source start
  rw [recognize_eq_adjusted, recognize_eq_adjusted, recognize_eq_adjusted]
  unfold adjusted
  simp only [bind_assoc, pure_bind]
  refine bind_congr fun outcome => ?_
  cases outcome with
  | failure => rfl
  | success width value =>
      unfold Outcome.reread
      cases found : window source start width <;> simp [found]

/-- A recognized parser spells the parser, if that ends inside the source. -/
theorem spelt_recognize {inner : Parser σ ε α} (inside : inner.EndsInside alike source)
    (spanned : source.size < lastPosition) (read : List ε → β) :
    inner.Spelt alike (fun text elements => text = read elements) source
      (Parser.recognize inner read) := by
  intro start reached
  rw [← bind_pure (inner source start)]
  refine (inside start reached).followedBy fun outcome other both => ?_
  obtain ⟨rfl, ends⟩ := both
  cases outcome with
  | failure => exact .result .failure
  | success width value =>
      have reaches : start + width ≤ source.size := ends
      simp only [window_of_le spanned reaches]
      exact .result (.success reaches rfl)

/-- What a parser spells in the manner of `read` is what it is when it is recognized. -/
theorem Spelt.recognized {inner : Parser σ ε α} {texts : Parser σ ε β}
    (spelt : inner.Spelt alike (fun text elements => text = read elements) source texts)
    (spanned : source.size < lastPosition) {start : Nat} (reached : start ≤ source.size) :
    (Parser.recognize inner read source start).Agrees alike Eq (texts source start) := by
  rw [← bind_pure (texts source start)]
  refine (spelt start reached).followedBy fun outcome other both => ?_
  cases both with
  | failure => exact .result rfl
  | @success width value text inside said =>
      simp only [window_of_le spanned inside, said]
      exact .result rfl

/-! ### Combinators -/

theorem spelt_fail : (Parser.fail : Parser σ ε α).Spelt alike spells source Parser.fail :=
  fun _ _ => .result .failure

namespace Spelt

/-- The value that the first parser had does not matter. -/
theorem mapped {inner : Parser σ ε α} {texts : Parser σ ε β}
    (spelt : inner.Spelt alike spells source texts) (function : α → γ) :
    (Parser.map inner function).Spelt alike spells source texts := by
  intro start reached
  rw [← bind_pure (texts source start)]
  refine (spelt start reached).passedOn fun outcome other both => ?_
  cases both with
  | failure => exact .failure
  | success inside said => exact .success inside said

theorem map {inner : Parser σ ε α} {texts : Parser σ ε β} {function : β → δ}
    (spelt : inner.Spelt alike spells source texts)
    (translates : ∀ text elements, spells text elements → tells (function text) elements) :
    inner.Spelt alike tells source (Parser.map texts function) := by
  intro start reached
  rw [← bind_pure (inner source start)]
  refine (spelt start reached).passedOn fun outcome other both => ?_
  cases both with
  | failure => exact .failure
  | success inside said => exact .success inside (translates _ _ said)

theorem bind {first : Parser σ ε α} {texts : Parser σ ε β} {binder : Outcome α → Parser σ ε γ}
    {choosing : Outcome β → Parser σ ε δ} (begins : first.Spelt alike spells source texts)
    (fails : (binder .failure).Spelt alike tells source (choosing .failure))
    (follows : ∀ width value text consumed, spells text consumed →
      (binder (.success width value)).Spelt alike
        (fun result elements => tells result (consumed ++ elements)) source
        (choosing (.success width text))) :
    (Parser.bind first binder).Spelt alike tells source (Parser.bind texts choosing) := by
  intro start reached
  refine (begins start reached).followedBy fun outcome other both => ?_
  cases both with
  | failure =>
      refine (fails start reached).passedOn fun outcome other ended => ?_
      simp only [Outcome.advance, Outcome.advancedBy_zero]
      exact ended
  | @success width value text inside said =>
      refine (follows width value text _ said (start + width) inside).passedOn
        fun outcome other ended => ?_
      cases ended with
      | failure => exact .failure
      | @success more _ _ insideToo saidToo =>
          refine .success (by simp only [Outcome.advance]; omega) ?_
          rw [Nat.add_comm more, Outcome.advance, take_remaining_add]
          exact saidToo

theorem sequence {first : Parser σ ε α} {second : Parser σ ε γ} {texts : Parser σ ε β}
    {following : Parser σ ε δ} {joined : τ → List ε → Prop} (combine : α → γ → κ)
    {join : β → δ → τ} (begins : first.Spelt alike spells source texts)
    (follows : second.Spelt alike tells source following)
    (joins : ∀ text elements other others, spells text elements → tells other others →
      joined (join text other) (elements ++ others)) :
    (Parser.sequence first second combine).Spelt alike joined source
      (Parser.sequence texts following join) := by
  rw [sequence_eq_bind, sequence_eq_bind]
  refine begins.bind spelt_fail fun width value text consumed said => ?_
  exact (follows.mapped (combine value)).map
    fun other others => joins text consumed other others said

/-! ### Loops -/

section Loops

variable {item : Parser σ ε α} {texts : Parser σ ε β} {collector : Collector (StateM σ) α γ}
  {joining : Collector (StateM σ) β δ} {holds : joining.Accumulator → List ε → Prop}

theorem closeRepetition (unseen : collector.Unseen alike) (joins : joining.Joins spells tells holds)
    (bounds : RepeatBounds) {start width : Nat} (reached : start + width ≤ source.size)
    (count : Nat) (accumulator : collector.Accumulator) {held : joining.Accumulator}
    (holding : holds held ((remaining source start).take width)) :
    (Parser.closeRepetition collector bounds count width accumulator).Agrees alike
      (Outcome.Spelt tells source start)
      (Parser.closeRepetition joining bounds count width held) := by
  unfold Parser.closeRepetition
  by_cases few : count < bounds.minimum
  · rw [if_pos few, if_pos few]
    exact .result .failure
  · rw [if_neg few, if_neg few]
    exact .afterEffects (tells · _) (unseen.finish accumulator) (joins.finish held _ holding)
      fun _ _ telling => .result (.success reached telling)

/-- The induction is on the rounds; the accumulator holds what the loop has consumed so far. -/
theorem repeatLoop (items : item.Spelt alike spells source texts) (unseen : collector.Unseen alike)
    (joins : joining.Joins spells tells holds) (bounds : RepeatBounds) {start width : Nat}
    (reached : start + width ≤ source.size) (rounds count : Nat)
    (accumulator : collector.Accumulator) {held : joining.Accumulator}
    (holding : holds held ((remaining source start).take width)) :
    (Parser.repeatLoop item collector bounds source start rounds count width accumulator).Agrees
      alike (Outcome.Spelt tells source start)
      (Parser.repeatLoop texts joining bounds source start rounds count width held) := by
  induction rounds generalizing width count accumulator held with
  | zero => exact .unfinished
  | succ rounds induction =>
      rw [repeatLoop_succ, repeatLoop_succ]
      by_cases more : bounds.allowsMore count
      · rw [if_pos more, if_pos more]
        refine (items (start + width) reached).followedBy fun outcome other both => ?_
        cases both with
        | failure => exact closeRepetition unseen joins bounds reached count accumulator holding
        | @success itemWidth value text inside said =>
            refine .afterEffects (holds · _) (unseen.accumulate accumulator value)
              (joins.accumulate held _ text _ holding said) fun accumulator held longer => ?_
            rw [← take_remaining_add] at longer
            exact induction (by omega) (count + 1) accumulator longer
      · rw [if_neg more, if_neg more]
        exact closeRepetition unseen joins bounds reached count accumulator holding

theorem repeated (items : item.Spelt alike spells source texts) (unseen : collector.Unseen alike)
    (joins : joining.Joins spells tells holds) (bounds : RepeatBounds) (rounds : Nat) :
    (Parser.repeated rounds item collector bounds).Spelt alike tells source
      (Parser.repeated rounds texts joining bounds) :=
  fun _ reached => .afterEffects (holds · []) unseen.supply joins.supply
    fun accumulator _ holding =>
      items.repeatLoop unseen joins bounds reached rounds 0 accumulator holding

/-- A separated list is spelled by the first item and as many pairs of a delimiter and an item as
there are behind it. -/
theorem separated {delimiter : Parser σ ε κ} {marks : Parser σ ε β} {join : β → β → β}
    {append : β → δ → δ} (items : item.Spelt alike spells source texts)
    (delimiters : delimiter.Spelt alike spells source marks) (unseen : collector.Unseen alike)
    (joins : joining.Joins spells tells holds)
    (joined : ∀ text elements other others, spells text elements → spells other others →
      spells (join text other) (elements ++ others))
    (appended : ∀ text elements other others, spells text elements → tells other others →
      tells (append text other) (elements ++ others)) (rounds : Nat) :
    (Parser.separated rounds item delimiter collector).Spelt alike tells source
      (Parser.sequence texts
        (Parser.repeated rounds (Parser.sequence marks texts join) joining .zeroOrMore)
        append) := by
  rw [separated_eq_bind, sequence_eq_bind texts]
  refine items.bind spelt_fail fun width head text consumed said => ?_
  have pairs := delimiters.sequence (fun _ value => value) items joined
  exact (pairs.repeated (unseen.accept head) joins .zeroOrMore rounds).map
    fun other others => appended text consumed other others said

end Loops

end Spelt

end Parser

end RecursiveDescent
