import RecursiveDescent.Parser.Instrumentation
import RecursiveDescent.Parser.Repetition

/-!
# Normal forms of parsers

Two combinators suffice to express almost all others.  `Parser.adjusted` changes the outcome of
one parser, and `Parser.bind` goes on with a parser that the outcome of a first one chooses.
This file rewrites the other combinators in these terms.

A repetition is not of this kind, because its collector is supplied only once.  It is the
parser of the first item, followed by a repetition that starts from the accumulator reached so
far and has one match less to make (`Parser.repeated_succ`).  Delimited and separated lists are
a head followed by a repetition of pairs.
-/

namespace RecursiveDescent

variable {σ ε α β γ δ : Type}

/-! ### Repetitions that have begun -/

namespace RepeatBounds

/-- The bounds that remain after some matches. -/
def drop (bounds : RepeatBounds) (count : Nat) : RepeatBounds where
  minimum := bounds.minimum - count
  maximum := bounds.maximum.map (· - count)
  minimum_le := by
    intro limit found
    obtain ⟨whole, held, rfl⟩ := Option.map_eq_some_iff.mp found
    have order := bounds.minimum_le whole held
    omega

@[simp]
theorem drop_minimum (bounds : RepeatBounds) (count : Nat) :
    (bounds.drop count).minimum = bounds.minimum - count :=
  rfl

@[simp]
theorem drop_maximum (bounds : RepeatBounds) (count : Nat) :
    (bounds.drop count).maximum = bounds.maximum.map (· - count) :=
  rfl

@[simp]
theorem drop_zero (bounds : RepeatBounds) : bounds.drop 0 = bounds := by
  obtain ⟨minimum, maximum, order⟩ := bounds
  simp [drop]

theorem allowsMore_drop (bounds : RepeatBounds) (first count : Nat) :
    (bounds.drop first).allowsMore count = bounds.allowsMore (first + count) := by
  obtain ⟨minimum, maximum, order⟩ := bounds
  cases maximum with
  | none => rfl
  | some limit =>
      simp only [allowsMore, drop, Option.map_some, decide_eq_decide]
      omega

end RepeatBounds

namespace Collector

variable {m : Type → Type}

/-- The collector that gets its first accumulator from elsewhere. -/
abbrev suppliedBy (collector : Collector m α β) (supply : m collector.Accumulator) :
    Collector m α β where
  Accumulator := collector.Accumulator
  supply := supply
  accumulate := collector.accumulate
  finish := collector.finish

/-- Gathers on from an accumulator that holds some values already. -/
abbrev startingFrom [Monad m] (collector : Collector m α β)
    (accumulator : collector.Accumulator) : Collector m α β :=
  collector.suppliedBy (pure accumulator)

end Collector

/-! ### Finished attempts -/

namespace Attempt

theorem bind_apply (first : Attempt σ α) (next : α → Attempt σ β) (state : σ) :
    (first >>= next) state = (first state).bind fun result => next result.1 result.2 :=
  rfl

theorem bind_eq_some_iff (first : Attempt σ α) (next : α → Attempt σ β) (state : σ)
    (result : β × σ) :
    (first >>= next) state = some result ↔
      ∃ value middle, first state = some (value, middle) ∧ next value middle = some result := by
  simp [Bind.bind, StateT.bind, Option.bind_eq_some_iff]

@[simp]
theorem pure_apply (value : α) (state : σ) :
    (pure value : Attempt σ α) state = some (value, state) :=
  rfl

@[simp]
theorem ofEffect_apply (effect : StateM σ α) (state : σ) :
    Attempt.ofEffect effect state = some (effect state) :=
  rfl

@[simp]
theorem modify_apply (change : σ → σ) (state : σ) :
    (modify change : Attempt σ PUnit) state = some (⟨⟩, change state) :=
  rfl

@[simp]
theorem get_apply (state : σ) : (get : Attempt σ σ) state = some (state, state) :=
  rfl

end Attempt

/-! ### Outcomes that the position settles -/

namespace Outcome

def ofElement (test : ε → Bool) (value : ε → α) (source : Array ε) (start : Nat) : Outcome α :=
  match source[start]? with
  | some found => if test found then .success 1 (value found) else .failure
  | none => .failure

def ofLiteral [DecidableEq ε] (expected : List ε) (value : α) (source : Array ε)
    (start : Nat) : Outcome α :=
  if window source start expected.length = some expected then
    .success expected.length value
  else
    .failure

def ofFixedWidth (width : Nat) (read : List ε → Option α) (source : Array ε) (start : Nat) :
    Outcome α :=
  match (window source start width).bind read with
  | some value => .success width value
  | none => .failure

def ofEnd (value : α) (source : Array ε) (start : Nat) : Outcome α :=
  if source.size ≤ start then .success 0 value else .failure

end Outcome

namespace Parser

theorem element_eq_ofFunction (test : ε → Bool) (value : ε → α) :
    (Parser.element test value : Parser σ ε α) =
      Parser.ofFunction (Outcome.ofElement test value) := by
  funext source start
  unfold Parser.element Parser.ofFunction Outcome.ofElement
  cases source[start]? with
  | none => rfl
  | some found => by_cases passes : test found <;> simp [passes]

theorem literal_eq_ofFunction [DecidableEq ε] (expected : List ε) (value : α) :
    (Parser.literal expected value : Parser σ ε α) =
      Parser.ofFunction (Outcome.ofLiteral expected value) := by
  funext source start
  unfold Parser.literal Parser.ofFunction Outcome.ofLiteral
  split <;> rfl

theorem fixedWidth_eq_ofFunction (width : Nat) (read : List ε → Option α) :
    (Parser.fixedWidth width read : Parser σ ε α) =
      Parser.ofFunction (Outcome.ofFixedWidth width read) := by
  funext source start
  unfold Parser.fixedWidth Parser.ofFunction Outcome.ofFixedWidth
  cases (window source start width).bind read <;> rfl

theorem endOfInput_eq_ofFunction (value : α) :
    (Parser.endOfInput value : Parser σ ε α) = Parser.ofFunction (Outcome.ofEnd value) := by
  funext source start
  unfold Parser.endOfInput Parser.ofFunction Outcome.ofEnd
  split <;> rfl

end Parser

/-! ### Adjusted outcomes -/

namespace Outcome

/-- A failure becomes a match of nothing. -/
def orElse (fallback : α) : Outcome α → Outcome α
  | .success width value => .success width value
  | .failure => .success 0 fallback

/-- A match becomes a match of nothing. -/
def withoutWidth : Outcome α → Outcome α
  | .success _ value => .success 0 value
  | .failure => .failure

/-- A match becomes a failure, and a failure a match of nothing. -/
def negated (value : β) : Outcome α → Outcome β
  | .success _ _ => .failure
  | .failure => .success 0 value

/-- A match becomes a failure unless its value is accepted. -/
def accepted (accepts : α → Bool) : Outcome α → Outcome α
  | .success width value => if accepts value then .success width value else .failure
  | .failure => .failure

/-- The value of a match is read from the window that it consumed. -/
def reread (read : List ε → β) (source : Array ε) (start : Nat) : Outcome α → Outcome β
  | .success width _ =>
      match window source start width with
      | some text => .success width (read text)
      | none => .failure
  | .failure => .failure

end Outcome

namespace Parser

def adjusted (adjust : Array ε → Nat → Outcome α → Outcome β) (inner : Parser σ ε α) :
    Parser σ ε β := fun source start => do
  let outcome ← inner source start
  return adjust source start outcome

theorem optional_eq_adjusted (inner : Parser σ ε α) (fallback : α) :
    Parser.optional inner fallback =
      Parser.adjusted (fun _ _ => Outcome.orElse fallback) inner := by
  funext source start
  refine bind_congr fun outcome => ?_
  cases outcome <;> rfl

theorem ahead_eq_adjusted (inner : Parser σ ε α) :
    Parser.ahead inner = Parser.adjusted (fun _ _ => Outcome.withoutWidth) inner := by
  funext source start
  refine bind_congr fun outcome => ?_
  cases outcome <;> rfl

theorem notAhead_eq_adjusted (inner : Parser σ ε α) (value : β) :
    Parser.notAhead inner value =
      Parser.adjusted (fun _ _ => Outcome.negated value) inner := by
  funext source start
  refine bind_congr fun outcome => ?_
  cases outcome <;> rfl

theorem filter_eq_adjusted (inner : Parser σ ε α) (accepts : α → Bool) :
    Parser.filter inner accepts =
      Parser.adjusted (fun _ _ => Outcome.accepted accepts) inner := by
  funext source start
  refine bind_congr fun outcome => ?_
  cases outcome with
  | failure => rfl
  | success width value =>
      by_cases passes : accepts value <;> simp [Outcome.accepted, passes]

theorem recognize_eq_adjusted (inner : Parser σ ε α) (read : List ε → β) :
    Parser.recognize inner read =
      Parser.adjusted (fun source start => Outcome.reread read source start) inner := by
  funext source start
  refine bind_congr fun outcome => ?_
  cases outcome with
  | failure => rfl
  | success width value =>
      cases found : window source start width <;> simp [Outcome.reread, found]

/-! ### Effects around an attempt -/

/-- Has an effect before and an effect after every attempt. -/
def attended (enter : Array ε → Nat → σ → σ) (leave : Array ε → Nat → Outcome α → σ → σ)
    (inner : Parser σ ε α) : Parser σ ε α := fun source start => do
  modify (enter source start)
  let outcome ← inner source start
  modify (leave source start outcome)
  return outcome

theorem before_eq_attended (hook : Array ε → Nat → σ → σ) (inner : Parser σ ε α) :
    Parser.before hook inner = Parser.attended hook (fun _ _ _ => id) inner := by
  funext source start state
  cases finished : inner source start (hook source start state) <;>
    simp [Parser.before, attended, Bind.bind, StateT.bind, finished]

theorem onSuccess_eq_attended (hook : Array ε → Nat → Nat → α → σ → σ) (inner : Parser σ ε α) :
    Parser.onSuccess hook inner =
      Parser.attended (fun _ _ => id)
        (fun source start outcome =>
          match outcome with
          | .success width value => hook source start width value
          | .failure => id) inner := by
  funext source start state
  cases finished : inner source start state with
  | none => simp [Parser.onSuccess, attended, Bind.bind, StateT.bind, finished]
  | some result =>
      obtain ⟨outcome, final⟩ := result
      cases outcome <;> simp [Parser.onSuccess, attended, Bind.bind, StateT.bind, finished]

theorem onFailure_eq_attended (hook : Array ε → Nat → σ → σ) (inner : Parser σ ε α) :
    Parser.onFailure hook inner =
      Parser.attended (fun _ _ => id)
        (fun source start outcome =>
          match outcome with
          | .success _ _ => id
          | .failure => hook source start) inner := by
  funext source start state
  cases finished : inner source start state with
  | none => simp [Parser.onFailure, attended, Bind.bind, StateT.bind, finished]
  | some result =>
      obtain ⟨outcome, final⟩ := result
      cases outcome <;> simp [Parser.onFailure, attended, Bind.bind, StateT.bind, finished]

/-! ### Outcomes that choose how to go on -/

theorem sequence_eq_bind (first : Parser σ ε α) (second : Parser σ ε β)
    (combine : α → β → γ) :
    Parser.sequence first second combine =
      Parser.bind first fun outcome =>
        match outcome with
        | .success _ value => Parser.map second (combine value)
        | .failure => Parser.fail := by
  funext source start
  refine bind_congr fun outcome => ?_
  cases outcome with
  | failure => rfl
  | success width value =>
      simp only [Parser.map, Outcome.advance, bind_assoc, pure_bind]
      refine bind_congr fun following => ?_
      cases following <;> simp [Outcome.advancedBy, Nat.add_comm]

theorem choice_eq_bind (first second : Parser σ ε α) :
    Parser.choice first second =
      Parser.bind first fun outcome =>
        match outcome with
        | .success _ value => Parser.succeed value
        | .failure => second := by
  funext source start
  refine bind_congr fun outcome => ?_
  cases outcome with
  | failure => simp [Outcome.advance]
  | success width value => simp [Parser.succeed, Outcome.advance, Outcome.advancedBy]

/-! ### Loops -/

theorem repeatLoop_succ (item : Parser σ ε α) (collector : Collector (StateM σ) α β)
    (bounds : RepeatBounds) (source : Array ε) (start rounds count width : Nat)
    (accumulator : collector.Accumulator) :
    repeatLoop item collector bounds source start (rounds + 1) count width accumulator =
      if bounds.allowsMore count then do
        match ← item source (start + width) with
        | .success itemWidth value =>
            let accumulator ← Attempt.ofEffect (collector.accumulate accumulator value)
            repeatLoop item collector bounds source start rounds (count + 1) (width + itemWidth)
              accumulator
        | .failure => closeRepetition collector bounds count width accumulator
      else
        closeRepetition collector bounds count width accumulator :=
  rfl

theorem closeRepetition_drop (collector : Collector (StateM σ) α β) (bounds : RepeatBounds)
    (first offset count width : Nat) (accumulator : collector.Accumulator) :
    closeRepetition collector bounds (first + count) (offset + width) accumulator = (do
      let outcome ← closeRepetition collector (bounds.drop first) count width accumulator
      return outcome.advancedBy offset) := by
  unfold closeRepetition
  by_cases few : first + count < bounds.minimum
  · have fewLeft : count < bounds.minimum - first := by omega
    simp [few, fewLeft, Outcome.advancedBy]
  · have enoughLeft : ¬ count < bounds.minimum - first := by omega
    simp [few, enoughLeft, Outcome.advancedBy, Nat.add_comm]

/-- After some matches a repetition goes on like a repetition from the position reached, with
fewer matches to make. -/
theorem repeatLoop_drop (item : Parser σ ε α) (collector : Collector (StateM σ) α β)
    (bounds : RepeatBounds) (source : Array ε) (start first offset rounds count width : Nat)
    (accumulator : collector.Accumulator) :
    repeatLoop item collector bounds source start rounds (first + count) (offset + width)
        accumulator = (do
      let outcome ← repeatLoop item collector (bounds.drop first) source (start + offset) rounds
        count width accumulator
      return outcome.advancedBy offset) := by
  induction rounds generalizing count width accumulator with
  | zero => rfl
  | succ rounds induction =>
      unfold repeatLoop
      rw [bounds.allowsMore_drop]
      by_cases more : bounds.allowsMore (first + count)
      · simp only [more, if_true, bind_assoc, Nat.add_assoc]
        refine bind_congr fun outcome => ?_
        cases outcome with
        | failure => exact closeRepetition_drop collector bounds first offset count width _
        | success itemWidth value =>
            simp only [bind_assoc]
            refine bind_congr fun accumulator => ?_
            exact induction (count + 1) (width + itemWidth) accumulator
      · simp only [more, if_false, Bool.false_eq_true]
        exact closeRepetition_drop collector bounds first offset count width accumulator

/-- A loop does not ask its collector for an accumulator. -/
theorem repeatLoop_suppliedBy (item : Parser σ ε α) (collector : Collector (StateM σ) α β)
    (supply : StateM σ collector.Accumulator) (bounds : RepeatBounds) (source : Array ε)
    (start rounds count width : Nat) (accumulator : collector.Accumulator) :
    repeatLoop item (collector.suppliedBy supply) bounds source start rounds count width
        accumulator =
      repeatLoop item collector bounds source start rounds count width accumulator := by
  induction rounds generalizing count width accumulator with
  | zero => rfl
  | succ rounds induction =>
      unfold repeatLoop
      by_cases more : bounds.allowsMore count
      · simp only [more, if_true]
        refine bind_congr fun outcome => ?_
        cases outcome with
        | failure => rfl
        | success itemWidth value =>
            exact bind_congr fun accumulator => induction (count + 1) _ accumulator
      · simp only [more, if_false, Bool.false_eq_true]
        rfl

/-- A loop that has matched `offset` elements is a repetition from there on. -/
theorem repeatLoop_eq_repeated (item : Parser σ ε α) (collector : Collector (StateM σ) α β)
    (bounds : RepeatBounds) (source : Array ε) (start first offset rounds : Nat)
    (accumulator : collector.Accumulator) :
    repeatLoop item collector bounds source start rounds first offset accumulator = (do
      let outcome ← Parser.repeated rounds item (collector.startingFrom accumulator)
        (bounds.drop first) source (start + offset)
      return outcome.advancedBy offset) := by
  have begun : Parser.repeated rounds item (collector.startingFrom accumulator)
      (bounds.drop first) source (start + offset) =
        repeatLoop item collector (bounds.drop first) source (start + offset) rounds 0 0
          accumulator :=
    repeatLoop_suppliedBy item collector (pure accumulator) _ source _ rounds 0 0 accumulator
  rw [begun]
  exact repeatLoop_drop item collector bounds source start first offset rounds 0 0 accumulator

/-- How a repetition goes on after the first attempt of its item. -/
def afterItem (rounds : Nat) (item : Parser σ ε α) (collector : Collector (StateM σ) α β)
    (bounds : RepeatBounds) (source : Array ε) (start : Nat)
    (accumulator : collector.Accumulator) : Outcome α → Attempt σ (Outcome β)
  | .success width value => do
      let accumulator ← Attempt.ofEffect (collector.accumulate accumulator value)
      Parser.repeated rounds item (collector.startingFrom accumulator) (bounds.drop 1) source
        (start + width)
  | .failure => closeRepetition collector bounds 0 0 accumulator

/-- A repetition is an item and a repetition of what is left. -/
theorem repeated_succ (rounds : Nat) (item : Parser σ ε α)
    (collector : Collector (StateM σ) α β) (bounds : RepeatBounds) (source : Array ε)
    (start : Nat) :
    Parser.repeated (rounds + 1) item collector bounds source start = (do
      let accumulator ← Attempt.ofEffect collector.supply
      if bounds.allowsMore 0 then
        let outcome ← item source start
        let result ← afterItem rounds item collector bounds source start accumulator outcome
        return result.advancedBy outcome.advance
      else
        closeRepetition collector bounds 0 0 accumulator) := by
  refine bind_congr fun accumulator => ?_
  unfold repeatLoop
  by_cases more : bounds.allowsMore 0
  · simp only [more, if_true, Nat.add_zero]
    refine bind_congr fun outcome => ?_
    cases outcome with
    | failure => simp [afterItem, Outcome.advance]
    | success width value =>
        simp only [afterItem, bind_assoc]
        refine bind_congr fun accumulator => ?_
        rw [Nat.zero_add, Nat.zero_add]
        exact repeatLoop_eq_repeated item collector bounds source start 1 width rounds accumulator
  · simp only [more, if_false, Bool.false_eq_true]

/-- The loop of a delimited list repeats pairs of a delimiter and an item. -/
theorem delimitedLoop_eq_repeatLoop (item : Parser σ ε α) (delimiter : Parser σ ε β)
    (combine : β → α → γ) (collector : Collector (StateM σ) γ δ) (source : Array ε)
    (start rounds count width : Nat) (accumulator : collector.Accumulator) :
    delimitedLoop item delimiter combine collector source start rounds width accumulator =
      repeatLoop (Parser.sequence delimiter item combine) collector .zeroOrMore source start
        rounds count width accumulator := by
  induction rounds generalizing count width accumulator with
  | zero => rfl
  | succ rounds induction =>
      unfold delimitedLoop repeatLoop delimitedPair Parser.sequence
      simp only [RepeatBounds.allowsMore, RepeatBounds.zeroOrMore, RepeatBounds.atLeast, if_true,
        bind_assoc]
      refine bind_congr fun separator => ?_
      cases separator with
      | failure => rfl
      | success delimiterWidth delimiterValue =>
          simp only [bind_assoc]
          refine bind_congr fun value => ?_
          cases value with
          | failure => rfl
          | success itemWidth itemValue =>
              simp only [pure_bind]
              refine bind_congr fun accumulator => ?_
              exact induction (count + 1) _ accumulator

/-- The loop of a separated list repeats pairs of which only the item counts. -/
theorem separatedLoop_eq_repeatLoop (item : Parser σ ε α) (delimiter : Parser σ ε β)
    (collector : Collector (StateM σ) α δ) (source : Array ε)
    (start rounds count width : Nat) (accumulator : collector.Accumulator) :
    separatedLoop item delimiter collector source start rounds width accumulator =
      repeatLoop (Parser.sequence delimiter item fun _ value => value) collector .zeroOrMore
        source start rounds count width accumulator := by
  rw [← delimitedLoop_eq_repeatLoop]
  induction rounds generalizing width accumulator with
  | zero => rfl
  | succ rounds induction =>
      unfold separatedLoop delimitedLoop
      refine bind_congr fun pair? => ?_
      cases pair? with
      | none => rfl
      | some pair => exact bind_congr fun accumulator => induction _ accumulator

theorem delimited_eq_bind (rounds : Nat) (item : Parser σ ε α) (delimiter : Parser σ ε β)
    (combine : β → α → γ) (headCollector : α → Collector (StateM σ) γ δ) :
    Parser.delimited rounds item delimiter combine headCollector =
      Parser.bind item fun outcome =>
        match outcome with
        | .success _ head =>
            Parser.repeated rounds (Parser.sequence delimiter item combine) (headCollector head)
              .zeroOrMore
        | .failure => Parser.fail := by
  funext source start
  refine bind_congr fun outcome => ?_
  cases outcome with
  | failure => rfl
  | success width head =>
      simp only [Parser.repeated, bind_assoc]
      refine bind_congr fun accumulator => ?_
      rw [delimitedLoop_eq_repeatLoop item delimiter combine (headCollector head) source start
        rounds 0]
      exact repeatLoop_drop _ (headCollector head) .zeroOrMore source start 0 width rounds 0 0
        accumulator

theorem separated_eq_bind (rounds : Nat) (item : Parser σ ε α) (delimiter : Parser σ ε β)
    (collector : Collector (StateM σ) α δ) :
    Parser.separated rounds item delimiter collector =
      Parser.bind item fun outcome =>
        match outcome with
        | .success _ head =>
            Parser.repeated rounds (Parser.sequence delimiter item fun _ value => value)
              (collector.accept head) .zeroOrMore
        | .failure => Parser.fail := by
  funext source start
  refine bind_congr fun outcome => ?_
  cases outcome with
  | failure => rfl
  | success width head =>
      have supplied : Parser.repeated rounds (Parser.sequence delimiter item fun _ value => value)
          (collector.accept head) .zeroOrMore source (start + width) = (do
            let empty ← Attempt.ofEffect collector.supply
            let accumulator ← Attempt.ofEffect (collector.accumulate empty head)
            repeatLoop (Parser.sequence delimiter item fun _ value => value) collector .zeroOrMore
              source (start + width) rounds 0 0 accumulator) :=
        bind_congr fun accumulator => repeatLoop_suppliedBy _ collector _ _ source _ rounds 0 0 _
      simp only [Outcome.advance, supplied, bind_assoc]
      refine bind_congr fun empty => bind_congr fun accumulator => ?_
      rw [separatedLoop_eq_repeatLoop item delimiter collector source start rounds 0]
      exact repeatLoop_drop _ collector .zeroOrMore source start 0 width rounds 0 0 accumulator

end Parser

end RecursiveDescent
