import RecursiveDescent.GrammarRun.Allotment
import RecursiveDescent.MachineRun
import RecursiveDescent.Proofs.Consumption
import RecursiveDescent.Proofs.Engine
import RecursiveDescent.Proofs.TableEffects

/-!
# Runs on a machine

What a machine finishes is finished in the same way with natural numbers, since it only gives up
more often.  The converse holds as long as no sum exceeds a word.  That is so for every grammar
whose functions on positions do not lead beyond the words: every other construct that starts at a
word ends at a word, when the source is one that the words can address.  So on such sources the two
runs are equal, and what is true of one is true of the other.

The proof follows both runs at once.  An attempt is *mirrored* when whatever it finishes from a good
state, the other one finishes alike, and again in a good state; good are the states whose memo
tables lead to words only.
-/

namespace RecursiveDescent

variable {σ ε ν α β γ δ : Type}

/-! ### What a machine finishes -/

theorem Attempt.passing_eq_some_iff {test : α → Bool} {attempt : Attempt σ α} {state : σ}
    {result : α × σ} :
    attempt.passing test state = some result ↔
      test result.1 ∧ attempt state = some result := by
  obtain ⟨value, final⟩ := result
  unfold passing
  rw [bind_eq_some_iff]
  constructor
  · rintro ⟨found, middle, finished, ended⟩
    by_cases passes : test found
    · rw [if_pos passes] at ended
      cases ended
      exact ⟨passes, finished⟩
    · rw [if_neg passes] at ended
      cases ended
  · rintro ⟨passes, finished⟩
    exact ⟨value, final, finished, by rw [if_pos passes]; rfl⟩

namespace Parser

variable {inner other : Parser σ ε α} {source : Array ε} {start : Nat} {state : σ}
  {result : Outcome α × σ}

theorem withinWords_eq_some_iff :
    inner.withinWords source start state = some result ↔
      start < 2 ^ 64 ∧ result.1.advance < 2 ^ 64 ∧ inner source start state = some result := by
  unfold withinWords
  by_cases word : start < 2 ^ 64
  · simp [word, Attempt.passing_eq_some_iff]
  · simp [word, Attempt.unfinished]

theorem endingInWord_eq_some_iff :
    inner.endingInWord source start state = some result ↔
      start + result.1.advance < 2 ^ 64 ∧ inner source start state = some result := by
  unfold endingInWord
  simp [Attempt.passing_eq_some_iff]

theorem withinWords_idem : inner.withinWords.withinWords = inner.withinWords := by
  funext source start state
  refine Option.ext fun result => ?_
  simp only [withinWords_eq_some_iff]
  constructor
  · exact fun finished => finished.2.2
  · exact fun finished => ⟨finished.1, finished.2.1, finished⟩

namespace Approximates

theorem withinWords (approximates : inner.Approximates other) :
    inner.withinWords.Approximates other :=
  fun source start state result finished =>
    approximates source start state result (withinWords_eq_some_iff.mp finished).2.2

theorem endingInWord (approximates : inner.Approximates other) :
    inner.endingInWord.Approximates other :=
  fun source start state result finished =>
    approximates source start state result (endingInWord_eq_some_iff.mp finished).2

end Approximates

end Parser

namespace Grammar

variable [DecidableEq ε] {rules : Rules ε ν}

theorem machineParser_approximates (rounds : Nat) {invoke other : Nat → Parser (ParserState ν) ε ν}
    (rules : ∀ index, (invoke index).Approximates (other index)) (grammar : Grammar ε ν) :
    (grammar.machineParser rounds invoke).Approximates (grammar.parser rounds other) := by
  induction grammar with
  | element _ _ | literal _ _ | fixedWidth _ _ | succeed _ | fail | endOfInput _ | ofFunction _ =>
      exact Parser.Approximates.withinWords (.refl _)
  | rule index => exact (rules index).withinWords
  | sequence first second combine firstCase secondCase =>
      exact (firstCase.sequence secondCase combine).withinWords
  | choice first second firstCase secondCase => exact (firstCase.choice secondCase).withinWords
  | optional inner fallback innerCase => exact (innerCase.optional fallback).withinWords
  | repeated item collector bounds itemCase =>
      exact (itemCase.repeated (journaled collector) bounds (Nat.min_le_left _ _)).withinWords
  | ahead inner innerCase => exact innerCase.ahead.withinWords
  | notAhead inner value innerCase => exact (innerCase.notAhead value).withinWords
  | delimited item delimiter combine headCollector itemCase delimiterCase =>
      exact (itemCase.delimited delimiterCase combine _ (Nat.le_refl _)).withinWords
  | separated item delimiter collector itemCase delimiterCase =>
      exact (itemCase.separated delimiterCase (journaled collector) (Nat.le_refl _)).withinWords
  | bind first binder firstCase binderCase => exact (firstCase.binding binderCase).withinWords
  | map inner function innerCase => exact (innerCase.map function).withinWords
  | tryMap inner function innerCase => exact (innerCase.tryMap function).withinWords
  | filter inner accepts innerCase => exact (innerCase.filter accepts).withinWords
  | recognize inner read innerCase => exact (innerCase.endingInWord.recognize read).withinWords
  | before tag inner innerCase => exact (innerCase.before _).withinWords
  | onSuccess tag inner innerCase => exact (innerCase.onSuccess _).withinWords
  | onFailure tag inner innerCase => exact (innerCase.onFailure _).withinWords
  | traced name inner innerCase =>
      have traced : (tracing name (inner.machineParser rounds invoke)).Approximates
          (tracing name (inner.parser rounds other)) :=
        fun source start => .followedBy (.refl _) fun _ =>
          .followedBy (innerCase source start) fun _ => .refl _
      exact traced.withinWords
  | memoized cell inner innerCase => exact (innerCase.memoized cell).withinWords
  | rebuilt cells inner innerCase => exact (innerCase.withFreshTables cells).withinWords
  | deferred tag inner innerCase => exact (innerCase.before _).withinWords

/-- What a machine finishes is the result of the run with natural numbers. -/
theorem runOnMachine_approximates (rules : Rules ε ν) (steps : Nat) (grammar : Grammar ε ν) :
    (grammar.runOnMachine rules steps).Approximates (grammar.run rules steps) := by
  induction steps generalizing grammar with
  | zero => exact machineParser_approximates 0 (fun _ _ _ => .unfinished _) grammar
  | succ steps induction =>
      exact machineParser_approximates _ (rules.invoke_approximates induction) grammar

theorem parseOnMachine_approximates (rules : Rules ε ν) (source : Array ε) (start : Nat)
    (grammar : Grammar ε ν) :
    (grammar.parseOnMachine rules source start).Approximates
      (grammar.parseFrom rules source start) :=
  grammar.runOnMachine_approximates rules amplySteps source start

theorem parseCompleteOnMachine_approximates (rules : Rules ε ν) (source : Array ε)
    (grammar : Grammar ε ν) :
    (grammar.parseCompleteOnMachine rules source).Approximates
      (grammar.parseComplete rules source) :=
  .followedBy (grammar.parseOnMachine_approximates rules source 0) fun _ => .refl _

end Grammar

/-! ### Mirrored attempts -/

/-- Whatever the first attempt finishes from a good state, the second one finishes with the same
result, which satisfies the postcondition, and in a good state. -/
def Attempt.MirroredBy (good : σ → Prop) (post : α → Prop) (first second : Attempt σ α) : Prop :=
  ∀ state result, good state → first state = some result →
    second state = some result ∧ good result.2 ∧ post result.1

namespace Attempt.MirroredBy

variable {good : σ → Prop} {post : α → Prop} {following : β → Prop}

theorem returning {value : α} (holds : post value) :
    MirroredBy good post (pure value) (pure value) := by
  intro state result begins finished
  cases finished
  exact ⟨rfl, begins, holds⟩

theorem unfinished (second : Attempt σ α) : MirroredBy good post Attempt.unfinished second := by
  intro state result begins finished
  cases finished

theorem followedBy {first second : Attempt σ α} {next other : α → Attempt σ β}
    (beginning : MirroredBy good post first second)
    (continuation : ∀ value, post value → MirroredBy good following (next value) (other value)) :
    MirroredBy good following (first >>= next) (second >>= other) := by
  intro state result begins finished
  obtain ⟨value, middle, begun, ended⟩ := (bind_eq_some_iff _ _ _ _).mp finished
  obtain ⟨begunToo, kept, holds⟩ := beginning state _ begins begun
  obtain ⟨endedToo, after⟩ := continuation value holds middle result kept ended
  exact ⟨(bind_eq_some_iff _ _ _ _).mpr ⟨value, middle, begunToo, endedToo⟩, after⟩

theorem effect {effect : StateM σ α} (keeps : ∀ state, good state → good (effect state).2) :
    MirroredBy good (fun _ => True) (Attempt.ofEffect effect) (Attempt.ofEffect effect) := by
  intro state result begins finished
  cases finished
  exact ⟨rfl, keeps state begins, trivial⟩

theorem change {change : σ → σ} (keeps : ∀ state, good state → good (change state)) :
    MirroredBy good (fun _ => True) (modify change : Attempt σ PUnit) (modify change) := by
  intro state result begins finished
  cases finished
  exact ⟨rfl, keeps state begins, trivial⟩

end Attempt.MirroredBy

/-- The outcome of an attempt at this position leads to a word. -/
def Outcome.LeadsToWord (start : Nat) (outcome : Outcome α) : Prop :=
  start + outcome.advance < 2 ^ 64

/-- None of the steps of a collector leads from a good state to another one. -/
structure Collector.Keeps (good : σ → Prop) (collector : Collector (StateM σ) α β) : Prop where
  supply : ∀ state, good state → good (collector.supply state).2
  accumulate : ∀ accumulator value state, good state →
    good (collector.accumulate accumulator value state).2
  finish : ∀ accumulator state, good state → good (collector.finish accumulator state).2

theorem Collector.Keeps.accept {good : σ → Prop} {collector : Collector (StateM σ) α β}
    (keeps : collector.Keeps good) (head : α) : (collector.accept head).Keeps good where
  supply state begins := keeps.accumulate _ head _ (keeps.supply state begins)
  accumulate := keeps.accumulate
  finish := keeps.finish

namespace Parser

/-- The attempts from words on are mirrored, and lead to words. -/
def MirroredBy (good : σ → Prop) (source : Array ε) (first second : Parser σ ε α) : Prop :=
  ∀ start < 2 ^ 64, Attempt.MirroredBy good (Outcome.LeadsToWord start) (first source start)
    (second source start)

namespace MirroredBy

open Attempt.MirroredBy (returning followedBy effect change)

variable {good : σ → Prop} {source : Array ε} {inner other : Parser σ ε α}

theorem withinWords (mirrored : MirroredBy good source inner other) :
    MirroredBy good source inner other.withinWords := by
  intro start word state result begins finished
  obtain ⟨finishedToo, kept, leads⟩ := mirrored start word state result begins finished
  unfold Outcome.LeadsToWord at leads
  exact ⟨withinWords_eq_some_iff.mpr ⟨word, by omega, finishedToo⟩, kept, leads⟩

theorem endingInWord (mirrored : MirroredBy good source inner other) :
    MirroredBy good source inner other.endingInWord := by
  intro start word state result begins finished
  obtain ⟨finishedToo, kept, leads⟩ := mirrored start word state result begins finished
  exact ⟨endingInWord_eq_some_iff.mpr ⟨leads, finishedToo⟩, kept, leads⟩

theorem ofFunction {function : Array ε → Nat → Outcome α}
    (leads : ∀ start < 2 ^ 64, (function source start).LeadsToWord start) :
    MirroredBy good source (Parser.ofFunction function) (Parser.ofFunction function) :=
  fun start word => returning (leads start word)

theorem adjusted {adjust : Array ε → Nat → Outcome α → Outcome β}
    (shorter : ∀ start outcome, (adjust source start outcome).advance ≤ outcome.advance)
    (mirrored : MirroredBy good source inner other) :
    MirroredBy good source (Parser.adjusted adjust inner) (Parser.adjusted adjust other) :=
  fun start word => followedBy (mirrored start word) fun outcome leads =>
    returning (Nat.lt_of_le_of_lt (Nat.add_le_add_left (shorter start outcome) start) leads)

theorem attended {enter : Array ε → Nat → σ → σ} {leave : Array ε → Nat → Outcome α → σ → σ}
    (entering : ∀ start state, good state → good (enter source start state))
    (leaving : ∀ start outcome state, good state → good (leave source start outcome state))
    (mirrored : MirroredBy good source inner other) :
    MirroredBy good source (Parser.attended enter leave inner)
      (Parser.attended enter leave other) :=
  fun start word => followedBy (change (entering start)) fun _ _ =>
    followedBy (mirrored start word) fun outcome leads =>
      followedBy (change (leaving start outcome)) fun _ _ => returning leads

theorem bind {binder choosing : Outcome α → Parser σ ε β}
    (first : MirroredBy good source inner other)
    (second : ∀ outcome, MirroredBy good source (binder outcome) (choosing outcome)) :
    MirroredBy good source (Parser.bind inner binder) (Parser.bind other choosing) := by
  refine fun start word => followedBy (first start word) fun outcome leads =>
    followedBy (second outcome _ leads) fun result leadsOn => returning ?_
  have total := result.advance_advancedBy_le outcome.advance
  unfold Outcome.LeadsToWord at leadsOn ⊢
  omega

theorem succeed (value : α) :
    MirroredBy good source (Parser.succeed value) (Parser.succeed value) :=
  fun _ word => returning word

theorem fail : MirroredBy good source (Parser.fail : Parser σ ε α) Parser.fail :=
  fun _ word => returning word

theorem map (function : α → β) (mirrored : MirroredBy good source inner other) :
    MirroredBy good source (Parser.map inner function) (Parser.map other function) := by
  have shorter (_ : Nat) (outcome : Outcome α) :
      (outcome.map function).advance ≤ outcome.advance := by
    cases outcome <;> exact Nat.le_refl _
  exact adjusted shorter mirrored

theorem tryMap (function : α → Option β) (mirrored : MirroredBy good source inner other) :
    MirroredBy good source (Parser.tryMap inner function) (Parser.tryMap other function) := by
  have shorter (_ : Nat) (outcome : Outcome α) :
      (outcome.filterMap function).advance ≤ outcome.advance := by
    cases outcome with
    | failure => exact Nat.le_refl _
    | success width value =>
        cases found : function value <;>
          simp [Outcome.filterMap, found, Outcome.ofParts, Outcome.advance]
  exact adjusted shorter mirrored

theorem sequence {next following : Parser σ ε β} (combine : α → β → γ)
    (first : MirroredBy good source inner other)
    (second : MirroredBy good source next following) :
    MirroredBy good source (Parser.sequence inner next combine)
      (Parser.sequence other following combine) := by
  rw [sequence_eq_bind, sequence_eq_bind]
  refine first.bind fun outcome => ?_
  cases outcome with
  | success width value => exact second.map (combine value)
  | failure => exact fail

theorem choice {alternative replacement : Parser σ ε α}
    (first : MirroredBy good source inner other)
    (second : MirroredBy good source alternative replacement) :
    MirroredBy good source (Parser.choice inner alternative)
      (Parser.choice other replacement) := by
  rw [choice_eq_bind, choice_eq_bind]
  refine first.bind fun outcome => ?_
  cases outcome with
  | success width value => exact succeed value
  | failure => exact second

theorem closeRepetition {collector : Collector (StateM σ) α β} (keeps : collector.Keeps good)
    (bounds : RepeatBounds) {start width : Nat} (count : Nat)
    (accumulator : collector.Accumulator) (leads : start + width < 2 ^ 64) :
    Attempt.MirroredBy good (Outcome.LeadsToWord start)
      (Parser.closeRepetition collector bounds count width accumulator)
      (Parser.closeRepetition collector bounds count width accumulator) := by
  unfold Parser.closeRepetition
  split
  · exact returning (Nat.lt_of_le_of_lt (Nat.le_add_right start width) leads)
  · exact followedBy (effect (keeps.finish accumulator)) fun _ _ => returning leads

theorem repeatLoop {collector : Collector (StateM σ) α β} (keeps : collector.Keeps good)
    (bounds : RepeatBounds) (mirrored : MirroredBy good source inner other)
    {start width : Nat} (rounds count : Nat) (accumulator : collector.Accumulator)
    (leads : start + width < 2 ^ 64) :
    Attempt.MirroredBy good (Outcome.LeadsToWord start)
      (Parser.repeatLoop inner collector bounds source start rounds count width accumulator)
      (Parser.repeatLoop other collector bounds source start rounds count width accumulator) := by
  induction rounds generalizing count width accumulator with
  | zero => exact .unfinished _
  | succ rounds induction =>
      unfold Parser.repeatLoop
      split
      · refine followedBy (mirrored (start + width) leads) fun outcome leadsOn => ?_
        cases outcome with
        | failure => exact closeRepetition keeps bounds count accumulator leads
        | success itemWidth value =>
            rw [Outcome.LeadsToWord, Outcome.advance, Nat.add_assoc] at leadsOn
            exact followedBy (effect (keeps.accumulate accumulator value)) fun accumulator _ =>
              induction (count + 1) accumulator leadsOn
      · exact closeRepetition keeps bounds count accumulator leads

theorem repeated {collector : Collector (StateM σ) α β} (keeps : collector.Keeps good)
    (bounds : RepeatBounds) (mirrored : MirroredBy good source inner other) (rounds : Nat) :
    MirroredBy good source (Parser.repeated rounds inner collector bounds)
      (Parser.repeated rounds other collector bounds) :=
  fun _ word => followedBy (effect keeps.supply) fun accumulator _ =>
    repeatLoop keeps bounds mirrored rounds 0 accumulator word

theorem delimited {delimiter marking : Parser σ ε β} (combine : β → α → γ)
    {headCollector : α → Collector (StateM σ) γ δ}
    (keeps : ∀ head, (headCollector head).Keeps good)
    (item : MirroredBy good source inner other)
    (between : MirroredBy good source delimiter marking) (rounds : Nat) :
    MirroredBy good source (Parser.delimited rounds inner delimiter combine headCollector)
      (Parser.delimited rounds other marking combine headCollector) := by
  rw [delimited_eq_bind, delimited_eq_bind]
  refine item.bind fun outcome => ?_
  cases outcome with
  | success width head =>
      exact repeated (keeps head) .zeroOrMore (between.sequence combine item) rounds
  | failure => exact fail

theorem separated {delimiter marking : Parser σ ε β} {collector : Collector (StateM σ) α δ}
    (keeps : collector.Keeps good) (item : MirroredBy good source inner other)
    (between : MirroredBy good source delimiter marking) (rounds : Nat) :
    MirroredBy good source (Parser.separated rounds inner delimiter collector)
      (Parser.separated rounds other marking collector) := by
  rw [separated_eq_bind, separated_eq_bind]
  refine item.bind fun outcome => ?_
  cases outcome with
  | success width head =>
      exact repeated (keeps.accept head) .zeroOrMore (between.sequence _ item) rounds
  | failure => exact fail

end MirroredBy

end Parser

/-! ### Memo tables -/

namespace ParserState

/-- Every remembered match leads to a word, as it does where nothing is remembered. -/
def InWords (state : ParserState ν) : Prop :=
  ∀ cell position width value,
    (state.table cell).lookup? position = some (width, value) → position + width < 2 ^ 64

variable {state former : ParserState ν}

theorem InWords.record (inWords : state.InWords) (event : Event ν) :
    (state.record event).InWords :=
  inWords

theorem InWords.absorb (inWords : state.InWords) (emission : Emission (Event ν) α) :
    (ParserState.absorb emission state).2.InWords := by
  unfold ParserState.absorb
  induction emission.emitted generalizing state with
  | nil => exact inWords
  | cons event events induction => exact induction (inWords.record event)

theorem InWords.answered (inWords : state.InWords) (cell start width : Nat) :
    (state.answered cell start width).InWords := by
  intro other position width value found
  rw [lookup?_answered] at found
  exact inWords other position width value found

theorem InWords.missed (inWords : state.InWords) (cell start : Nat) :
    (state.missed cell start).InWords := by
  intro other position width value found
  rw [lookup?_missed] at found
  exact inWords other position width value found

theorem InWords.remembering (inWords : state.InWords) (cell : Nat) {start : Nat}
    {outcome : Outcome ν} (leads : outcome.LeadsToWord start) :
    (state.remembering cell start outcome).InWords := by
  cases outcome with
  | failure => exact inWords
  | success consumed result =>
      intro other position width value found
      rw [lookup?_remembering_success] at found
      by_cases here : cell = other ∧ start = position
      · rw [if_pos here] at found
        cases found
        rw [← here.2]
        exact leads
      · rw [if_neg here] at found
        exact inWords other position width value found

theorem InWords.cleared (inWords : state.InWords) (cells : List Nat) :
    (state.cleared cells).InWords := by
  intro cell position width value found
  rw [table_cleared] at found
  split at found
  · rw [MemoTable.lookup?_empty] at found
    cases found
  · exact inWords cell position width value found

theorem InWords.restored (inWords : state.InWords) (formerly : former.InWords)
    (cells : List Nat) : (ParserState.restored cells former state).InWords := by
  intro cell position width value found
  rw [table_restored] at found
  split at found
  · exact formerly cell position width value found
  · exact inWords cell position width value found

end ParserState

theorem Grammar.keeps_journaled (collector : ValueCollector ν) :
    (journaled collector).Keeps ParserState.InWords where
  supply _ inWords := inWords.absorb collector.supply
  accumulate accumulator value _ inWords := inWords.absorb (collector.accumulate accumulator value)
  finish accumulator _ inWords := inWords.absorb (collector.finish accumulator)

namespace Parser.MirroredBy

variable {source : Array ε} {inner other : Parser (ParserState ν) ε ν}

theorem memoized (cell : Nat) (mirrored : MirroredBy ParserState.InWords source inner other) :
    MirroredBy ParserState.InWords source (Parser.memoized cell inner)
      (Parser.memoized cell other) := by
  intro start word state result inWords finished
  cases remembered : (state.table cell).lookup? start with
  | some entry =>
      rw [memoized_of_remembered _ _ _ _ _ remembered] at finished ⊢
      cases finished
      exact ⟨rfl, inWords.answered _ _ _, inWords cell start _ _ remembered⟩
  | none =>
      rw [memoized_of_forgotten _ _ _ _ _ remembered] at finished ⊢
      obtain ⟨⟨outcome, middle⟩, begun, ended⟩ := Option.map_eq_some_iff.mp finished
      obtain ⟨begunToo, kept, leads⟩ :=
        mirrored start word _ _ (inWords.missed cell start) begun
      cases ended
      rw [begunToo]
      exact ⟨rfl, kept.remembering cell leads, leads⟩

theorem withFreshTables (cells : List Nat)
    (mirrored : MirroredBy ParserState.InWords source inner other) :
    MirroredBy ParserState.InWords source (Parser.withFreshTables cells inner)
      (Parser.withFreshTables cells other) := by
  intro start word state result inWords finished
  rw [withFreshTables_apply] at finished ⊢
  obtain ⟨⟨outcome, middle⟩, begun, ended⟩ := Option.map_eq_some_iff.mp finished
  obtain ⟨begunToo, kept, leads⟩ := mirrored start word _ _ (inWords.cleared cells) begun
  cases ended
  rw [begunToo]
  exact ⟨rfl, kept.restored inWords cells, leads⟩

end Parser.MirroredBy

/-! ### Equal runs -/

theorem Outcome.Inside.leadsToWord {source : Array ε} {start : Nat} {outcome : Outcome α}
    (inside : outcome.Inside source start) (spanned : source.size < lastPosition)
    (word : start < 2 ^ 64) : outcome.LeadsToWord start := by
  unfold Outcome.LeadsToWord
  rcases inside with nothing | ⟨-, ends⟩
  · omega
  · have bounded := ends spanned
    unfold lastPosition at spanned
    omega

namespace Grammar

/-- Functions on positions lead from words to words, on this source. -/
def Reaching (source : Array ε) : Grammar ε ν → Prop
  | .ofFunction function => ∀ start < 2 ^ 64, (function source start).LeadsToWord start
  | _ => True

theorem reaching_of_functionFree {source : Array ε} {grammar : Grammar ε ν}
    (functionFree : grammar.FunctionFree) :
    grammar.Throughout (Reaching source) := by
  refine functionFree.mono fun construct noFunction => ?_
  cases construct with
  | ofFunction function => exact noFunction.elim
  | _ => trivial

variable [DecidableEq ε] {rules : Rules ε ν} {source : Array ε}

theorem mirroredBy_machineParser (spanned : source.size < lastPosition) {rounds : Nat}
    (few : rounds ≤ 2 ^ 64) {invoke other : Nat → Parser (ParserState ν) ε ν}
    (invoked : ∀ index, Parser.MirroredBy ParserState.InWords source (invoke index) (other index))
    {grammar : Grammar ε ν} (reaching : grammar.Throughout (Reaching source)) :
    Parser.MirroredBy ParserState.InWords source (grammar.parser rounds invoke)
      (grammar.machineParser rounds other) := by
  induction grammar with
  | element test value =>
      simp only [parser, machineParser, Parser.element_eq_ofFunction]
      exact .withinWords (.ofFunction fun start word =>
        (Outcome.ofElement_inside test value).leadsToWord spanned word)
  | literal expected value =>
      simp only [parser, machineParser, Parser.literal_eq_ofFunction]
      exact .withinWords (.ofFunction fun start word =>
        (Outcome.ofLiteral_inside expected value).leadsToWord spanned word)
  | fixedWidth width read =>
      simp only [parser, machineParser, Parser.fixedWidth_eq_ofFunction]
      exact .withinWords (.ofFunction fun start word =>
        (Outcome.ofFixedWidth_inside width read).leadsToWord spanned word)
  | endOfInput value =>
      simp only [parser, machineParser, Parser.endOfInput_eq_ofFunction]
      exact .withinWords (.ofFunction fun start word =>
        (Outcome.ofEnd_inside value).leadsToWord spanned word)
  | succeed value => exact .withinWords (.succeed value)
  | fail => exact .withinWords .fail
  | ofFunction function => exact .withinWords (.ofFunction reaching)
  | sequence first second combine firstCase secondCase =>
      exact .withinWords ((firstCase reaching.2.1).sequence combine (secondCase reaching.2.2))
  | choice first second firstCase secondCase =>
      exact .withinWords ((firstCase reaching.2.1).choice (secondCase reaching.2.2))
  | optional inner fallback innerCase =>
      simp only [parser, machineParser, Parser.optional_eq_adjusted]
      refine .withinWords ((innerCase reaching.2).adjusted fun _ outcome => ?_)
      cases outcome <;> exact Nat.le_refl _
  | repeated item collector bounds itemCase =>
      simp only [parser, machineParser, Nat.min_eq_left few]
      exact .withinWords (.repeated (keeps_journaled collector) bounds (itemCase reaching.2) rounds)
  | ahead inner innerCase =>
      simp only [parser, machineParser, Parser.ahead_eq_adjusted]
      refine .withinWords ((innerCase reaching.2).adjusted fun _ outcome => ?_)
      cases outcome <;> exact Nat.zero_le _
  | notAhead inner value innerCase =>
      simp only [parser, machineParser, Parser.notAhead_eq_adjusted]
      refine .withinWords ((innerCase reaching.2).adjusted fun _ outcome => ?_)
      cases outcome <;> exact Nat.zero_le _
  | delimited item delimiter combine headCollector itemCase delimiterCase =>
      exact .withinWords ((itemCase reaching.2.1).delimited combine
        (fun head => keeps_journaled (headCollector head)) (delimiterCase reaching.2.2) rounds)
  | separated item delimiter collector itemCase delimiterCase =>
      exact .withinWords ((itemCase reaching.2.1).separated (keeps_journaled collector)
        (delimiterCase reaching.2.2) rounds)
  | bind first binder firstCase binderCase =>
      exact .withinWords ((firstCase reaching.2.1).bind fun outcome =>
        binderCase outcome (reaching.2.2 outcome))
  | map inner function innerCase => exact .withinWords ((innerCase reaching.2).map function)
  | tryMap inner function innerCase =>
      exact .withinWords ((innerCase reaching.2).tryMap function)
  | filter inner accepts innerCase =>
      have shape : (Grammar.filter inner accepts).form #[] source =
          .adjusted inner fun _ => Outcome.accepted accepts := rfl
      simp only [parser, machineParser, Parser.filter_eq_adjusted]
      exact .withinWords ((innerCase reaching.2).adjusted (advance_adjusted_le shape))
  | recognize inner read innerCase =>
      have shape : (Grammar.recognize inner read).form #[] source =
          .adjusted inner (Outcome.reread read source) := rfl
      simp only [parser, machineParser, Parser.recognize_eq_adjusted]
      exact .withinWords
        ((innerCase reaching.2).endingInWord.adjusted (advance_adjusted_le shape))
  | before tag inner innerCase =>
      simp only [parser, machineParser, Parser.before_eq_attended]
      exact .withinWords ((innerCase reaching.2).attended (fun _ _ inWords => inWords.record _)
        fun _ _ _ inWords => inWords)
  | onSuccess tag inner innerCase =>
      simp only [parser, machineParser, Parser.onSuccess_eq_attended]
      refine .withinWords ((innerCase reaching.2).attended (fun _ _ inWords => inWords)
        fun _ outcome _ inWords => ?_)
      cases outcome with
      | success width value => exact inWords.record _
      | failure => exact inWords
  | onFailure tag inner innerCase =>
      simp only [parser, machineParser, Parser.onFailure_eq_attended]
      refine .withinWords ((innerCase reaching.2).attended (fun _ _ inWords => inWords)
        fun _ outcome _ inWords => ?_)
      cases outcome with
      | success width value => exact inWords
      | failure => exact inWords.record _
  | traced name inner innerCase =>
      simp only [parser, machineParser, tracing_eq_attended]
      refine .withinWords ((innerCase reaching.2).attended (fun _ _ inWords => inWords.record _)
        fun _ outcome _ inWords => ?_)
      cases outcome <;> exact inWords.record _
  | memoized cell inner innerCase => exact .withinWords ((innerCase reaching.2).memoized cell)
  | rebuilt cells inner innerCase =>
      exact .withinWords ((innerCase reaching.2).withFreshTables cells)
  | deferred tag inner innerCase =>
      simp only [parser, machineParser, Parser.before_eq_attended]
      exact .withinWords ((innerCase reaching.2).attended (fun _ _ inWords => inWords.record _)
        fun _ _ _ inWords => inWords)
  | rule index => exact (invoked index).withinWords

end Grammar

namespace Rules

variable {rules : Rules ε ν} {source : Array ε}

theorem mirroredBy_invoke {run other : Grammar ε ν → Parser (ParserState ν) ε ν}
    (reaching : rules.Throughout (Grammar.Reaching source))
    (definitions : ∀ grammar : Grammar ε ν, grammar.Throughout (Grammar.Reaching source) →
      Parser.MirroredBy ParserState.InWords source (run grammar) (other grammar)) (index : Nat) :
    Parser.MirroredBy ParserState.InWords source (rules.invoke run index)
      (rules.invoke other index) := by
  intro start word
  have body := reaching index
  unfold body? at body
  unfold invoke
  cases found : rules[index]? with
  | none =>
      exact .followedBy (.change fun state inWords => inWords.record _) fun _ _ =>
        .returning word
  | some rule =>
      rw [found] at body
      cases rule with
      | recursive tag cells definition =>
          refine .followedBy (.change fun state inWords => ?_) fun _ _ =>
            definitions _ (body _ rfl) start word
          cases tag with
          | none => exact inWords
          | some tag => exact inWords.record _
      | forward definition =>
          cases definition with
          | none =>
              exact .followedBy (.change fun state inWords => inWords.record _) fun _ _ =>
                .returning word
          | some definition => exact definitions definition (body _ rfl) start word

end Rules

namespace Grammar

variable [DecidableEq ε] {rules : Rules ε ν} {source : Array ε}

theorem mirroredBy_runOnMachine (spanned : source.size < lastPosition)
    (rulesReaching : rules.Throughout (Reaching source)) {steps : Nat} (few : steps ≤ 2 ^ 64)
    {grammar : Grammar ε ν} (reaching : grammar.Throughout (Reaching source)) :
    Parser.MirroredBy ParserState.InWords source (grammar.run rules steps)
      (grammar.runOnMachine rules steps) := by
  induction steps generalizing grammar with
  | zero =>
      exact mirroredBy_machineParser spanned few (fun _ _ _ => .unfinished _) reaching
  | succ steps induction =>
      refine mirroredBy_machineParser spanned few (fun index => ?_) reaching
      exact Rules.mirroredBy_invoke rulesReaching (fun _ inside => induction (by omega) inside)
        index

/-- On a source that words can address, a machine does what the run with natural numbers does, if
functions on positions lead from words to words and so do the matches that are remembered. -/
theorem runOnMachine_eq_run (spanned : source.size < lastPosition)
    (rulesReaching : rules.Throughout (Reaching source)) {grammar : Grammar ε ν}
    (reaching : grammar.Throughout (Reaching source)) {steps : Nat} (few : steps ≤ 2 ^ 64)
    {start : Nat} (word : start < 2 ^ 64) {state : ParserState ν} (inWords : state.InWords) :
    grammar.runOnMachine rules steps source start state =
      grammar.run rules steps source start state := by
  refine Option.ext fun result => ⟨?_, fun finished => ?_⟩
  · exact grammar.runOnMachine_approximates rules steps source start state result
  · exact (mirroredBy_runOnMachine spanned rulesReaching few reaching start word state result
      inWords finished).1

/-- Grammars without functions on positions parse on a machine as they do with natural numbers, and
leave memo tables on which they do so again. -/
theorem parseOnMachine_eq_parseFrom (spanned : source.size < lastPosition)
    (rulesFunctionFree : rules.FunctionFree) {grammar : Grammar ε ν}
    (functionFree : grammar.FunctionFree) {start : Nat} (word : start < 2 ^ 64)
    {state : ParserState ν} (inWords : state.InWords) :
    grammar.parseOnMachine rules source start state =
        grammar.parseFrom rules source start state ∧
      ∀ outcome final, grammar.parseFrom rules source start state = some (outcome, final) →
        final.InWords := by
  have few : amplySteps ≤ 2 ^ 64 := by decide
  have rulesReaching : rules.Throughout (Reaching source) := fun index body found =>
    reaching_of_functionFree (rulesFunctionFree index body found)
  refine ⟨runOnMachine_eq_run spanned rulesReaching (reaching_of_functionFree functionFree) few word
    inWords, fun outcome final finished => ?_⟩
  exact (mirroredBy_runOnMachine spanned rulesReaching few (reaching_of_functionFree functionFree)
    start word state _ inWords finished).2.1

theorem parseCompleteOnMachine_eq_parseComplete (spanned : source.size < lastPosition)
    (rulesFunctionFree : rules.FunctionFree) {grammar : Grammar ε ν}
    (functionFree : grammar.FunctionFree) {state : ParserState ν} (inWords : state.InWords) :
    grammar.parseCompleteOnMachine rules source state =
      grammar.parseComplete rules source state := by
  have same := (parseOnMachine_eq_parseFrom spanned rulesFunctionFree functionFree
    (Nat.two_pow_pos 64) inWords).1
  exact (congrArg (Option.bind · _) same).trans rfl

end Grammar

end RecursiveDescent
