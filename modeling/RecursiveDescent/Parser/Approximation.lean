import RecursiveDescent.Parser.Instrumentation
import RecursiveDescent.Parser.Memoization
import RecursiveDescent.Parser.Repetition

/-!
# Approximation of parsers

One parser approximates another when all that it finishes, the other finishes with the same
result; where it is unfinished, the other may do anything.  A larger allotment of steps turns a
parser into one that it approximates.  Every combinator respects approximation, and the loops
respect it also in the number of rounds: these are the statements of this file, one for each
combinator.
-/

namespace RecursiveDescent

variable {σ ε ν α β γ δ : Type}

namespace Attempt

/-- Whatever `first` finishes, `second` finishes with the same result. -/
def Approximates (first second : Attempt σ α) : Prop :=
  ∀ state result, first state = some result → second state = some result

namespace Approximates

theorem refl (attempt : Attempt σ α) : attempt.Approximates attempt :=
  fun _ _ finished => finished

theorem trans {first second third : Attempt σ α} (left : first.Approximates second)
    (right : second.Approximates third) : first.Approximates third :=
  fun state result finished => right state result (left state result finished)

theorem unfinished (attempt : Attempt σ α) : Attempt.unfinished.Approximates attempt := by
  intro state result finished
  cases finished

theorem followedBy {first second : Attempt σ α} {next other : α → Attempt σ β}
    (beginning : first.Approximates second)
    (continuation : ∀ result, (next result).Approximates (other result)) :
    Approximates (first >>= next) (second >>= other) := by
  intro state result finished
  simp only [Bind.bind, StateT.bind, Option.bind_eq_some_iff] at finished ⊢
  obtain ⟨⟨middle, changed⟩, begun, ended⟩ := finished
  exact ⟨(middle, changed), beginning _ _ begun, continuation _ _ _ ended⟩

end Approximates

end Attempt

namespace Parser

/-- Whatever `first` finishes on any source at any position, `second` finishes with the same
result. -/
def Approximates (first second : Parser σ ε α) : Prop :=
  ∀ source start, (first source start).Approximates (second source start)

namespace Approximates

open Attempt.Approximates (followedBy)

theorem refl (parser : Parser σ ε α) : parser.Approximates parser :=
  fun _ _ => .refl _

theorem trans {first second third : Parser σ ε α} (left : first.Approximates second)
    (right : second.Approximates third) : first.Approximates third :=
  fun source start => (left source start).trans (right source start)

variable {inner other : Parser σ ε α} {next following : Parser σ ε β}

theorem sequence (first : inner.Approximates other) (second : next.Approximates following)
    (combine : α → β → γ) :
    (Parser.sequence inner next combine).Approximates (Parser.sequence other following combine) :=
  fun source start => followedBy (first source start) fun outcome =>
    match outcome with
    | .failure => .refl _
    | .success _ _ => followedBy (second source _) fun _ => .refl _

theorem choice {alternative replacement : Parser σ ε α} (first : inner.Approximates other)
    (second : alternative.Approximates replacement) :
    (Parser.choice inner alternative).Approximates (Parser.choice other replacement) :=
  fun source start => followedBy (first source start) fun outcome =>
    match outcome with
    | .failure => second source start
    | .success _ _ => .refl _

theorem optional (approximates : inner.Approximates other) (fallback : α) :
    (Parser.optional inner fallback).Approximates (Parser.optional other fallback) :=
  fun source start => followedBy (approximates source start) fun _ => .refl _

theorem ahead (approximates : inner.Approximates other) :
    (Parser.ahead inner).Approximates (Parser.ahead other) :=
  fun source start => followedBy (approximates source start) fun _ => .refl _

theorem notAhead (approximates : inner.Approximates other) (value : β) :
    (Parser.notAhead inner value).Approximates (Parser.notAhead other value) :=
  fun source start => followedBy (approximates source start) fun _ => .refl _

theorem binding {binder choosing : Outcome α → Parser σ ε β}
    (first : inner.Approximates other)
    (second : ∀ outcome, (binder outcome).Approximates (choosing outcome)) :
    (Parser.bind inner binder).Approximates (Parser.bind other choosing) :=
  fun source start => followedBy (first source start) fun outcome =>
    followedBy (second outcome source _) fun _ => .refl _

theorem map (approximates : inner.Approximates other) (function : α → β) :
    (Parser.map inner function).Approximates (Parser.map other function) :=
  fun source start => followedBy (approximates source start) fun _ => .refl _

theorem tryMap (approximates : inner.Approximates other) (function : α → Option β) :
    (Parser.tryMap inner function).Approximates (Parser.tryMap other function) :=
  fun source start => followedBy (approximates source start) fun _ => .refl _

theorem filter (approximates : inner.Approximates other) (accepts : α → Bool) :
    (Parser.filter inner accepts).Approximates (Parser.filter other accepts) :=
  fun source start => followedBy (approximates source start) fun _ => .refl _

theorem recognize (approximates : inner.Approximates other) (read : List ε → β) :
    (Parser.recognize inner read).Approximates (Parser.recognize other read) :=
  fun source start => followedBy (approximates source start) fun _ => .refl _

/-! ### Loops -/

theorem repeatLoop (approximates : inner.Approximates other)
    (collector : Collector (StateM σ) α β) (bounds : RepeatBounds) (source : Array ε)
    (start : Nat) {rounds more : Nat} (enough : rounds ≤ more) (count width : Nat)
    (accumulator : collector.Accumulator) :
    (Parser.repeatLoop inner collector bounds source start rounds count width
      accumulator).Approximates
      (Parser.repeatLoop other collector bounds source start more count width accumulator) := by
  induction rounds generalizing more count width accumulator with
  | zero => exact .unfinished _
  | succ rounds induction =>
    obtain ⟨more, rfl⟩ : ∃ fewer, more = fewer + 1 := ⟨more - 1, by omega⟩
    unfold Parser.repeatLoop
    split
    · refine followedBy (approximates source _) fun outcome => ?_
      cases outcome with
      | failure => exact .refl _
      | success itemWidth value =>
        exact followedBy (.refl _) fun accumulator => induction (by omega) _ _ accumulator
    · exact .refl _

theorem repeated (approximates : inner.Approximates other)
    (collector : Collector (StateM σ) α β) (bounds : RepeatBounds) {rounds more : Nat}
    (enough : rounds ≤ more) :
    (Parser.repeated rounds inner collector bounds).Approximates
      (Parser.repeated more other collector bounds) :=
  fun source start => followedBy (.refl _) fun accumulator =>
    approximates.repeatLoop collector bounds source start enough 0 0 accumulator

theorem delimitedPair (item : inner.Approximates other) (delimiter : next.Approximates following)
    (source : Array ε) (start : Nat) :
    (Parser.delimitedPair inner next source start).Approximates
      (Parser.delimitedPair other following source start) :=
  followedBy (delimiter source start) fun outcome =>
    match outcome with
    | .failure => .refl _
    | .success _ _ => followedBy (item source _) fun _ => .refl _

theorem delimitedLoop (item : inner.Approximates other) (delimiter : next.Approximates following)
    (combine : β → α → γ) (collector : Collector (StateM σ) γ δ) (source : Array ε)
    (start : Nat) {rounds more : Nat} (enough : rounds ≤ more) (width : Nat)
    (accumulator : collector.Accumulator) :
    (Parser.delimitedLoop inner next combine collector source start rounds width
      accumulator).Approximates
      (Parser.delimitedLoop other following combine collector source start more width
        accumulator) := by
  induction rounds generalizing more width accumulator with
  | zero => exact .unfinished _
  | succ rounds induction =>
    obtain ⟨more, rfl⟩ : ∃ fewer, more = fewer + 1 := ⟨more - 1, by omega⟩
    unfold Parser.delimitedLoop
    refine followedBy (item.delimitedPair delimiter source _) fun pair? => ?_
    cases pair? with
    | none => exact .refl _
    | some pair => exact followedBy (.refl _) fun accumulator => induction (by omega) _ accumulator

theorem delimited (item : inner.Approximates other) (delimiter : next.Approximates following)
    (combine : β → α → γ) (headCollector : α → Collector (StateM σ) γ δ) {rounds more : Nat}
    (enough : rounds ≤ more) :
    (Parser.delimited rounds inner next combine headCollector).Approximates
      (Parser.delimited more other following combine headCollector) :=
  fun source start => followedBy (item source start) fun outcome =>
    match outcome with
    | .failure => .refl _
    | .success width head => followedBy (.refl _) fun accumulator =>
      item.delimitedLoop delimiter combine (headCollector head) source start enough width
        accumulator

theorem separatedLoop (item : inner.Approximates other) (delimiter : next.Approximates following)
    (collector : Collector (StateM σ) α δ) (source : Array ε) (start : Nat) {rounds more : Nat}
    (enough : rounds ≤ more) (width : Nat) (accumulator : collector.Accumulator) :
    (Parser.separatedLoop inner next collector source start rounds width
      accumulator).Approximates
      (Parser.separatedLoop other following collector source start more width accumulator) := by
  induction rounds generalizing more width accumulator with
  | zero => exact .unfinished _
  | succ rounds induction =>
    obtain ⟨more, rfl⟩ : ∃ fewer, more = fewer + 1 := ⟨more - 1, by omega⟩
    unfold Parser.separatedLoop
    refine followedBy (item.delimitedPair delimiter source _) fun pair? => ?_
    cases pair? with
    | none => exact .refl _
    | some pair => exact followedBy (.refl _) fun accumulator => induction (by omega) _ accumulator

theorem separated (item : inner.Approximates other) (delimiter : next.Approximates following)
    (collector : Collector (StateM σ) α δ) {rounds more : Nat} (enough : rounds ≤ more) :
    (Parser.separated rounds inner next collector).Approximates
      (Parser.separated more other following collector) :=
  fun source start => followedBy (item source start) fun outcome =>
    match outcome with
    | .failure => .refl _
    | .success width _ => followedBy (.refl _) fun _ => followedBy (.refl _) fun accumulator =>
      item.separatedLoop delimiter collector source start enough width accumulator

/-! ### Effects and memo tables -/

theorem before (approximates : inner.Approximates other) (hook : Array ε → Nat → σ → σ) :
    (Parser.before hook inner).Approximates (Parser.before hook other) :=
  fun source start => followedBy (.refl _) fun _ => approximates source start

theorem onSuccess (approximates : inner.Approximates other)
    (hook : Array ε → Nat → Nat → α → σ → σ) :
    (Parser.onSuccess hook inner).Approximates (Parser.onSuccess hook other) :=
  fun source start => followedBy (approximates source start) fun _ => .refl _

theorem onFailure (approximates : inner.Approximates other) (hook : Array ε → Nat → σ → σ) :
    (Parser.onFailure hook inner).Approximates (Parser.onFailure hook other) :=
  fun source start => followedBy (approximates source start) fun _ => .refl _

theorem memoized {inner other : Parser (ParserState ν) ε ν}
    (approximates : inner.Approximates other) (cell : Nat) :
    (Parser.memoized cell inner).Approximates (Parser.memoized cell other) := by
  intro source start
  refine followedBy (.refl _) fun state => ?_
  cases (state.table cell).lookup? start with
  | some entry => exact .refl _
  | none =>
    exact followedBy (.refl _) fun _ => followedBy (approximates source start) fun _ => .refl _

theorem withFreshTables {inner other : Parser (ParserState ν) ε α}
    (approximates : inner.Approximates other) (cells : List Nat) :
    (Parser.withFreshTables cells inner).Approximates (Parser.withFreshTables cells other) :=
  fun source start => followedBy (.refl _) fun _ => followedBy (.refl _) fun _ =>
    followedBy (approximates source start) fun _ => .refl _

end Approximates

end Parser

end RecursiveDescent
