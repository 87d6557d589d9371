import RecursiveDescent.GrammarRun
import RecursiveDescent.Parser.Approximation

/-!
# More steps keep a finished run

A run with a larger allotment of steps is approximated by the run with the smaller one, so the
allotment only decides whether a run is finished and never how.  `Grammar.Finishes` states that
some allotment suffices, and `Finishes.unique` that the result does not depend on which one.
-/

namespace RecursiveDescent

variable {ε ν : Type}

/-- Invoking a rule respects approximation. -/
theorem Rules.invoke_approximates (rules : Rules ε ν)
    {run other : Grammar ε ν → Parser (ParserState ν) ε ν}
    (definitions : ∀ grammar, (run grammar).Approximates (other grammar)) (index : Nat) :
    (rules.invoke run index).Approximates (rules.invoke other index) := by
  intro source start
  unfold Rules.invoke
  split
  · exact .followedBy (.refl _) fun _ => definitions _ source start
  · exact definitions _ source start
  · exact .refl _

variable [DecidableEq ε]

/-- Larger allotments for the loops and for the rules give a parser that the smaller ones
approximate. -/
theorem Grammar.parser_approximates {rounds more : Nat} (enough : rounds ≤ more)
    {invoke other : Nat → Parser (ParserState ν) ε ν}
    (rules : ∀ index, (invoke index).Approximates (other index)) (grammar : Grammar ε ν) :
    (grammar.parser rounds invoke).Approximates (grammar.parser more other) := by
  induction grammar with
  | element test value => exact .refl _
  | literal expected value => exact .refl _
  | fixedWidth width read => exact .refl _
  | succeed value => exact .refl _
  | fail => exact .refl _
  | endOfInput value => exact .refl _
  | ofFunction function => exact .refl _
  | sequence first second combine firstCase secondCase =>
    exact firstCase.sequence secondCase combine
  | choice first second firstCase secondCase => exact firstCase.choice secondCase
  | optional inner fallback innerCase => exact innerCase.optional fallback
  | repeated item collector bounds itemCase =>
    exact itemCase.repeated (journaled collector) bounds enough
  | ahead inner innerCase => exact innerCase.ahead
  | notAhead inner value innerCase => exact innerCase.notAhead value
  | delimited item delimiter combine headCollector itemCase delimiterCase =>
    exact itemCase.delimited delimiterCase combine _ enough
  | separated item delimiter collector itemCase delimiterCase =>
    exact itemCase.separated delimiterCase (journaled collector) enough
  | bind first binder firstCase binderCase => exact firstCase.binding binderCase
  | map inner function innerCase => exact innerCase.map function
  | tryMap inner function innerCase => exact innerCase.tryMap function
  | filter inner accepts innerCase => exact innerCase.filter accepts
  | recognize inner read innerCase => exact innerCase.recognize read
  | before tag inner innerCase => exact innerCase.before _
  | onSuccess tag inner innerCase => exact innerCase.onSuccess _
  | onFailure tag inner innerCase => exact innerCase.onFailure _
  | traced name inner innerCase =>
    exact fun source start => .followedBy (.refl _) fun _ =>
      .followedBy (innerCase source start) fun _ => .refl _
  | memoized cell inner innerCase => exact innerCase.memoized cell
  | rebuilt cells inner innerCase => exact innerCase.withFreshTables cells
  | deferred tag inner innerCase => exact innerCase.before _
  | rule index => exact rules index

theorem Grammar.run_approximates (rules : Rules ε ν) {steps more : Nat} (enough : steps ≤ more)
    (grammar : Grammar ε ν) :
    (grammar.run rules steps).Approximates (grammar.run rules more) := by
  induction steps generalizing more grammar with
  | zero =>
    cases more with
    | zero => exact .refl _
    | succ more =>
      exact grammar.parser_approximates (Nat.zero_le _) fun _ _ _ => .unfinished _
  | succ steps induction =>
    obtain ⟨more, rfl⟩ : ∃ fewer, more = fewer + 1 := ⟨more - 1, by omega⟩
    exact grammar.parser_approximates enough
      (rules.invoke_approximates fun definition => induction (by omega) definition)

/-- With some allotment of steps, the grammar finishes with the given outcome and state. -/
def Grammar.Finishes (grammar : Grammar ε ν) (rules : Rules ε ν) (source : Array ε) (start : Nat)
    (state : ParserState ν) (result : Outcome ν × ParserState ν) : Prop :=
  ∃ steps, grammar.run rules steps source start state = some result

/-- The allotment of steps has no influence on the result. -/
theorem Grammar.Finishes.unique {grammar : Grammar ε ν} {rules : Rules ε ν} {source : Array ε}
    {start : Nat} {state : ParserState ν} {first second : Outcome ν × ParserState ν}
    (left : grammar.Finishes rules source start state first)
    (right : grammar.Finishes rules source start state second) : first = second := by
  obtain ⟨steps, finished⟩ := left
  obtain ⟨others, finishedToo⟩ := right
  have fromLeft := grammar.run_approximates rules (Nat.le_max_left steps others) source start
    state first finished
  have fromRight := grammar.run_approximates rules (Nat.le_max_right steps others) source start
    state second finishedToo
  exact Option.some.inj (fromLeft.symm.trans fromRight)

end RecursiveDescent
