import RecursiveDescent.Proofs.DelimitedLists

/-!
# Adapters of collectors and of parsers

A collector can be adapted to other values, to another result or to a first value, and adapters can
be nested in any order.  What a nesting gathers can be read off without running it: each adapter
changes the values before they are gathered or the result behind them.  `Collector.Adapted` writes
a nesting as data, so that the collector it stands for and this reading can be compared.

A parser whose values are gathered can be adapted as well, and then it makes no difference on which
side the adapter stands.  The equations between parsers hold for any number of rounds and on states
of any type.  So they cover the attempts that fail, those that never end, and all effects with
their order.
-/

namespace RecursiveDescent

variable {m : Type → Type} {σ ε α β γ δ κ : Type}

namespace Collector

/-- A collector that passes each step on to another one. -/
def borrowed (collector : Collector m α β) : Collector m α β where
  Accumulator := collector.Accumulator
  supply := collector.supply
  accumulate accumulator value := collector.accumulate accumulator value
  finish accumulator := collector.finish accumulator

/-! ### What adapted collectors gather -/

section Folds

variable [Monad m] (collector : Collector m α β)

theorem fold_borrowed (values : List α) : collector.borrowed.fold values = collector.fold values :=
  rfl

/-- A first value below a change of values has been changed already. -/
theorem accept_mapInput (function : γ → α) (initial : γ) :
    (collector.mapInput function).accept initial =
      (collector.accept (function initial)).mapInput function :=
  rfl

theorem fold_mapInput (function : γ → α) (values : List γ) :
    (collector.mapInput function).fold values = collector.fold (values.map function) := by
  unfold fold
  simp only [List.foldlM_map]
  rfl

variable [LawfulMonad m]

theorem fold_ofFold (initial : γ) (step : γ → α → γ) (result : γ → β) (values : List α) :
    (ofFold initial step result : Collector m α β).fold values =
      pure (result (values.foldl step initial)) := by
  unfold fold
  simp only [ofFold, pure_bind, List.foldlM_pure]

theorem fold_andThen (function : β → γ) (values : List α) :
    (collector.andThen function).fold values = function <$> collector.fold values := by
  unfold fold
  simp only [map_bind]
  refine bind_congr fun initial => bind_congr fun final => ?_
  exact bind_pure_comp function (collector.finish final)

theorem fold_accept (initial : α) (values : List α) :
    (collector.accept initial).fold values = collector.fold (initial :: values) := by
  unfold fold
  simp only [List.foldlM_cons, bind_assoc]
  exact bind_assoc _ _ _

end Folds

/-- Adapters around a collector, in any order and number. -/
inductive Adapted (m : Type → Type) : Type → Type → Type 1 where
  /-- The collector inside. -/
  | base {α β : Type} (collector : Collector m α β) : Adapted m α β
  /-- Each step is passed on. -/
  | borrowed {α β : Type} (inner : Adapted m α β) : Adapted m α β
  /-- Every value is changed on its way in. -/
  | mapInput {α β γ : Type} (function : γ → α) (inner : Adapted m α β) : Adapted m γ β
  /-- The result is changed on its way out. -/
  | andThen {α β γ : Type} (inner : Adapted m α β) (function : β → γ) : Adapted m α γ
  /-- A given value is taken in before any other. -/
  | accept {α β : Type} (inner : Adapted m α β) (initial : α) : Adapted m α β

namespace Adapted

variable [Monad m]

/-- The collector that a nesting of adapters stands for. -/
def collector {α β : Type} : Adapted m α β → Collector m α β
  | .base collector => collector
  | .borrowed inner => inner.collector.borrowed
  | .mapInput function inner => inner.collector.mapInput function
  | .andThen inner function => inner.collector.andThen function
  | .accept inner initial => inner.collector.accept initial

/-- What a nesting of adapters makes of some values, read off from the outside in. -/
def reading {α β : Type} : Adapted m α β → List α → m β
  | .base collector, values => collector.fold values
  | .borrowed inner, values => inner.reading values
  | .mapInput function inner, values => inner.reading (values.map function)
  | .andThen inner function, values => function <$> inner.reading values
  | .accept inner initial, values => inner.reading (initial :: values)

theorem fold_collector [LawfulMonad m] {α β : Type} (nesting : Adapted m α β) (values : List α) :
    nesting.collector.fold values = nesting.reading values := by
  induction nesting with
  | base collector => rfl
  | borrowed inner innerCase => rw [collector, fold_borrowed, reading, innerCase]
  | mapInput function inner innerCase =>
      rw [collector, fold_mapInput, reading, innerCase]
  | andThen inner function innerCase =>
      rw [collector, fold_andThen, reading, innerCase]
  | accept inner initial innerCase =>
      rw [collector, fold_accept, reading, innerCase]

end Adapted

end Collector

namespace Parser

/-! ### Adapters in a repetition -/

variable (item : Parser σ ε α) (collector : Collector (StateM σ) β γ) (bounds : RepeatBounds)

theorem repeatLoop_mapInput (function : α → β) (source : Array ε)
    (start rounds count width : Nat) (accumulator : collector.Accumulator) :
    repeatLoop item (collector.mapInput function) bounds source start rounds count width
        accumulator =
      repeatLoop (Parser.map item function) collector bounds source start rounds count width
        accumulator := by
  induction rounds generalizing count width accumulator with
  | zero => rfl
  | succ rounds induction =>
      refine (repeatLoop_succ item (collector.mapInput function) bounds source start rounds count
        width accumulator).trans ?_
      rw [repeatLoop_succ]
      by_cases more : bounds.allowsMore count
      · simp only [more, if_true, Parser.map, bind_assoc, pure_bind]
        refine bind_congr fun outcome => ?_
        cases outcome with
        | failure => rfl
        | success itemWidth value =>
            exact bind_congr fun accumulator => induction (count + 1) _ accumulator
      · simp only [more, if_false, Bool.false_eq_true]
        rfl

theorem repeated_mapInput (rounds : Nat) (function : α → β) :
    Parser.repeated rounds item (collector.mapInput function) bounds =
      Parser.repeated rounds (Parser.map item function) collector bounds := by
  funext source start
  refine bind_congr fun accumulator => ?_
  exact repeatLoop_mapInput item collector bounds function source start rounds 0 0 accumulator

theorem closeRepetition_andThen (collector : Collector (StateM σ) α β) (function : β → γ)
    (count width : Nat) (accumulator : collector.Accumulator) :
    closeRepetition (collector.andThen function) bounds count width accumulator = (do
      let outcome ← closeRepetition collector bounds count width accumulator
      return outcome.map function) := by
  unfold closeRepetition
  by_cases few : count < bounds.minimum
  · simp [few]
  · simp only [few, if_false]
    rfl

theorem repeatLoop_andThen (collector : Collector (StateM σ) α β) (function : β → γ)
    (source : Array ε) (start rounds count width : Nat) (accumulator : collector.Accumulator) :
    repeatLoop item (collector.andThen function) bounds source start rounds count width
        accumulator = (do
      let outcome ← repeatLoop item collector bounds source start rounds count width accumulator
      return outcome.map function) := by
  induction rounds generalizing count width accumulator with
  | zero => rfl
  | succ rounds induction =>
      refine (repeatLoop_succ item (collector.andThen function) bounds source start rounds count
        width accumulator).trans ?_
      rw [repeatLoop_succ]
      by_cases more : bounds.allowsMore count
      · simp only [more, if_true, bind_assoc]
        refine bind_congr fun outcome => ?_
        cases outcome with
        | failure => exact closeRepetition_andThen bounds collector function count width _
        | success itemWidth value =>
            simp only [bind_assoc]
            exact bind_congr fun accumulator => induction (count + 1) _ accumulator
      · simp only [more, if_false, Bool.false_eq_true]
        exact closeRepetition_andThen bounds collector function count width accumulator

theorem repeated_andThen (rounds : Nat) (collector : Collector (StateM σ) α β)
    (function : β → γ) :
    Parser.repeated rounds item (collector.andThen function) bounds =
      Parser.map (Parser.repeated rounds item collector bounds) function := by
  funext source start
  unfold Parser.map Parser.repeated
  simp only [bind_assoc]
  refine bind_congr fun accumulator => ?_
  exact repeatLoop_andThen item bounds collector function source start rounds 0 0 accumulator

/-! ### Adapters in a list -/

theorem map_sequence (first : Parser σ ε α) (second : Parser σ ε β) (combine : α → β → γ)
    (function : γ → δ) :
    Parser.map (Parser.sequence first second combine) function =
      Parser.sequence first second fun left right => function (combine left right) := by
  funext source start
  unfold Parser.map Parser.sequence
  simp only [bind_assoc]
  refine bind_congr fun outcome => ?_
  cases outcome with
  | failure => rfl
  | success width value =>
      simp only [bind_assoc]
      refine bind_congr fun outcome => ?_
      cases outcome <;> rfl

theorem sequence_map (first : Parser σ ε α) (second : Parser σ ε β) (function : β → γ)
    (combine : α → γ → δ) :
    Parser.sequence first (Parser.map second function) combine =
      Parser.sequence first second fun left right => combine left (function right) := by
  funext source start
  unfold Parser.map Parser.sequence
  refine bind_congr fun outcome => ?_
  cases outcome with
  | failure => rfl
  | success width value =>
      simp only [bind_assoc, pure_bind]
      refine bind_congr fun outcome => ?_
      cases outcome <;> rfl

theorem bind_map (first : Parser σ ε α) (function : α → β) (binder : Outcome β → Parser σ ε γ) :
    Parser.bind (Parser.map first function) binder =
      Parser.bind first fun outcome => binder (outcome.map function) := by
  funext source start
  unfold Parser.map Parser.bind
  simp only [bind_assoc, pure_bind]
  refine bind_congr fun outcome => ?_
  cases outcome <;> rfl

theorem delimited_mapInput (rounds : Nat) (item : Parser σ ε α) (delimiter : Parser σ ε β)
    (combine : β → α → γ) (function : γ → δ) (headCollector : α → Collector (StateM σ) δ κ) :
    (Parser.delimited rounds item delimiter combine fun head =>
        (headCollector head).mapInput function) =
      Parser.delimited rounds item delimiter
        (fun separator value => function (combine separator value)) headCollector := by
  rw [delimited_eq_bind, delimited_eq_bind]
  congr 1
  funext outcome
  cases outcome with
  | failure => rfl
  | success width head =>
      dsimp only
      rw [repeated_mapInput, map_sequence]

theorem delimited_map (rounds : Nat) (item : Parser σ ε α) (delimiter : Parser σ ε β)
    (function : α → γ) (combine : β → γ → δ) (headCollector : γ → Collector (StateM σ) δ κ) :
    Parser.delimited rounds (Parser.map item function) delimiter combine headCollector =
      Parser.delimited rounds item delimiter
        (fun separator value => combine separator (function value))
        fun head => headCollector (function head) := by
  rw [delimited_eq_bind, delimited_eq_bind, bind_map]
  congr 1
  funext outcome
  cases outcome with
  | failure => rfl
  | success width head =>
      dsimp only [Outcome.map_success]
      rw [sequence_map]

/-- The first item of the list is changed before the collector accepts it, like the others. -/
theorem separated_mapInput (rounds : Nat) (item : Parser σ ε α) (delimiter : Parser σ ε δ)
    (function : α → β) (collector : Collector (StateM σ) β γ) :
    Parser.separated rounds item delimiter (collector.mapInput function) =
      Parser.separated rounds (Parser.map item function) delimiter collector := by
  calc
    Parser.separated rounds item delimiter (collector.mapInput function)
      = Parser.delimited rounds item delimiter (fun _ value => value) fun head =>
          (collector.accept (function head)).mapInput function := by
        simp only [← Collector.accept_mapInput]
        exact separated_eq_delimited rounds item delimiter (collector.mapInput function)
    _ = Parser.delimited rounds item delimiter (fun _ value => function value) fun head =>
          collector.accept (function head) :=
        delimited_mapInput rounds item delimiter _ function _
    _ = Parser.delimited rounds (Parser.map item function) delimiter (fun _ value => value)
          collector.accept :=
        (delimited_map rounds item delimiter function (fun _ value => value) collector.accept).symm
    _ = Parser.separated rounds (Parser.map item function) delimiter collector :=
        (separated_eq_delimited rounds _ delimiter collector).symm

/-- Any nesting of adapters gathers what its reading says.  In a repetition and in a separated
list a change of the values can be made by the collector or by the item, and in a repetition a
change of the result by the collector or by the parser. -/
theorem adapters_agree (σ : Type) :
    (∀ {α β : Type} (nesting : Collector.Adapted (StateM σ) α β) (values : List α),
        nesting.collector.fold values = nesting.reading values) ∧
      (∀ {ε α β γ δ : Type} (rounds : Nat) (item : Parser σ ε α) (delimiter : Parser σ ε δ)
        (function : α → β) (collector : Collector (StateM σ) β γ) (bounds : RepeatBounds),
        Parser.repeated rounds item (collector.mapInput function) bounds =
            Parser.repeated rounds (Parser.map item function) collector bounds ∧
          Parser.separated rounds item delimiter (collector.mapInput function) =
            Parser.separated rounds (Parser.map item function) delimiter collector) ∧
        ∀ {ε α β γ : Type} (rounds : Nat) (item : Parser σ ε α)
          (collector : Collector (StateM σ) α β) (function : β → γ) (bounds : RepeatBounds),
          Parser.repeated rounds item (collector.andThen function) bounds =
            Parser.map (Parser.repeated rounds item collector bounds) function := by
  refine ⟨?_, ?_, ?_⟩
  · intro α β nesting values
    exact nesting.fold_collector values
  · intro ε α β γ δ rounds item delimiter function collector bounds
    constructor
    · exact repeated_mapInput item collector bounds rounds function
    · exact separated_mapInput rounds item delimiter function collector
  · intro ε α β γ rounds item collector function bounds
    exact repeated_andThen item bounds rounds collector function

end Parser

/-! ### Adapters in grammars -/

namespace Grammar

variable {ν : Type}

/-- Changing the result of a collector announces nothing. -/
theorem journaled_andThen (collector : ValueCollector ν) (function : ν → ν) :
    journaled (collector.andThen function) = (journaled collector).andThen function := by
  have finished (accumulator : collector.Accumulator) :
      ParserState.absorb ((collector.andThen function).finish accumulator) =
        ((journaled collector).andThen function).finish accumulator := by
    funext state
    unfold ParserState.absorb
    simp only [Collector.andThen, Emission.emitted_bind, Emission.emitted_pure, List.append_nil]
    rfl
  exact congrArg (fun finish => { journaled collector with finish := finish }) (funext finished)

variable [DecidableEq ε] (rules : Rules ε ν) (steps : Nat) (item delimiter : Grammar ε ν)
  (collector : ValueCollector ν) (function : ν → ν)

theorem run_repeated_mapInput (bounds : RepeatBounds) :
    (repeated item (collector.mapInput function) bounds).run rules steps =
      (repeated (map item function) collector bounds).run rules steps := by
  have fused := Parser.repeated_mapInput (item.run rules steps) (journaled collector) bounds steps
    function
  cases steps <;> exact fused

theorem run_separated_mapInput :
    (separated item delimiter (collector.mapInput function)).run rules steps =
      (separated (map item function) delimiter collector).run rules steps := by
  have fused := Parser.separated_mapInput steps (item.run rules steps)
    (delimiter.run rules steps) function (journaled collector)
  cases steps <;> exact fused

theorem run_repeated_andThen (bounds : RepeatBounds) :
    (repeated item (collector.andThen function) bounds).run rules steps =
      (map (repeated item collector bounds) function).run rules steps := by
  have fused := Parser.repeated_andThen (item.run rules steps) bounds steps (journaled collector)
    function
  rw [← journaled_andThen] at fused
  cases steps <;> exact fused

end Grammar

end RecursiveDescent
