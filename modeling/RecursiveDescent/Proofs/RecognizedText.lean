import RecursiveDescent.Proofs.Consumption
import RecursiveDescent.Proofs.HookErasure
import RecursiveDescent.Proofs.SoundTables
import RecursiveDescent.Proofs.SpelledText
import RecursiveDescent.Proofs.StandaloneGrammars
import RecursiveDescent.Text.Grammar

/-!
# Recognition is a homomorphism

The text that a composed grammar consumes is composed in the same way from the texts that its
parts consume: for a sequence it is the one text behind the other, for a repetition the texts of
the items in a row, and for a list the text of the first item and then, again and again, the text
of a delimiter and the text of the item behind it.  Recognizing a recognized text changes nothing.

The two sides come to the same outcome and leave the same memo tables after every number of steps,
so one of them ends where the other one does.  Only the announcements of a collector that
recognition leaves out are missing in the journal.

All this is about grammars that do not consume elements behind the end of the source.  What a
grammar consumes may depend on the memo tables, so this is said of tables with some property that
the grammars keep; grammars without functions do so on sound tables.
-/

namespace RecursiveDescent

variable {σ ε ν α β : Type}

/-! ### Attempts that differ in their events -/

namespace ParserState

/-- States with the same memo tables, which have a property. -/
def TablesAlike (valid : Std.HashMap Nat (MemoTable ν) → Prop) (state other : ParserState ν) :
    Prop :=
  state.tables = other.tables ∧ valid state.tables

/-- Neither attempt finishes, or both finish with the same outcome and the same memo tables. -/
def SameButForEvents (first second : Option (Outcome ν × ParserState ν)) : Prop :=
  first.map (fun result => (result.1, result.2.withoutEvents)) =
    second.map fun result => (result.1, result.2.withoutEvents)

variable {valid : Std.HashMap Nat (MemoTable ν) → Prop} {state other : ParserState ν}

theorem tables_absorb (emission : Emission (Event ν) α) (state : ParserState ν) :
    (ParserState.absorb emission state).2.tables = state.tables := by
  unfold ParserState.absorb
  generalize emission.emitted = events
  induction events generalizing state with
  | nil => rfl
  | cons event events induction => exact induction (state.record event)

theorem TablesAlike.absorb (alike : TablesAlike valid state other)
    (emission : Emission (Event ν) α) :
    TablesAlike valid (ParserState.absorb emission state).2 other := by
  unfold TablesAlike
  rw [tables_absorb]
  exact alike

/-- The announcements of a collector do not show in the memo tables. -/
theorem unseen_journaled (valid : Std.HashMap Nat (MemoTable ν) → Prop)
    (collector : ValueCollector ν) :
    (Grammar.journaled collector).Unseen (TablesAlike valid) where
  supply _ _ alike := alike.absorb _
  accumulate _ _ _ _ alike := alike.absorb _
  finish _ _ _ alike := alike.absorb _

theorem sameButForEvents_of_agrees {first second : Attempt (ParserState ν) (Outcome ν)}
    (agrees : first.Agrees (TablesAlike valid) Eq second) {state : ParserState ν}
    (held : valid state.tables) : SameButForEvents (first state) (second state) := by
  have look : TablesAlike valid state state := ⟨rfl, held⟩
  unfold SameButForEvents
  rcases agrees.both look with
    ⟨begun, begunToo⟩ | ⟨result, answer, begun, begunToo, same, sameTables, _⟩
  · rw [begun, begunToo]
  · have equal : result.2.withoutEvents = answer.2.withoutEvents :=
      withoutEvents_eq_iff.mpr sameTables
    simp only [begun, begunToo, Option.map_some, same, equal]

end ParserState

theorem Attempt.eq_of_agrees {holds : σ → Prop} {first second : Attempt σ α}
    (agrees : first.Agrees (fun state other => state = other ∧ holds state) Eq second) {state : σ}
    (held : holds state) : first state = second state := by
  rcases agrees.both ⟨rfl, held⟩ with
    ⟨begun, begunToo⟩ | ⟨result, answer, begun, begunToo, same, sameState, _⟩
  · rw [begun, begunToo]
  · rw [begun, begunToo]
    exact congrArg some (Prod.ext same sameState)

namespace Grammar

/-! ### Runs of sequences and lists -/

section

variable [DecidableEq ε]

theorem run_sequence (rules : Rules ε ν) (steps : Nat) (first second : Grammar ε ν)
    (combine : ν → ν → ν) :
    (sequence first second combine).run rules steps =
      Parser.sequence (first.run rules steps) (second.run rules steps) combine := by
  cases steps <;> rfl

theorem run_separated (rules : Rules ε ν) (steps : Nat) (item delimiter : Grammar ε ν)
    (collector : ValueCollector ν) :
    (separated item delimiter collector).run rules steps =
      Parser.separated steps (item.run rules steps) (delimiter.run rules steps)
        (journaled collector) := by
  cases steps <;> rfl

end

/-! ### Grammars that end inside the source -/

section

variable [DecidableEq ε] {rules : Rules ε ν} {source : Array ε} {owner : Nat → Grammar ε ν}
  {valid : Std.HashMap Nat (MemoTable ν) → Prop} {grammar : Grammar ε ν}

/-- A grammar that starts inside the source, on memo tables with a property, consumes no elements
behind the end of the source and leaves tables with the property. -/
def EndsInside (rules : Rules ε ν) (source : Array ε)
    (valid : Std.HashMap Nat (MemoTable ν) → Prop) (grammar : Grammar ε ν) : Prop :=
  ∀ start ≤ source.size, ∀ (state : ParserState ν), valid state.tables →
    ∀ outcome final, grammar.Finishes rules source start state (outcome, final) →
      start + outcome.advance ≤ source.size ∧ valid final.tables

/-- Grammars without functions end inside the source when they run on sound tables. -/
theorem endsInside_of_functionFree (rulesTabulated : rules.Tabulate owner)
    (tabulated : grammar.Tabulates owner) (functionFree : grammar.FunctionFree)
    (rulesFunctionFree : rules.FunctionFree) (spanned : source.size < lastPosition) :
    grammar.EndsInside rules source fun tables =>
      ({ tables } : ParserState ν).Sound rules source owner := by
  intro start reached state sound outcome final finishes
  obtain ⟨yields, kept⟩ := finishes.yields rulesTabulated tabulated sound
  exact ⟨yields.add_advance_le functionFree rulesFunctionFree spanned reached, kept⟩

theorem EndsInside.run (inside : grammar.EndsInside rules source valid) (steps : Nat) :
    (grammar.run rules steps).EndsInside
      (fun state other => state = other ∧ valid state.tables) source := by
  rintro start reached state _ ⟨rfl, held⟩
  cases finished : grammar.run rules steps source start state with
  | none => exact .none
  | some result =>
      obtain ⟨ends, kept⟩ := inside start reached state held result.1 result.2 ⟨steps, finished⟩
      exact .some ⟨⟨rfl, ends⟩, rfl, kept⟩

/-- A grammar does not read the journal, so it does the same on tables that are alike. -/
theorem EndsInside.run_tablesAlike (inside : grammar.EndsInside rules source valid)
    (steps : Nat) :
    (grammar.run rules steps).EndsInside (ParserState.TablesAlike valid) source := by
  rintro start reached state other ⟨sameTables, held⟩
  have left := grammar.run_withoutEvents rules steps source start state
  have right := grammar.run_withoutEvents rules steps source start other
  rw [← ParserState.withoutEvents_eq_iff.mpr sameTables, ← left] at right
  cases finished : grammar.run rules steps source start state with
  | none =>
      rw [finished, Option.map_none, Option.map_eq_none_iff] at right
      rw [right]
      exact .none
  | some result =>
      rw [finished, Option.map_some, Option.map_eq_some_iff] at right
      obtain ⟨answer, finishedToo, equal⟩ := right
      obtain ⟨sameOutcome, sameState⟩ := Prod.mk.inj equal
      obtain ⟨ends, kept⟩ := inside start reached state held result.1 result.2 ⟨steps, finished⟩
      rw [finishedToo]
      exact .some ⟨⟨sameOutcome.symm, ends⟩, ParserState.withoutEvents_eq_iff.mp sameState.symm,
        kept⟩

end

end Grammar

/-! ### Where a list ends -/

theorem Outcome.exists_of_reread {read : List ε → β} {source : Array ε} {start width : Nat}
    {outcome : Outcome α} {result : β}
    (reread : outcome.reread read source start = .success width result) :
    ∃ value, outcome = .success width value := by
  cases outcome with
  | failure => cases reread
  | success consumed value =>
      unfold Outcome.reread at reread
      cases found : window source start consumed with
      | none => simp [found] at reread
      | some text =>
          simp only [found, Outcome.success.injEq] at reread
          exact ⟨value, by rw [reread.1]⟩

namespace Parser

variable {item : Parser σ ε α} {collector : Collector (StateM σ) α β} {bounds : RepeatBounds}
  {source : Array ε} {start : Nat} {state final : σ}

theorem exists_parts_of_sequence {γ δ : Type} {first : Parser σ ε α} {second : Parser σ ε γ}
    {combine : α → γ → δ} {width : Nat} {value : δ}
    (finished : Parser.sequence first second combine source start state =
      some (.success width value, final)) :
    ∃ before head middle more other,
      first source start state = some (.success before head, middle) ∧
        second source (start + before) middle = some (.success more other, final) ∧
          width = before + more := by
  unfold Parser.sequence at finished
  rw [Attempt.bind_apply, Option.bind_eq_some_iff] at finished
  obtain ⟨⟨outcome, middle⟩, begun, finished⟩ := finished
  cases outcome with
  | failure => cases finished
  | success before head =>
      simp only [Attempt.bind_apply, Option.bind_eq_some_iff] at finished
      obtain ⟨⟨following, last⟩, ended, finished⟩ := finished
      cases following with
      | failure => cases finished
      | success more other =>
          cases finished
          exact ⟨before, head, middle, more, other, begun, ended, rfl⟩

theorem width_of_closeRepetition {count width total : Nat} {accumulator : collector.Accumulator}
    {value : β} (closed : closeRepetition collector bounds count width accumulator state =
      some (.success total value, final)) : width = total := by
  unfold closeRepetition at closed
  split at closed
  · cases closed
  · cases closed
    rfl

/-- What every match of an item keeps up holds where a repetition ends. -/
theorem repeatLoop_invariant (holds : Nat → σ → Prop)
    (kept : ∀ position before width value after, holds position before →
      item source position before = some (.success width value, after) →
        ∀ accumulator, holds (position + width) (collector.accumulate accumulator value after).2)
    {rounds count width total : Nat} {accumulator : collector.Accumulator} {value : β}
    (held : holds (start + width) state)
    (finished : Parser.repeatLoop item collector bounds source start rounds count width
      accumulator state = some (.success total value, final)) :
    ∃ last, holds (start + total) last := by
  induction rounds generalizing count width accumulator state with
  | zero => cases finished
  | succ rounds induction =>
      rw [repeatLoop_succ] at finished
      split at finished
      · rw [Attempt.bind_apply, Option.bind_eq_some_iff] at finished
        obtain ⟨⟨outcome, after⟩, attempt, finished⟩ := finished
        cases outcome with
        | failure =>
            rw [← width_of_closeRepetition finished]
            exact ⟨state, held⟩
        | success itemWidth itemValue =>
            have heldThere := kept _ state itemWidth itemValue after held attempt accumulator
            rw [Nat.add_assoc] at heldThere
            exact induction heldThere finished
      · rw [← width_of_closeRepetition finished]
        exact ⟨state, held⟩

end Parser

namespace Grammar

section

variable [DecidableEq ε]

/-- What was consumed between two positions ends with a match of an item. -/
def MatchesUpTo (rules : Rules ε ν) (source : Array ε)
    (valid : Std.HashMap Nat (MemoTable ν) → Prop) (item : Grammar ε ν) (start stop : Nat) :
    Prop :=
  ∃ position width value before after, start ≤ position ∧ position + width = stop ∧
    valid before.tables ∧ item.Finishes rules source position before (.success width value, after)

/-- A list has come to a position inside the source at which a match of an item ends. -/
structure StandsBehindItem (rules : Rules ε ν) (source : Array ε)
    (valid : Std.HashMap Nat (MemoTable ν) → Prop) (item : Grammar ε ν) (start position : Nat)
    (state : ParserState ν) : Prop where
  inside : position ≤ source.size
  held : valid state.tables
  behind : item.MatchesUpTo rules source valid start position

variable {rules : Rules ε ν} {source : Array ε}
  {valid : Std.HashMap Nat (MemoTable ν) → Prop} {item delimiter : Grammar ε ν}

theorem standsBehindItem_of_finishes (inside : item.EndsInside rules source valid)
    {start position : Nat} (later : start ≤ position) (reached : position ≤ source.size)
    {width : Nat} {value : ν} {before after : ParserState ν} (held : valid before.tables)
    (finishes : item.Finishes rules source position before (.success width value, after)) :
    StandsBehindItem rules source valid item start (position + width) after := by
  obtain ⟨ends, kept⟩ := inside position reached before held _ _ finishes
  exact ⟨ends, kept, position, width, value, before, after, later, rfl, held, finishes⟩

theorem StandsBehindItem.absorb {start position : Nat} {state : ParserState ν}
    (stands : StandsBehindItem rules source valid item start position state)
    (emission : Emission (Event ν) α) :
    StandsBehindItem rules source valid item start position
      (ParserState.absorb emission state).2 := by
  refine ⟨stands.inside, ?_, stands.behind⟩
  rw [ParserState.tables_absorb]
  exact stands.held

/-- A delimiter and an item behind it lead from the end of one item to the end of another. -/
theorem StandsBehindItem.further {start position steps width : Nat} {value : ν}
    {before after : ParserState ν} {combine : ν → ν → ν}
    (stands : StandsBehindItem rules source valid item start position before)
    (itemInside : item.EndsInside rules source valid)
    (delimiterInside : delimiter.EndsInside rules source valid)
    (attempt : Parser.sequence (delimiter.run rules steps) (item.run rules steps) combine source
      position before = some (.success width value, after)) :
    StandsBehindItem rules source valid item start (position + width) after := by
  obtain ⟨markWidth, _, middle, itemWidth, _, matched, following, rfl⟩ :=
    Parser.exists_parts_of_sequence attempt
  obtain ⟨ends, kept⟩ :=
    delimiterInside position stands.inside before stands.held _ _ ⟨steps, matched⟩
  obtain ⟨earlier, _, _, _, _, begins, reaches, _⟩ := stands.behind
  rw [← Nat.add_assoc]
  exact standsBehindItem_of_finishes itemInside (by omega) ends kept ⟨steps, following⟩

/-- What a list consumes ends with an item and not with a delimiter. -/
theorem separated_matchesUpTo (itemInside : item.EndsInside rules source valid)
    (delimiterInside : delimiter.EndsInside rules source valid) (collector : ValueCollector ν)
    {steps start width : Nat} {value : ν} {state final : ParserState ν}
    (reached : start ≤ source.size) (held : valid state.tables)
    (finished : (separated item delimiter collector).run rules steps source start state =
      some (.success width value, final)) :
    item.MatchesUpTo rules source valid start (start + width) := by
  rw [run_separated] at finished
  unfold Parser.separated at finished
  rw [Attempt.bind_apply, Option.bind_eq_some_iff] at finished
  obtain ⟨⟨outcome, behindHead⟩, begun, finished⟩ := finished
  cases outcome with
  | failure => cases finished
  | success headWidth head =>
      simp only [Attempt.bind_apply, Attempt.ofEffect_apply, Option.bind_some] at finished
      rw [Parser.separatedLoop_eq_repeatLoop _ _ _ _ _ _ 0] at finished
      have begins := standsBehindItem_of_finishes itemInside (Nat.le_refl start) reached held
        ⟨steps, begun⟩
      obtain ⟨last, stands⟩ := Parser.repeatLoop_invariant
        (StandsBehindItem rules source valid item start)
        (fun _ _ _ _ _ stands attempt _ =>
          (stands.further itemInside delimiterInside attempt).absorb _)
        ((begins.absorb _).absorb _) finished
      exact stands.behind

end

end Grammar

/-! ### Texts of composed grammars -/

namespace Text

variable {rules : Rules Char Value} {source : Array Char}
  {valid : Std.HashMap Nat (MemoTable Value) → Prop} {item next : TextGrammar}

theorem concat_ofCharacters (first second : List Char) :
    Value.concat (Value.ofCharacters first) (Value.ofCharacters second) =
      Value.ofCharacters (first ++ second) :=
  congrArg Value.string String.ofList_append.symm

/-- Displays of texts in one string are the text of their characters in one list. -/
theorem joins_stringifying :
    (Grammar.journaled (Value.stringifying : ValueCollector Value)).Joins
      (fun text characters => text = Value.ofCharacters characters)
      (fun text characters => text = Value.ofCharacters characters)
      fun (held : String) characters => held = String.ofList characters where
  supply _ := ⟨rfl, rfl⟩
  accumulate := by
    rintro _ characters _ others rfl rfl state
    exact ⟨String.ofList_append.symm, rfl⟩
  finish := by
    rintro _ characters rfl state
    exact ⟨rfl, rfl⟩

theorem run_recognized (rules : Rules Char Value) (steps : Nat) (inner : TextGrammar) :
    (recognized inner).run rules steps =
      Parser.recognize (inner.run rules steps) Value.ofCharacters := by
  cases steps <;> rfl

/-- A recognized grammar does what the grammar does and yields the text that this consumes. -/
theorem run_recognized_eq_spelling (spanned : source.size < lastPosition)
    (inside : item.EndsInside rules source valid) (steps : Nat) {start : Nat}
    (reached : start ≤ source.size) (state : ParserState Value) (held : valid state.tables) :
    (recognized item).run rules steps source start state =
      (item.run rules steps source start state).map fun result =>
        (result.1.spelling Value.ofCharacters source start, result.2) := by
  rw [run_recognized, Parser.recognize_eq_adjusted, Parser.adjusted_apply]
  refine Option.map_congr fun result finished => ?_
  obtain ⟨ends, _⟩ := inside start reached state held result.1 result.2 ⟨steps, finished⟩
  rw [Outcome.reread_eq_spelling spanned ends]

/-- A list of texts: a text, and behind it as many pairs of a delimiter and a text as there are. -/
def listOf (item delimiter : TextGrammar) : TextGrammar :=
  .sequence item
    (.repeated (.sequence delimiter item Value.concat) Value.stringifying .zeroOrMore)
    Value.concat

/-- In a source whose positions can be named, let two grammars end inside the source as long as the
memo tables have a property.  Then a grammar is recognized as the text that it consumes.  The text
of a sequence is the text of the first and the text of the second; the text of a repetition is that
of the items in a row; the text of a list is that of the items and of the delimiters between them,
and ends with an item; and a recognized text is its own text.  All this holds for every number of
steps, so that both sides end together. -/
theorem recognized_homomorphism (spanned : source.size < lastPosition)
    (itemInside : item.EndsInside rules source valid)
    (nextInside : next.EndsInside rules source valid) (combine : Value → Value → Value)
    (collector : ValueCollector Value) (bounds : RepeatBounds) (steps : Nat) {start : Nat}
    (reached : start ≤ source.size) (state : ParserState Value) (held : valid state.tables) :
    (recognized item).run rules steps source start state =
        ((item.run rules steps source start state).map fun result =>
          (result.1.spelling Value.ofCharacters source start, result.2)) ∧
      (recognized (.sequence item next combine)).run rules steps source start state =
        (Grammar.sequence (recognized item) (recognized next) Value.concat).run rules steps source
          start state ∧
      ParserState.SameButForEvents
        ((recognized (.repeated item collector bounds)).run rules steps source start state)
        ((Grammar.repeated (recognized item) Value.stringifying bounds).run rules steps source
          start state) ∧
      ParserState.SameButForEvents
        ((recognized (.separated item next collector)).run rules steps source start state)
        ((listOf (recognized item) (recognized next)).run rules steps source start state) ∧
      (∀ width text final,
        (recognized (.separated item next collector)).run rules steps source start state =
            some (.success width text, final) →
          item.MatchesUpTo rules source valid start (start + width)) ∧
      (recognized (recognized item)).run rules steps source start state =
        (recognized item).run rules steps source start state := by
  have items := Parser.spelt_recognize (itemInside.run_tablesAlike steps) spanned
    Value.ofCharacters
  have nexts := Parser.spelt_recognize (nextInside.run_tablesAlike steps) spanned
    Value.ofCharacters
  have unseen := ParserState.unseen_journaled valid collector
  have joined : ∀ text characters other others, text = Value.ofCharacters characters →
      other = Value.ofCharacters others →
        Value.concat text other = Value.ofCharacters (characters ++ others) := by
    rintro _ characters _ others rfl rfl
    exact concat_ofCharacters characters others
  refine ⟨run_recognized_eq_spelling spanned itemInside steps reached state held, ?sequence,
    ?repetition, ?list, ?lastItem, ?again⟩
  case sequence =>
    have first := Parser.spelt_recognize (itemInside.run steps) spanned Value.ofCharacters
    have second := Parser.spelt_recognize (nextInside.run steps) spanned Value.ofCharacters
    have agrees := (first.sequence combine second joined).recognized spanned reached
    rw [run_recognized, Grammar.run_sequence, Grammar.run_sequence, run_recognized, run_recognized]
    exact Attempt.eq_of_agrees agrees held
  case repetition =>
    have agrees := (items.repeated unseen joins_stringifying bounds steps).recognized spanned
      reached
    rw [run_recognized, Grammar.run_repeated, Grammar.run_repeated, run_recognized]
    exact ParserState.sameButForEvents_of_agrees agrees held
  case list =>
    have agrees := (items.separated nexts unseen joins_stringifying joined joined
      steps).recognized spanned reached
    unfold listOf
    rw [run_recognized, Grammar.run_separated, Grammar.run_sequence, Grammar.run_repeated,
      Grammar.run_sequence, run_recognized, run_recognized]
    exact ParserState.sameButForEvents_of_agrees agrees held
  case lastItem =>
    intro width text final finished
    rw [run_recognized, Parser.recognize_eq_adjusted, Parser.adjusted_apply,
      Option.map_eq_some_iff] at finished
    obtain ⟨⟨outcome, last⟩, found, equal⟩ := finished
    obtain ⟨value, rfl⟩ := Outcome.exists_of_reread (congrArg Prod.fst equal)
    exact Grammar.separated_matchesUpTo itemInside nextInside collector reached held found
  case again =>
    rw [run_recognized, run_recognized, Parser.recognize_recognize]

/-- The comma at the end of this source does not belong to the list of digits in front of it. -/
theorem recognized_homomorphism_digits :
    ∃ final, (listOf (recognized digit) (recognized (character ','))).run #[] 5
      #['1', ',', '2', ','] 0 .initial =
        some (.success 3 (Value.ofCharacters ['1', ',', '2']), final) := by
  have spanned : #['1', ',', '2', ','].size < lastPosition := by decide
  have rulesTabulated : Rules.Tabulate (#[] : Rules Char Value) fun _ => .fail :=
    Rules.throughout_empty _
  have digitInside : digit.EndsInside #[] #['1', ',', '2', ','] _ :=
    Grammar.endsInside_of_functionFree rulesTabulated trivial trivial
      (Rules.throughout_empty _) spanned
  have commaInside : (character ',').EndsInside #[] #['1', ',', '2', ','] _ :=
    Grammar.endsInside_of_functionFree rulesTabulated trivial trivial
      (Rules.throughout_empty _) spanned
  have sound : (ParserState.initial : ParserState Value).Sound #[] #['1', ',', '2', ',']
      fun _ => .fail :=
    ParserState.sound_of_forgotten fun cell position => by simp
  obtain ⟨-, -, -, list, -⟩ := recognized_homomorphism spanned digitInside commaInside Value.pair
    Value.counting .oneOrMore 5 (Nat.zero_le 4) .initial sound
  have consumed : (recognized (.separated digit (character ',') Value.counting)).run #[] 5
      #['1', ',', '2', ','] 0 .initial =
        some (.success 3 (Value.ofCharacters ['1', ',', '2']), .initial) := rfl
  unfold ParserState.SameButForEvents at list
  rw [consumed, Option.map_some] at list
  obtain ⟨⟨outcome, final⟩, finished, equal⟩ := Option.map_eq_some_iff.mp list.symm
  cases congrArg Prod.fst equal
  exact ⟨final, finished⟩

end Text

end RecursiveDescent
