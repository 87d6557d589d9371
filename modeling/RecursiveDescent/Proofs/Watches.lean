import RecursiveDescent.Proofs.RunAttempts
import RecursiveDescent.Value.Collecting

/-!
# Watched parsers

A parser is watched when three hooks with one tag surround it, before every attempt, after every
match and after every failure, or when it is traced.  An attempt of a watched parser is an attempt
of the parser inside, between the record that opens it and the record that closes it.

A choice of watches and grammars says which of them are of interest.  `Grammar.Watched` asks that
all records of chosen watches come from watches around chosen grammars.  Other hooks may stand
anywhere, as long as their tags are different.
-/

namespace RecursiveDescent

variable {ε ν : Type}

/-! ### Watches -/

/-- A way to watch the attempts of a parser. -/
inductive Watch where
  /-- Three hooks with one tag. -/
  | hooks (tag : String)
  /-- A trace. -/
  | trace (name : String)
  deriving DecidableEq

/-- What an event says about watched attempts. -/
inductive Event.Role where
  | opens (watch : Watch)
  | closes (watch : Watch)
  | neither
  deriving DecidableEq

def Event.role : Event ν → Event.Role
  | .attempted tag _ => .opens (.hooks tag)
  | .succeeded tag _ _ _ => .closes (.hooks tag)
  | .failed tag _ => .closes (.hooks tag)
  | .logged (.trying name _ _) => .opens (.trace name)
  | .logged (.matched name _ _) => .closes (.trace name)
  | .logged (.unmatched name _) => .closes (.trace name)
  | _ => .neither

namespace Watch

/-- The grammar whose attempts are those of `inner`, each of them watched. -/
def around (watch : Watch) (inner : Grammar ε ν) : Grammar ε ν :=
  match watch with
  | .hooks tag => .onFailure tag (.onSuccess tag (.before tag inner))
  | .trace name => .traced name inner

/-- The record that opens an attempt. -/
def opening (watch : Watch) (source : Array ε) (position : Nat) : Event ν :=
  match watch with
  | .hooks tag => .attempted tag position
  | .trace name => .logged (.trying name position source.size)

/-- The record that closes an attempt with the given outcome. -/
def closing (watch : Watch) (position : Nat) (outcome : Outcome ν) : Event ν :=
  match watch, outcome with
  | .hooks tag, .success width value => .succeeded tag position width value
  | .hooks tag, .failure => .failed tag position
  | .trace name, .success width _ => .logged (.matched name width position)
  | .trace name, .failure => .logged (.unmatched name position)

@[simp]
theorem role_opening (watch : Watch) (source : Array ε) (position : Nat) :
    (watch.opening source position : Event ν).role = .opens watch := by
  cases watch <;> rfl

@[simp]
theorem role_closing (watch : Watch) (position : Nat) (outcome : Outcome ν) :
    (watch.closing position outcome).role = .closes watch := by
  cases watch <;> cases outcome <;> rfl

variable [DecidableEq ε] {rules : Rules ε ν} {source : Array ε} {watch : Watch}
  {inner : Grammar ε ν} {start : Nat} {outcome : Outcome ν} {state final : ParserState ν}

/-- An attempt of a watched grammar is an attempt of the grammar between the two records. -/
theorem finishes_around_iff :
    (watch.around inner).Finishes rules source start state (outcome, final) ↔
      ∃ middle,
        inner.Finishes rules source start (state.record (watch.opening source start))
            (outcome, middle) ∧
          final = middle.record (watch.closing start outcome) := by
  cases watch with
  | hooks tag =>
      have shape : (Grammar.onFailure tag (.onSuccess tag (.before tag inner))).form rules source =
          .adjusted (.onSuccess tag (.before tag inner)) fun _ outcome => outcome :=
        rfl
      have shapeBetween : (Grammar.onSuccess tag (.before tag inner)).form rules source =
          .adjusted (.before tag inner) fun _ outcome => outcome :=
        rfl
      have shapeInside : (Grammar.before tag inner).form rules source =
          .adjusted inner fun _ outcome => outcome :=
        rfl
      constructor
      · intro finishes
        obtain ⟨_, _, finishesBetween, rfl, rfl⟩ :=
          (Grammar.finishes_adjusted_iff shape rfl).mp finishes
        obtain ⟨_, _, finishesInside, rfl, rfl⟩ :=
          (Grammar.finishes_adjusted_iff shapeBetween rfl).mp finishesBetween
        obtain ⟨_, _, inside, rfl, rfl⟩ :=
          (Grammar.finishes_adjusted_iff shapeInside rfl).mp finishesInside
        refine ⟨_, inside, ?_⟩
        cases outcome <;> rfl
      · rintro ⟨middle, inside, rfl⟩
        have finishesInside :=
          (Grammar.finishes_adjusted_iff shapeInside rfl).mpr ⟨_, _, inside, rfl, rfl⟩
        have finishesBetween :=
          (Grammar.finishes_adjusted_iff shapeBetween rfl).mpr ⟨_, _, finishesInside, rfl, rfl⟩
        refine (Grammar.finishes_adjusted_iff shape rfl).mpr ⟨_, _, finishesBetween, rfl, ?_⟩
        cases outcome <;> rfl
  | trace name =>
      have shape : (Grammar.traced name inner).form rules source =
          .adjusted inner fun _ outcome => outcome :=
        rfl
      constructor
      · intro finishes
        obtain ⟨_, middle, inside, rfl, rfl⟩ :=
          (Grammar.finishes_adjusted_iff shape rfl).mp finishes
        refine ⟨middle, inside, ?_⟩
        cases outcome <;> rfl
      · rintro ⟨middle, inside, rfl⟩
        refine (Grammar.finishes_adjusted_iff shape rfl).mpr ⟨_, _, inside, rfl, ?_⟩
        cases outcome <;> rfl

theorem attempted_around (watch : Watch) (inner : Grammar ε ν) (start : Nat)
    (state : ParserState ν) :
    Relation.TransGen (Grammar.During rules source)
      (inner, start, state.record (watch.opening source start))
      (watch.around inner, start, state) := by
  cases watch with
  | hooks tag =>
      have innermost : Grammar.During rules source
          (inner, start, state.record (.attempted tag start)) (.before tag inner, start, state) :=
        .part_of_enter_eq rfl rfl rfl
      have between : Grammar.During rules source (.before tag inner, start, state)
          (.onSuccess tag (.before tag inner), start, state) :=
        .part_of_enter_eq rfl rfl rfl
      have outermost : Grammar.During rules source
          (.onSuccess tag (.before tag inner), start, state)
          (.onFailure tag (.onSuccess tag (.before tag inner)), start, state) :=
        .part_of_enter_eq rfl rfl rfl
      exact .tail (.tail (.single innermost) between) outermost
  | trace name => exact .single (.part_of_enter_eq rfl rfl rfl)

end Watch

/-! ### Grammars in which only watches enter their records -/

/-- The event is no record of a chosen watch. -/
def Event.Apart (chosen : Watch → Grammar ε ν → Prop) (event : Event ν) : Prop :=
  ∀ watch inner, chosen watch inner → event.role ≠ .opens watch ∧ event.role ≠ .closes watch

/-- The collector announces no record of a chosen watch. -/
structure ValueCollector.Apart (chosen : Watch → Grammar ε ν → Prop)
    (collector : ValueCollector ν) : Prop where
  supply : ∀ event ∈ collector.supply.emitted, event.Apart chosen
  accumulate : ∀ accumulator value, ∀ event ∈ (collector.accumulate accumulator value).emitted,
    event.Apart chosen
  finish : ∀ accumulator, ∀ event ∈ (collector.finish accumulator).emitted, event.Apart chosen

namespace Grammar

/-- The grammar is one of those that another one is immediately built from. -/
def IsPart (part : Grammar ε ν) : Grammar ε ν → Prop
  | .sequence first second _ | .choice first second => part = first ∨ part = second
  | .delimited item delimiter _ _ | .separated item delimiter _ =>
      part = item ∨ part = delimiter
  | .bind first binder => part = first ∨ ∃ outcome, part = binder outcome
  | .optional inner _ | .repeated inner _ _ | .ahead inner | .notAhead inner _ | .map inner _
  | .tryMap inner _ | .filter inner _ | .recognize inner _ | .before _ inner
  | .onSuccess _ inner | .onFailure _ inner | .traced _ inner | .memoized _ inner
  | .rebuilt _ inner | .deferred _ inner => part = inner
  | .element _ _ | .literal _ _ | .fixedWidth _ _ | .succeed _ | .fail | .endOfInput _
  | .ofFunction _ | .rule _ => False

/-- Apart from its parts, the grammar enters no record of a chosen watch. -/
def Quiet (chosen : Watch → Grammar ε ν → Prop) : Grammar ε ν → Prop
  | .before tag _ | .onSuccess tag _ | .onFailure tag _ => ∀ inner, ¬ chosen (.hooks tag) inner
  | .traced name _ => ∀ inner, ¬ chosen (.trace name) inner
  | .repeated _ collector _ | .separated _ _ collector => collector.Apart chosen
  | .delimited _ _ _ headCollector => ∀ head, (headCollector head).Apart chosen
  | _ => True

/-- All records of chosen watches come from watches around chosen grammars. -/
inductive Watched (chosen : Watch → Grammar ε ν → Prop) : Grammar ε ν → Prop where
  | watched {watch inner} (marked : chosen watch inner) (inside : Watched chosen inner) :
      Watched chosen (watch.around inner)
  | built {grammar} (quiet : grammar.Quiet chosen)
      (parts : ∀ part : Grammar ε ν, part.IsPart grammar → Watched chosen part) :
      Watched chosen grammar

end Grammar

def Rules.Watched (rules : Rules ε ν) (chosen : Watch → Grammar ε ν → Prop) : Prop :=
  ∀ index body, rules.body? index = some body → body.Watched chosen

/-! ### What a grammar enters apart from its parts -/

section Quiet

variable {chosen : Watch → Grammar ε ν → Prop} {grammar : Grammar ε ν}

theorem Event.apart_of_neither {event : Event ν} (free : event.role = .neither) :
    event.Apart chosen := by
  intro watch inner _
  simp [free]

theorem Event.apart_of_unchosen {event : Event ν} {watch : Watch}
    (role : event.role = .opens watch ∨ event.role = .closes watch)
    (unchosen : ∀ inner, ¬ chosen watch inner) : event.Apart chosen := by
  intro other inner marked
  have different : watch ≠ other := by
    rintro rfl
    exact unchosen inner marked
  rcases role with role | role <;> simp [role, different]

theorem ValueCollector.Apart.taking {collector : ValueCollector ν}
    (apart : collector.Apart chosen) (value : ν) : (collector.taking value).Apart chosen where
  supply := nofun
  accumulate := apart.accumulate
  finish := apart.finish

theorem ValueCollector.Apart.accept {collector : ValueCollector ν}
    (apart : collector.Apart chosen) (head : ν) :
    ValueCollector.Apart chosen (collector.accept head) where
  supply event member := by
    rcases List.mem_append.mp member with supplied | accumulated
    · exact apart.supply event supplied
    · exact apart.accumulate _ head event accumulated
  accumulate := apart.accumulate
  finish := apart.finish

theorem ValueCollector.Apart.closing {collector : ValueCollector ν}
    (apart : collector.Apart chosen) (bounds : RepeatBounds) :
    ∀ event ∈ Grammar.closingEvents collector bounds, event.Apart chosen := by
  unfold Grammar.closingEvents
  split
  · nofun
  · exact apart.finish _

/-- Announcing its steps under a tag does not make a collector enter records of a watch. -/
theorem ValueCollector.Apart.announced {collector : ValueCollector ν}
    (apart : collector.Apart chosen) (tag : String) :
    ValueCollector.Apart chosen (Value.announced tag collector) where
  supply event member := by
    rcases List.mem_cons.mp member with rfl | later
    · exact Event.apart_of_neither rfl
    · exact apart.supply event later
  accumulate accumulator value event member := by
    rcases List.mem_cons.mp member with rfl | later
    · exact Event.apart_of_neither rfl
    · exact apart.accumulate accumulator value event later
  finish accumulator event member := by
    rcases List.mem_cons.mp member with rfl | later
    · exact Event.apart_of_neither rfl
    · exact apart.finish accumulator event later

theorem Rules.apart_of_invocation (rules : Rules ε ν) (index start : Nat) :
    ∀ event ∈ rules.invocationEvents index start, event.Apart chosen := by
  have alone {event : Event ν} (free : event.role = .neither) :
      ∀ other ∈ [event], other.Apart chosen := by
    intro other member
    obtain rfl := List.mem_singleton.mp member
    exact Event.apart_of_neither free
  unfold Rules.invocationEvents
  cases rules[index]? with
  | none => exact alone rfl
  | some rule =>
      cases rule with
      | recursive tag cells body =>
          cases tag with
          | none => nofun
          | some tag => exact alone rfl
      | forward definition =>
          cases definition with
          | none => exact alone rfl
          | some definition => nofun

namespace Grammar

theorem Quiet.eventsOfEntry (quiet : grammar.Quiet chosen) (rules : Rules ε ν)
    (source : Array ε) (start : Nat) :
    ∀ event ∈ grammar.eventsOfEntry rules source start, event.Apart chosen := by
  intro event member
  cases grammar with
  | before tag inner =>
      obtain rfl := List.mem_singleton.mp member
      exact Event.apart_of_unchosen (.inl rfl) quiet
  | traced name inner =>
      obtain rfl := List.mem_singleton.mp member
      exact Event.apart_of_unchosen (.inl rfl) quiet
  | deferred _ _ | memoized _ _ =>
      obtain rfl := List.mem_singleton.mp member
      exact Event.apart_of_neither rfl
  | repeated item collector bounds =>
      simp only [Grammar.eventsOfEntry, eventsBefore] at member
      split at member
      · exact quiet.supply event member
      · rcases List.mem_append.mp member with supplied | closed
        · exact quiet.supply event supplied
        · exact quiet.closing bounds event closed
  | rule index => exact Rules.apart_of_invocation rules index start event member
  | _ => cases member

theorem Quiet.eventsAfter (quiet : grammar.Quiet chosen) (start : Nat) (outcome : Outcome ν) :
    ∀ event ∈ grammar.eventsAfter start outcome, event.Apart chosen := by
  intro event member
  cases grammar with
  | onSuccess tag inner =>
      cases outcome with
      | success width value =>
          obtain rfl := List.mem_singleton.mp member
          exact Event.apart_of_unchosen (.inr rfl) quiet
      | failure => cases member
  | onFailure tag inner =>
      cases outcome with
      | success width value => cases member
      | failure =>
          obtain rfl := List.mem_singleton.mp member
          exact Event.apart_of_unchosen (.inr rfl) quiet
  | traced name inner =>
      cases outcome with
      | success width value =>
          obtain rfl := List.mem_singleton.mp member
          exact Event.apart_of_unchosen (.inr rfl) quiet
      | failure =>
          obtain rfl := List.mem_singleton.mp member
          exact Event.apart_of_unchosen (.inr rfl) quiet
  | repeated item collector bounds =>
      cases outcome with
      | success width value => exact quiet.accumulate _ value event member
      | failure => exact quiet.closing bounds event member
  | _ => cases outcome <;> cases member

theorem Watched.of_part {inner outer : Grammar ε ν} (inside : inner.Watched chosen)
    (quiet : outer.Quiet chosen) (only : ∀ part : Grammar ε ν, part.IsPart outer → part = inner) :
    outer.Watched chosen := by
  apply Watched.built quiet
  intro part isPart
  rw [only part isPart]
  exact inside

theorem watched_fail : (fail : Grammar ε ν).Watched chosen :=
  .built trivial fun _ isPart => isPart.elim

theorem watched_succeed (value : ν) : (succeed value : Grammar ε ν).Watched chosen :=
  .built trivial fun _ isPart => isPart.elim

theorem watched_rule (index : Nat) : (rule index : Grammar ε ν).Watched chosen :=
  .built trivial fun _ isPart => isPart.elim

theorem Watched.repeated {item : Grammar ε ν} {collector : ValueCollector ν}
    (items : item.Watched chosen) (apart : collector.Apart chosen) (bounds : RepeatBounds) :
    (repeated item collector bounds).Watched chosen :=
  items.of_part apart fun _ => id

theorem Watched.pairs {item delimiter : Grammar ε ν} {headCollector : ν → ValueCollector ν}
    (items : item.Watched chosen) (delimiters : delimiter.Watched chosen)
    (apart : ∀ head, (headCollector head).Apart chosen) (combine : ν → ν → ν)
    (outcome : Outcome ν) :
    (pairs item delimiter combine headCollector outcome).Watched chosen := by
  cases outcome with
  | success width head =>
      have pair : (sequence delimiter item combine).Watched chosen := by
        refine .built trivial ?_
        rintro part (rfl | rfl)
        · exact delimiters
        · exact items
      exact pair.repeated (apart head) .zeroOrMore
  | failure => exact watched_fail

/-- The parts of the form of a quiet grammar are watched when the grammars are that it is built
from. -/
theorem Quiet.form [DecidableEq ε] {rules : Rules ε ν} (quiet : grammar.Quiet chosen)
    (parts : ∀ part : Grammar ε ν, part.IsPart grammar → part.Watched chosen)
    (rulesWatched : rules.Watched chosen) (source : Array ε) :
    (grammar.form rules source).All (Watched chosen) := by
  cases grammar with
  | element _ _ | literal _ _ | fixedWidth _ _ | succeed _ | fail | endOfInput _
  | ofFunction _ => trivial
  | sequence first second combine =>
      -- The second part is mapped and matched behind the first one.
      refine ⟨parts _ (.inl rfl), fun outcome => ?_⟩
      cases outcome with
      | success width value => exact (parts _ (.inr rfl)).of_part trivial fun _ => id
      | failure => exact watched_fail
  | choice first second =>
      refine ⟨parts _ (.inl rfl), fun outcome => ?_⟩
      cases outcome with
      | success width value => exact watched_succeed value
      | failure => exact parts _ (.inr rfl)
  | repeated item collector bounds =>
      by_cases more : bounds.allowsMore 0
      · rw [form_repeated_of_more more]
        refine ⟨parts _ rfl, fun outcome => ?_⟩
        cases outcome with
        | success width value => exact .repeated (parts _ rfl) (.taking quiet value) _
        | failure =>
            by_cases few : 0 < bounds.minimum
            · simp only [repetition, few, if_true]
              exact watched_fail
            · simp only [repetition, few, if_false]
              exact watched_succeed _
      · rw [form_repeated_of_exhausted more]
        trivial
  | delimited item delimiter combine headCollector =>
      have items := parts item (.inl rfl)
      exact ⟨items, items.pairs (parts delimiter (.inr rfl)) quiet combine⟩
  | separated item delimiter collector =>
      have items := parts item (.inl rfl)
      exact ⟨items, items.pairs (parts delimiter (.inr rfl)) (.accept quiet) _⟩
  | bind first binder => exact ⟨parts _ (.inl rfl), fun outcome => parts _ (.inr ⟨outcome, rfl⟩)⟩
  | rule index =>
      cases defined : rules.body? index with
      | none =>
          rw [form_rule_of_undefined defined]
          trivial
      | some body =>
          rw [form_rule_of_defined defined]
          exact rulesWatched index body defined
  | _ => exact parts _ rfl

end Grammar

end Quiet

end RecursiveDescent
