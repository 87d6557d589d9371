import Mathlib.Logic.Relation

/-!
# Parsing expressions

The core of parsing expression grammars: seven constructs, and a big-step relation that says of a
text how many elements an expression consumes at its front, or that it fails there.  Productions
give each nonterminal its expression.

The relation is deterministic, and a judgement that can be derived rests on no endless descent
into the judgements that it calls for.
-/

namespace RecursiveDescent

variable {ε : Type}

/-- A parsing expression over elements of type `ε`. -/
inductive ParsingExpression (ε : Type) : Type where
  | empty
  | test (accepts : ε → Bool)
  | sequence (first second : ParsingExpression ε)
  | choice (first second : ParsingExpression ε)
  | star (inner : ParsingExpression ε)
  | not (inner : ParsingExpression ε)
  | nonterminal (index : Nat)

namespace ParsingExpression

/-- What an expression comes to at the front of a text: the number of elements that it consumes,
or nothing for a failure. -/
inductive Derives (productions : Nat → ParsingExpression ε) :
    ParsingExpression ε → List ε → Option Nat → Prop where
  | empty {text} : Derives productions .empty text (some 0)
  | test_success {accepts head tail} (passes : accepts head = true) :
      Derives productions (.test accepts) (head :: tail) (some 1)
  | test_failure {accepts head tail} (refused : accepts head = false) :
      Derives productions (.test accepts) (head :: tail) none
  | test_end {accepts} : Derives productions (.test accepts) [] none
  | sequence_success {first second text width nextWidth}
      (begins : Derives productions first text (some width))
      (follows : Derives productions second (text.drop width) (some nextWidth)) :
      Derives productions (.sequence first second) text (some (width + nextWidth))
  | sequence_first {first second text} (fails : Derives productions first text none) :
      Derives productions (.sequence first second) text none
  | sequence_second {first second text width}
      (begins : Derives productions first text (some width))
      (fails : Derives productions second (text.drop width) none) :
      Derives productions (.sequence first second) text none
  | choice_first {first second text width}
      (succeeds : Derives productions first text (some width)) :
      Derives productions (.choice first second) text (some width)
  | choice_second {first second text result} (fails : Derives productions first text none)
      (otherwise : Derives productions second text result) :
      Derives productions (.choice first second) text result
  | star_end {inner text} (fails : Derives productions inner text none) :
      Derives productions (.star inner) text (some 0)
  | star_step {inner text width rest} (succeeds : Derives productions inner text (some width))
      (follows : Derives productions (.star inner) (text.drop width) (some rest)) :
      Derives productions (.star inner) text (some (width + rest))
  | not_success {inner text} (fails : Derives productions inner text none) :
      Derives productions (.not inner) text (some 0)
  | not_failure {inner text width} (succeeds : Derives productions inner text (some width)) :
      Derives productions (.not inner) text none
  | nonterminal {index text result}
      (derived : Derives productions (productions index) text result) :
      Derives productions (.nonterminal index) text result

variable {productions : Nat → ParsingExpression ε} {expression : ParsingExpression ε}
  {text : List ε}

/-- An expression comes to one result at most. -/
theorem Derives.unique {left right : Option Nat}
    (first : Derives productions expression text left)
    (second : Derives productions expression text right) : left = right := by
  induction first generalizing right with
  | empty => cases second; rfl
  | test_success passes =>
      cases second with
      | test_success => rfl
      | test_failure refused => simp [passes] at refused
  | test_failure refused =>
      cases second with
      | test_success passes => simp [refused] at passes
      | test_failure => rfl
  | test_end => cases second; rfl
  | sequence_success _ _ beginsCase followsCase =>
      cases second with
      | sequence_success begins follows =>
          cases beginsCase begins
          cases followsCase follows
          rfl
      | sequence_first fails => cases beginsCase fails
      | sequence_second begins fails =>
          cases beginsCase begins
          cases followsCase fails
  | sequence_first _ failsCase =>
      cases second with
      | sequence_success begins follows => cases failsCase begins
      | sequence_first fails => rfl
      | sequence_second begins fails => rfl
  | sequence_second _ _ beginsCase failsCase =>
      cases second with
      | sequence_success begins follows =>
          cases beginsCase begins
          cases failsCase follows
      | sequence_first fails => rfl
      | sequence_second begins fails => rfl
  | choice_first _ succeedsCase =>
      cases second with
      | choice_first succeeds => exact succeedsCase succeeds
      | choice_second fails otherwise => cases succeedsCase fails
  | choice_second _ _ failsCase otherwiseCase =>
      cases second with
      | choice_first succeeds => cases failsCase succeeds
      | choice_second fails otherwise => exact otherwiseCase otherwise
  | star_end _ failsCase =>
      cases second with
      | star_end fails => rfl
      | star_step succeeds follows => cases failsCase succeeds
  | star_step _ _ succeedsCase followsCase =>
      cases second with
      | star_end fails => cases succeedsCase fails
      | star_step succeeds follows =>
          cases succeedsCase succeeds
          cases followsCase follows
          rfl
  | not_success _ failsCase =>
      cases second with
      | not_success fails => rfl
      | not_failure succeeds => cases failsCase succeeds
  | not_failure _ succeedsCase =>
      cases second with
      | not_success fails => cases succeedsCase fails
      | not_failure succeeds => rfl
  | nonterminal _ derivedCase =>
      cases second with
      | nonterminal derived => exact derivedCase derived

/-- A sequence whose first expression consumes something comes to what the second one does. -/
theorem Derives.sequence {first second : ParsingExpression ε} {width : Nat} {result : Option Nat}
    (begins : Derives productions first text (some width))
    (follows : Derives productions second (text.drop width) result) :
    Derives productions (.sequence first second) text (result.map fun rest => width + rest) := by
  cases result with
  | none => exact .sequence_second begins follows
  | some rest => exact .sequence_success begins follows

/-- A star does not fail. -/
theorem Derives.star_ne_none {inner : ParsingExpression ε} :
    ¬ Derives productions (.star inner) text none := by
  intro derived
  cases derived

/-! ### The judgements that a judgement calls for -/

/-- The second judgement, an expression at the front of a text, calls for the first one. -/
inductive Calls (productions : Nat → ParsingExpression ε) :
    ParsingExpression ε × List ε → ParsingExpression ε × List ε → Prop where
  | sequence_first {first second text} :
      Calls productions (first, text) (.sequence first second, text)
  | sequence_second {first second text width}
      (begins : Derives productions first text (some width)) :
      Calls productions (second, text.drop width) (.sequence first second, text)
  | choice_first {first second text} :
      Calls productions (first, text) (.choice first second, text)
  | choice_second {first second text} (fails : Derives productions first text none) :
      Calls productions (second, text) (.choice first second, text)
  | star_first {inner text} : Calls productions (inner, text) (.star inner, text)
  | star_next {inner text width} (succeeds : Derives productions inner text (some width)) :
      Calls productions (.star inner, text.drop width) (.star inner, text)
  | not {inner text} : Calls productions (inner, text) (.not inner, text)
  | nonterminal {index text} :
      Calls productions (productions index, text) (.nonterminal index, text)

/-- What can be derived calls for no endless descent. -/
theorem Derives.acc {result : Option Nat} (derived : Derives productions expression text result) :
    Acc (Calls productions) (expression, text) := by
  induction derived with
  | empty => exact ⟨_, fun _ calls => by cases calls⟩
  | test_success => exact ⟨_, fun _ calls => by cases calls⟩
  | test_failure => exact ⟨_, fun _ calls => by cases calls⟩
  | test_end => exact ⟨_, fun _ calls => by cases calls⟩
  | sequence_success begins _ beginsCase followsCase =>
      refine ⟨_, fun inner calls => ?_⟩
      cases calls with
      | sequence_first => exact beginsCase
      | sequence_second begun =>
          cases begins.unique begun
          exact followsCase
  | sequence_first fails failsCase =>
      refine ⟨_, fun inner calls => ?_⟩
      cases calls with
      | sequence_first => exact failsCase
      | sequence_second begun => cases fails.unique begun
  | sequence_second begins _ beginsCase failsCase =>
      refine ⟨_, fun inner calls => ?_⟩
      cases calls with
      | sequence_first => exact beginsCase
      | sequence_second begun =>
          cases begins.unique begun
          exact failsCase
  | choice_first succeeds succeedsCase =>
      refine ⟨_, fun inner calls => ?_⟩
      cases calls with
      | choice_first => exact succeedsCase
      | choice_second failed => cases succeeds.unique failed
  | choice_second _ _ failsCase otherwiseCase =>
      refine ⟨_, fun inner calls => ?_⟩
      cases calls with
      | choice_first => exact failsCase
      | choice_second failed => exact otherwiseCase
  | star_end fails failsCase =>
      refine ⟨_, fun inner calls => ?_⟩
      cases calls with
      | star_first => exact failsCase
      | star_next succeeded => cases fails.unique succeeded
  | star_step succeeds _ succeedsCase followsCase =>
      refine ⟨_, fun inner calls => ?_⟩
      cases calls with
      | star_first => exact succeedsCase
      | star_next succeeded =>
          cases succeeds.unique succeeded
          exact followsCase
  | not_success _ failsCase =>
      refine ⟨_, fun inner calls => ?_⟩
      cases calls
      exact failsCase
  | not_failure _ succeedsCase =>
      refine ⟨_, fun inner calls => ?_⟩
      cases calls
      exact succeedsCase
  | nonterminal _ derivedCase =>
      refine ⟨_, fun inner calls => ?_⟩
      cases calls
      exact derivedCase

/-! ### Derived constructs -/

def never : ParsingExpression ε :=
  .not .empty

def any : ParsingExpression ε :=
  .test fun _ => true

/-- One element after the other passes its test. -/
def tests : List (ε → Bool) → ParsingExpression ε
  | [] => .empty
  | accepts :: rest => .sequence (.test accepts) (tests rest)

/-- An expression some number of times, and another one behind. -/
def times (inner rest : ParsingExpression ε) : Nat → ParsingExpression ε
  | 0 => rest
  | count + 1 => .sequence inner (times inner rest count)

/-- Nested options: an expression at most some number of times. -/
def options (inner : ParsingExpression ε) : Nat → ParsingExpression ε
  | 0 => .empty
  | count + 1 => .choice (.sequence inner (options inner count)) .empty

theorem derives_never : Derives productions never text none :=
  .not_failure .empty

theorem derives_any_nil : Derives productions any [] none :=
  .test_end

theorem derives_any_cons (head : ε) (tail : List ε) :
    Derives productions any (head :: tail) (some 1) :=
  .test_success rfl

/-- Nested options do not fail. -/
theorem options_ne_none {inner : ParsingExpression ε} {count : Nat} :
    ¬ Derives productions (options inner count) text none := by
  intro derived
  cases count with
  | zero => cases derived
  | succ count =>
      cases derived with
      | choice_second fails otherwise => cases otherwise

/-- The front of a text passes tests, one element after the other. -/
def passes : List (ε → Bool) → List ε → Bool
  | [], _ => true
  | _ :: _, [] => false
  | accepts :: rest, head :: tail => accepts head && passes rest tail

theorem derives_tests (productions : Nat → ParsingExpression ε) (accepted : List (ε → Bool))
    (text : List ε) :
    Derives productions (tests accepted) text
      (if passes accepted text then some accepted.length else none) := by
  induction accepted generalizing text with
  | nil => exact .empty
  | cons accepts rest induction =>
      cases text with
      | nil => exact .sequence_first .test_end
      | cons head tail =>
          cases fits : accepts head with
          | false =>
              simp only [passes, fits, Bool.false_and, Bool.false_eq_true, if_false]
              exact .sequence_first (.test_failure fits)
          | true =>
              have later := induction tail
              simp only [passes, fits, Bool.true_and]
              cases fitting : passes rest tail with
              | false =>
                  simp only [fitting, Bool.false_eq_true, if_false] at later ⊢
                  exact .sequence_second (.test_success fits) later
              | true =>
                  simp only [fitting, if_true] at later ⊢
                  rw [List.length_cons, Nat.add_comm]
                  exact .sequence_success (.test_success fits) later

theorem passes_equals_iff [DecidableEq ε] (expected text : List ε) :
    passes (expected.map fun element found => decide (found = element)) text = true ↔
      expected <+: text := by
  induction expected generalizing text with
  | nil => simp [passes]
  | cons element rest induction =>
      cases text with
      | nil => simp [passes]
      | cons head tail =>
          have later := induction tail
          simp only [List.map_cons, passes, Bool.and_eq_true, decide_eq_true_eq,
            List.cons_prefix_cons, later]
          constructor
          · rintro ⟨rfl, beginning⟩
            exact ⟨rfl, beginning⟩
          · rintro ⟨rfl, beginning⟩
            exact ⟨rfl, beginning⟩

theorem passes_replicate_iff (width : Nat) (text : List ε) :
    passes (List.replicate width fun _ => true) text = true ↔ width ≤ text.length := by
  induction width generalizing text with
  | zero => simp [passes]
  | succ width induction =>
      cases text with
      | nil => simp [passes, List.replicate_succ]
      | cons head tail =>
          have later := induction tail
          simp [passes, List.replicate_succ, later]

end ParsingExpression

end RecursiveDescent
