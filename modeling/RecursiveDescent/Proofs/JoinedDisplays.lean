import RecursiveDescent.Proofs.CollectorAdapters
import RecursiveDescent.Proofs.ItemLists
import RecursiveDescent.Proofs.ReservedWords

/-!
# Joined displays

A join puts its separator between each two displays.  It does so by writing one in front of every
display but the first, and the first one is told by a flag and not by the text so far: an opening
text is there before any display, and displays may be empty.

`String.intercalate` says what a separated text is.  It is what the writing of displays comes to from
both kinds of states, where the first display is due and where it is not.  From a state with an
opening text, with none, and behind a list of words in a source, the join is then the same text with
or without the opening.
-/

namespace RecursiveDescent

namespace Joining

variable (joining : Joining)

/-- Behind a display, each further one comes with a separator. -/
theorem foldl_write_started (text : String) (displays : List String) :
    displays.foldl joining.write ⟨text, false⟩ =
      ⟨joining.separator.intercalate (text :: displays), false⟩ := by
  induction displays generalizing text with
  | nil => simp
  | cons display others othersCase =>
      have written : joining.write ⟨text, false⟩ display =
          ⟨text ++ joining.separator ++ display, false⟩ := rfl
      rw [List.foldl_cons, written, othersCase, String.intercalate_cons_append,
        String.intercalate_cons_cons]

/-- The first display comes without a separator, whatever text is there already. -/
theorem text_foldl_write_empty (text : String) (displays : List String) :
    (displays.foldl joining.write ⟨text, true⟩).text =
      text ++ joining.separator.intercalate displays := by
  cases displays with
  | nil => simp
  | cons display others =>
      have written : joining.write ⟨text, true⟩ display = ⟨text ++ display, false⟩ := rfl
      rw [List.foldl_cons, written, foldl_write_started, String.intercalate_cons_append]

theorem finishFrom_empty (text : String) (displays : List String) :
    joining.finishFrom ⟨text, true⟩ displays =
      text ++ joining.separator.intercalate displays ++ joining.closing := by
  rw [finishFrom, close, text_foldl_write_empty]

end Joining

namespace Collector

variable {m : Type → Type} {α β : Type}

/-- Gathers values in an accumulator that is there already. -/
def foldFrom [Monad m] (collector : Collector m α β) (accumulator : collector.Accumulator)
    (values : List α) : m β := do
  let final ← values.foldlM collector.accumulate accumulator
  collector.finish final

variable [Monad m] [LawfulMonad m] (texts : Joining) (display : α → String)

theorem foldFrom_joining (state : JoinState) (values : List α) :
    (joining texts display : Collector m α String).foldFrom state values =
      pure (texts.finishFrom state (values.map display)) := by
  rw [Joining.finishFrom, List.foldl_map]
  unfold foldFrom
  simp only [joining, ofFold, List.foldlM_pure, pure_bind]

theorem fold_joining (values : List α) :
    (joining texts display : Collector m α String).fold values =
      pure (texts.finishFrom texts.start (values.map display)) := by
  rw [joining, fold_ofFold, Joining.finishFrom, List.foldl_map]

end Collector

namespace Text

/-- Words with single spaces between them, joined. -/
def wordList (isLetter : Char → Bool) (texts : Joining) : TextGrammar :=
  .separated (word isLetter) (character ' ') (Value.joining texts)

theorem gathered_joining (texts : Joining) (values : List Value) :
    ValueCollector.gathered (Value.joining texts) values =
      .string (texts.finishFrom texts.start (values.map Value.display)) := by
  rw [Joining.finishFrom, List.foldl_map]
  rfl

theorem standalone_wordList (isLetter : Char → Bool) (texts : Joining) :
    (wordList isLetter texts).Standalone :=
  ⟨trivial, ⟨trivial, trivial⟩, trivial⟩

def nextWord (isLetter : Char → Bool) : TextGrammar :=
  .sequence (character ' ') (word isLetter) fun _ value => value

variable {isLetter : Char → Bool} {source : Array Char} {start : Nat} {runs : List (List Char)}

/-- Up to the end of the source, the loop takes the words with spaces in front. -/
theorem repeats_nextWord (blank : isLetter ' ' = false)
    (each : ∀ run ∈ runs, run ≠ [] ∧ ∀ character ∈ run, isLetter character)
    (begins : remaining source start = runs.flatMap (' ' :: ·)) :
    ∃ taken, (nextWord isLetter).Repeats #[] source start taken ∧
      Grammar.spelled taken = runs.flatMap (' ' :: ·) ∧
      taken.map Prod.snd = runs.map Value.ofCharacters := by
  rw [← List.append_nil (runs.flatMap _)] at begins
  refine Grammar.repeats_behind_marks ' ' (decide_eq_true rfl) isLetter blank ?_ (avoids_nil _)
    (avoids_nil _) begins
  rw [List.forall₂_map_right_iff, List.forall₂_same]
  intro run member start following begins maximal
  obtain ⟨present, letters⟩ := each run member
  exact takes_word_of_begins present letters begins maximal

/-- Words with single spaces between them are taken whole. -/
theorem takes_wordList (blank : isLetter ' ' = false) (texts : Joining) (nonempty : runs ≠ [])
    (each : ∀ run ∈ runs, run ≠ [] ∧ ∀ character ∈ run, isLetter character)
    (whole : source.toList = [' '].intercalate runs) :
    (wordList isLetter texts).Takes #[] source 0 source.toList
      (.string (texts.finishFrom texts.start (runs.map String.ofList))) := by
  obtain ⟨run, others, rfl⟩ := List.exists_cons_of_ne_nil nonempty
  rw [intercalate_cons_eq_flatMap] at whole
  obtain ⟨⟨present, letters⟩, each⟩ := List.forall_mem_cons.mp each
  have begins : remaining source 0 = run ++ (others.flatMap (' ' :: ·) ++ []) := by
    rw [List.append_nil]
    exact whole
  have head : (word isLetter).Takes #[] source 0 run _ :=
    takes_word_of_begins present letters begins (avoids_marked blank (avoids_nil _) others)
  have ahead : remaining source (0 + run.length) = others.flatMap (' ' :: ·) :=
    remaining_of_eq_append whole
  obtain ⟨taken, repeats, spelling, values⟩ := repeats_nextWord blank each ahead
  have list : (wordList isLetter texts).Takes #[] source 0 _ _ :=
    Grammar.takes_separated head repeats
  have displays : (Value.ofCharacters run :: others.map Value.ofCharacters).map Value.display =
      (run :: others).map String.ofList := by
    rw [← List.map_cons, List.map_map]
    rfl
  rw [spelling, values, gathered_joining, displays, ← whole] at list
  exact list

/-- Joining any values writes the opening text, their displays with a separator between each two,
and the closing text.  A join that goes on from the empty state does the same without the opening
text.  As the collector of a list of words with single spaces between them, it makes of every such
source the words with the separator between each two, inside opening and closing. -/
theorem joining_exact (texts : Joining) :
    (∀ {m : Type → Type} [Monad m] [LawfulMonad m] {α : Type} (display : α → String)
        (values : List α),
      (Collector.joining texts display : Collector m α String).fold values =
          pure (texts.opening ++ texts.separator.intercalate (values.map display) ++
            texts.closing) ∧
        (Collector.joining texts display : Collector m α String).foldFrom ({} : JoinState) values =
          pure (texts.separator.intercalate (values.map display) ++ texts.closing) ∧
        texts.finishFrom {} (values.map display) =
          texts.separator.intercalate (values.map display) ++ texts.closing) ∧
    ∀ (words : List String) (rules : Rules Char Value) (state : ParserState Value), words ≠ [] →
      (∀ word ∈ words, word ≠ "" ∧ ∀ character ∈ word.toList, isAlphabetic character) →
        (wordList isAlphabetic texts).Answers rules (" ".intercalate words).toList.toArray state
          (some (.string (texts.opening ++ texts.separator.intercalate words ++
            texts.closing))) := by
  refine ⟨?_, ?_⟩
  · intro m _ _ α display values
    have unopened := texts.finishFrom_empty "" (values.map display)
    rw [String.empty_append] at unopened
    refine ⟨?_, ?_, unopened⟩
    · rw [Collector.fold_joining, Joining.start, Joining.finishFrom_empty]
    · rw [Collector.foldFrom_joining]
      exact congrArg pure unopened
  · intro words rules state nonempty each
    have alone := standalone_wordList isAlphabetic texts
    rw [Grammar.answers_some_iff fun _ => alone.finishes_iff_yields rules state]
    have whole : (" ".intercalate words).toList.toArray.toList =
        [' '].intercalate (words.map String.toList) := by
      rw [List.toList_toArray, String.toList_intercalate]
      rfl
    have letters : ∀ run ∈ words.map String.toList,
        run ≠ [] ∧ ∀ character ∈ run, isAlphabetic character := by
      intro run member
      obtain ⟨word, found, rfl⟩ := List.mem_map.mp member
      obtain ⟨present, letters⟩ := each word found
      exact ⟨fun absent => present (String.toList_eq_nil_iff.mp absent), letters⟩
    have takes : (wordList isAlphabetic texts).Takes #[] (" ".intercalate words).toList.toArray 0
        _ _ := takes_wordList (isAlphabetic_of_lt (by decide)) texts
          (by rw [ne_eq, List.map_eq_nil_iff]; exact nonempty) letters whole
    have spelled : (words.map String.toList).map String.ofList = words := by
      simp
    rw [spelled, Joining.start, Joining.finishFrom_empty] at takes
    exact takes

/-- Values with empty displays are separated like others, and words are joined anew. -/
theorem joining_exact_empty_displays :
    (Collector.joining ⟨", ", "[", "]"⟩ id : Collector Id String String).fold ["", "a", ""] =
      "[, a, ]" ∧
    (wordList isAlphabetic ⟨", ", "[", "]"⟩).Answers #[] "ab c".toList.toArray {}
      (some (.string "[ab, c]")) := by
  obtain ⟨folds, lists⟩ := joining_exact ⟨", ", "[", "]"⟩
  have letters : ∀ word ∈ ["ab", "c"],
      word ≠ "" ∧ ∀ character ∈ word.toList, isAlphabetic character := by
    simp only [List.forall_mem_cons]
    exact ⟨⟨by decide, isAlphabetic_of_all (by decide)⟩,
      ⟨by decide, isAlphabetic_of_all (by decide)⟩, fun _ absent => absurd absent List.not_mem_nil⟩
  exact ⟨(folds id ["", "a", ""]).1, lists ["ab", "c"] #[] {} (by decide) letters⟩

end Text

end RecursiveDescent
