import RecursiveDescent.Proofs.IntegerLiterals
import RecursiveDescent.Proofs.ItemLists
import RecursiveDescent.Value.Grammar
import Mathlib.Data.List.Forall2

/-!
# Lists of numbers in brackets

Unsigned integers with commas between them, in brackets: the format has no white space, no empty
list and no comma without a number behind it.  The separated list takes a comma only together with
a number.  A comma that no number follows is left to the closing bracket, which fails there.
-/

namespace RecursiveDescent

namespace Text

/-- Unsigned integers with commas between them, in brackets. -/
def numberList : TextGrammar :=
  .keepingFirst
    (.keepingSecond (character '[') (.separated unsignedInteger (character ',') Value.listing))
    (character ']')

/-- Digits that denote a 64-bit word. -/
def DenotesWord (run : List Char) (word : UInt64) : Prop :=
  IsDigits run ∧ Nat.ofDigitChars 10 run 0 = word.toNat

def bracketed (runs : List (List Char)) : List Char :=
  '[' :: ([','].intercalate runs ++ [']'])

def withCommas (runs : List (List Char)) : List Char :=
  runs.flatMap (',' :: ·)

/-- The text of a list of words, at least one. -/
def IsNumberList (text : List Char) (words : List UInt64) : Prop :=
  words ≠ [] ∧ ∃ runs, List.Forall₂ DenotesWord runs words ∧ text = bracketed runs

def listed (words : List UInt64) : Value :=
  .list (words.map fun word => .int word.toNat)

variable {rules : Rules Char Value} {source : Array Char} {start : Nat} {value : Value}
  {run text rest before after : List Char} {runs : List (List Char)} {word : UInt64}
  {words : List UInt64} {taken : List (List Char × Value)}

/-! ### The format -/

@[simp]
theorem withCommas_nil : withCommas [] = [] :=
  rfl

theorem withCommas_cons (run : List Char) (runs : List (List Char)) :
    withCommas (run :: runs) = ',' :: (run ++ withCommas runs) :=
  List.flatMap_cons

theorem bracketed_cons (run : List Char) (runs : List (List Char)) :
    bracketed (run :: runs) = '[' :: (run ++ withCommas runs) ++ [']'] := by
  rw [bracketed, intercalate_cons_eq_flatMap]
  rfl

theorem IsNumberList.exists_head (isList : IsNumberList text words) :
    ∃ run word runs others, DenotesWord run word ∧ List.Forall₂ DenotesWord runs others ∧
      words = word :: others ∧ text = '[' :: (run ++ withCommas runs) ++ [']'] := by
  obtain ⟨nonempty, runs, each, rfl⟩ := isList
  cases each with
  | nil => exact absurd rfl nonempty
  | @cons run word runs others denotes each =>
      exact ⟨run, word, runs, others, denotes, each, rfl, bracketed_cons run runs⟩

theorem isNumberList_cons {others : List UInt64} (denotes : DenotesWord run word)
    (each : List.Forall₂ DenotesWord runs others) :
    IsNumberList ('[' :: (run ++ withCommas runs) ++ [']']) (word :: others) :=
  ⟨List.cons_ne_nil _ _, run :: runs, .cons denotes each, (bracketed_cons run runs).symm⟩

theorem not_mem_withCommas {mark : Char} (each : List.Forall₂ DenotesWord runs words)
    (notDigit : Decimal.isDigit mark = false) (notComma : mark ≠ ',') :
    mark ∉ withCommas runs := by
  induction each with
  | nil => exact List.not_mem_nil
  | cons denotes _ eachCase =>
      rw [withCommas_cons, List.mem_cons, List.mem_append]
      rintro (comma | found | found)
      · exact notComma comma
      · exact denotes.1.not_mem notDigit found
      · exact eachCase found

theorem digit_behind_separator (each : List.Forall₂ DenotesWord runs words)
    (absent : ',' ∉ rest) (cut : withCommas runs ++ rest = before ++ ',' :: after) :
    ∃ first others, after = first :: others ∧ Decimal.isDigit first := by
  induction each generalizing before with
  | nil =>
      rw [withCommas_nil, List.nil_append] at cut
      rw [cut] at absent
      exact absurd (List.mem_append_right before List.mem_cons_self) absent
  | @cons run word runs words denotes _ eachCase =>
      rw [withCommas_cons, List.cons_append, List.append_assoc] at cut
      cases before with
      | nil =>
          obtain ⟨_, rfl⟩ := List.cons.inj cut
          obtain ⟨first, others, rfl, digit⟩ := denotes.1.exists_cons
          exact ⟨first, _, rfl, digit⟩
      | cons first left =>
          obtain ⟨_, same⟩ := List.cons.inj cut
          obtain ⟨more, behind⟩ := exists_behind (denotes.1.not_mem rfl) same
          exact eachCase behind

/-- A comma in a list of words has a digit behind it. -/
theorem IsNumberList.digit_behind_comma (isList : IsNumberList text words)
    (cut : text = before ++ ',' :: after) :
    ∃ first others, after = first :: others ∧ Decimal.isDigit first := by
  obtain ⟨run, word, runs, others, denotes, each, rfl, rfl⟩ := isList.exists_head
  have absent : ',' ∉ '[' :: run := by
    rw [List.mem_cons, not_or]
    exact ⟨by decide, denotes.1.not_mem rfl⟩
  have front : ('[' :: run) ++ (withCommas runs ++ [']']) = before ++ ',' :: after := by
    rw [← cut, ← List.append_assoc]
    rfl
  obtain ⟨more, behind⟩ := exists_behind absent front
  exact digit_behind_separator each (by decide) behind

theorem IsNumberList.nothing_behind_closing (isList : IsNumberList text words)
    (cut : text = before ++ ']' :: after) : after = [] := by
  obtain ⟨run, word, runs, others, denotes, each, rfl, rfl⟩ := isList.exists_head
  have absent : ']' ∉ '[' :: (run ++ withCommas runs) := by
    rw [List.mem_cons, List.mem_append, not_or, not_or]
    exact ⟨by decide, denotes.1.not_mem rfl, not_mem_withCommas each rfl (by decide)⟩
  obtain ⟨more, behind⟩ := exists_behind absent cut
  -- Only the closing bracket is behind the words.
  cases more with
  | nil => exact (List.cons.inj behind).2.symm
  | cons first left =>
      have lengths := congrArg List.length behind
      simp at lengths

/-! ### Words -/

theorem takes_word (denotes : DenotesWord run word) (begins : remaining source start = run ++ rest)
    (maximal : Avoids Decimal.isDigit rest) :
    unsignedInteger.Takes #[] source start run (.int word.toNat) := by
  have ahead : digitsAhead source start = run := by
    rw [digitsAhead, begins, maximal.takeWhile_append denotes.1.2]
  have yields := unsignedInteger_yields source start
  rw [ahead, if_pos ⟨denotes.1.1, by rw [denotes.2]; exact word.toNat_lt⟩, denotes.2] at yields
  exact Grammar.takes_of_yields begins yields

theorem exists_word_of_takes (takes : unsignedInteger.Takes #[] source start text value) :
    ∃ word : UInt64, DenotesWord text word ∧ value = .int word.toNat := by
  have expected := takes.yields.unique (unsignedInteger_yields source start)
  split at expected
  · rename_i present
    obtain ⟨length, rfl⟩ := Outcome.success.inj expected
    have ahead : digitsAhead source start <+: remaining source start := List.takeWhile_prefix _
    have same : text = digitsAhead source start :=
      (List.prefix_of_prefix_length_le takes.prefix_remaining ahead
        (Nat.le_of_eq length)).eq_of_length length
    have word : (UInt64.ofNat (Nat.ofDigitChars 10 text 0)).toNat = Nat.ofDigitChars 10 text 0 := by
      rw [UInt64.toNat_ofNat', same]
      exact Nat.mod_eq_of_lt present.2
    refine ⟨UInt64.ofNat (Nat.ofDigitChars 10 text 0), ⟨⟨?_, ?_⟩, word.symm⟩, ?_⟩
    · rw [same]
      exact present.1
    · rw [same]
      exact isDigit_of_mem_digitsAhead
    · rw [word, same]
  · cases expected

def followingWord : TextGrammar :=
  .sequence (character ',') unsignedInteger fun _ value => value

/-- In front of a closing bracket, the loop takes the words with commas in front, and no more. -/
theorem repeats_words (each : List.Forall₂ DenotesWord runs words)
    (begins : remaining source start = withCommas runs ++ ']' :: rest) :
    ∃ taken, followingWord.Repeats #[] source start taken ∧
      Grammar.spelled taken = withCommas runs ∧
      taken.map Prod.snd = words.map fun word => .int word.toNat := by
  refine Grammar.repeats_behind_marks ',' rfl Decimal.isDigit rfl ?_ (avoids_cons.mpr rfl)
    (avoids_cons.mpr rfl) begins
  rw [List.forall₂_map_right_iff]
  exact each.imp fun run word denotes start following begins maximal =>
    takes_word denotes begins maximal

theorem exists_words_of_repeats (repeats : followingWord.Repeats #[] source start taken) :
    ∃ runs words, List.Forall₂ DenotesWord runs words ∧
      Grammar.spelled taken = withCommas runs ∧
      taken.map Prod.snd = words.map fun word => .int word.toNat := by
  induction repeats with
  | stop fails => exact ⟨[], [], .nil, rfl, rfl⟩
  | more takes _ repeatsCase =>
      obtain ⟨commaText, run, _, _, rfl, comma, number, rfl⟩ := takes.of_sequence
      obtain rfl := eq_of_takes_character comma
      obtain ⟨word, denotes, rfl⟩ := exists_word_of_takes number
      obtain ⟨runs, words, each, spelling, values⟩ := repeatsCase
      refine ⟨run :: runs, word :: words, .cons denotes each, ?_, ?_⟩
      · rw [Grammar.spelled_cons, spelling, withCommas_cons]
        rfl
      · rw [List.map_cons, values, List.map_cons]

/-! ### Lists of words -/

theorem takes_numberList (isList : IsNumberList source.toList words) :
    numberList.Takes #[] source 0 source.toList (listed words) := by
  obtain ⟨run, word, runs, others, denotes, each, rfl, whole⟩ := isList.exists_head
  have begins : remaining source 0 = '[' :: (run ++ (withCommas runs ++ [']'])) := by
    refine Eq.trans whole ?_
    simp
  have opening : (character '[').Takes #[] source 0 ['['] _ := takes_character begins
  have beginsHead := remaining_of_eq_cons begins
  have head := takes_word denotes beginsHead (avoids_marked rfl (avoids_cons.mpr rfl) runs)
  obtain ⟨taken, repeats, spelling, values⟩ :=
    repeats_words each (remaining_of_eq_append beginsHead)
  have list : (Grammar.separated unsignedInteger (character ',') Value.listing).Takes #[] source
      (0 + 1) _ _ := Grammar.takes_separated head repeats
  rw [spelling, values, gathered_listing] at list
  have closing : (character ']').Takes #[] source
      (0 + ('[' :: (run ++ withCommas runs)).length) [']'] _ :=
    takes_character (remaining_of_eq_append whole)
  rw [whole]
  exact (opening.sequence list).sequence closing

theorem exists_words_of_takes {text : List Char}
    (takes : numberList.Takes #[] source start text value) :
    ∃ words, value = listed words ∧ IsNumberList text words := by
  obtain ⟨front, closingText, _, _, rfl, opened, closing, rfl⟩ := takes.of_sequence
  obtain ⟨openingText, inside, _, _, rfl, opening, list, rfl⟩ := opened.of_sequence
  obtain rfl := eq_of_takes_character opening
  obtain rfl := eq_of_takes_character closing
  obtain ⟨run, _, taken, head, repeats, rfl, rfl⟩ := list.of_separated
  obtain ⟨word, denotes, rfl⟩ := exists_word_of_takes head
  obtain ⟨runs, words, each, spelling, values⟩ := exists_words_of_repeats repeats
  refine ⟨word :: words, ?_, ?_⟩
  · rw [values, gathered_listing]
    rfl
  · rw [spelling]
    exact isNumberList_cons denotes each

theorem standalone_numberList : numberList.Standalone :=
  ⟨trivial, ⟨trivial, trivial, trivial, lexical_unsignedInteger.standalone, trivial⟩, trivial⟩

theorem exists_numberList_yields (source : Array Char) (start : Nat) :
    ∃ outcome, numberList.Yields #[] source start outcome := by
  have functionFree : numberList.FunctionFree :=
    ⟨trivial, ⟨trivial, trivial, trivial, lexical_unsignedInteger.functionFree, trivial⟩, trivial⟩
  -- Every round of the loop takes a comma at least.
  have progress (position : Nat) (value : Value) :
      ¬ (character ',').Yields #[] source position (.success 0 value) := by
    intro nothing
    cases (Grammar.element_yields_success nothing).1
  have guarded : numberList.Guarded #[] source :=
    ⟨⟨trivial, lexical_unsignedInteger.guarded #[] source, trivial,
      fun position separator _ separates => absurd separates (progress position separator)⟩, trivial⟩
  exact guarded.exists_yields functionFree start

section Answers

variable (rules : Rules Char Value) (source : Array Char) (state : ParserState Value)

theorem exists_numberList_answer : ∃ answer, numberList.Answers rules source state answer := by
  obtain ⟨outcome, yields⟩ := exists_numberList_yields source 0
  exact ⟨_, Grammar.answers_iff_finishes.mpr
    ⟨outcome, (standalone_numberList.finishes_iff_yields rules state).mpr yields, rfl⟩⟩

theorem numberList_answers_some_iff :
    numberList.Answers rules source state (some value) ↔
      ∃ words, value = listed words ∧ IsNumberList source.toList words := by
  rw [Grammar.answers_some_iff fun _ => standalone_numberList.finishes_iff_yields rules state]
  constructor
  · exact exists_words_of_takes
  · rintro ⟨words, rfl, isList⟩
    exact takes_numberList isList

theorem numberList_rejects (noList : ∀ words, ¬ IsNumberList source.toList words) :
    numberList.Answers rules source state none := by
  obtain ⟨answer, answers⟩ := exists_numberList_answer rules source state
  cases answer with
  | none => exact answers
  | some value =>
      obtain ⟨words, _, isList⟩ := (numberList_answers_some_iff rules source state).mp answers
      exact absurd isList (noList words)

end Answers

/-- The grammar of bracketed lists answers with a list of words exactly on its text, and comes to an
answer on every source.  In particular it reads a list of words back from their decimal texts, and
rejects the empty list, a comma in front of the closing bracket or of another comma, and anything
behind a closing bracket. -/
theorem numberList_exact (rules : Rules Char Value) (state : ParserState Value) :
    (∀ source,
      (∃ answer, numberList.Answers rules source state answer) ∧
      (∀ value, numberList.Answers rules source state (some value) ↔
        ∃ words, value = listed words ∧ IsNumberList source.toList words) ∧
      ∀ answer last, numberList.parseComplete rules source state = some (answer, last) →
        ∀ value, answer = some value ↔
          ∃ words, value = listed words ∧ IsNumberList source.toList words) ∧
    (∀ words : List UInt64, words ≠ [] →
      numberList.Answers rules
        (bracketed (words.map fun word => (toString word).toList)).toArray state
        (some (listed words))) ∧
    numberList.Answers rules #['[', ']'] state none ∧
    (∀ before, numberList.Answers rules (before ++ [',', ']']).toArray state none) ∧
    (∀ before after, numberList.Answers rules (before ++ ',' :: ',' :: after).toArray state none) ∧
    ∀ before after, after ≠ [] →
      numberList.Answers rules (before ++ ']' :: after).toArray state none := by
  refine ⟨fun source => ⟨exists_numberList_answer rules source state,
    fun value => numberList_answers_some_iff rules source state, ?_⟩, fun words nonempty => ?_,
    numberList_rejects rules _ state fun words isList => ?_,
    fun before => numberList_rejects rules _ state fun words isList => ?_,
    fun before after => numberList_rejects rules _ state fun words isList => ?_,
    fun before after trailing => numberList_rejects rules _ state fun words isList => ?_⟩
  · intro answer last parsed value
    have answers := Grammar.answers_of_parseComplete parsed
    rw [← numberList_answers_some_iff rules source state]
    constructor
    · rintro rfl
      exact answers
    · exact answers.unique
  · refine (numberList_answers_some_iff rules _ state).mpr
      ⟨words, rfl, nonempty, _, ?_, rfl⟩
    rw [List.forall₂_map_left_iff, List.forall₂_same]
    intro word _
    have written : (toString word).toList = Nat.toDigits 10 word.toNat := Nat.toList_repr
    rw [written]
    exact ⟨isDigits_toDigits word.toNat, Nat.ofDigitChars_ten_toDigits⟩
  · obtain ⟨run, word, runs, others, denotes, _, _, text⟩ := isList.exists_head
    have lengths := congrArg List.length text
    have present := List.length_pos_iff.mpr denotes.1.1
    simp at lengths
    omega
  · obtain ⟨_, _, same, digit⟩ := isList.digit_behind_comma rfl
    cases same
    cases digit
  · obtain ⟨_, _, same, digit⟩ := isList.digit_behind_comma rfl
    cases same
    cases digit
  · exact trailing (isList.nothing_behind_closing rfl)

/-- Three words, and a list with a space behind it. -/
theorem numberList_exact_threeWords :
    numberList.Answers #[] "[1,22,333]".toList.toArray {} (some (listed [1, 22, 333])) ∧
    numberList.Answers #[] "[1] ".toList.toArray {} none := by
  obtain ⟨-, read, -, -, -, trailing⟩ := numberList_exact #[] ({} : ParserState Value)
  have written : bracketed ([1, 22, 333].map fun word : UInt64 => (toString word).toList) =
      "[1,22,333]".toList := by decide
  have found := read [1, 22, 333] (by decide)
  rw [written] at found
  exact ⟨found, trailing ['[', '1'] [' '] (by decide)⟩

end Text

end RecursiveDescent
