import RecursiveDescent.Proofs.Literals
import RecursiveDescent.Proofs.LongestMatches
import RecursiveDescent.Value.Grammar

/-!
# Words and reserved words

A word is a run of letters, all that are ahead.  One word may be reserved: an identifier is a word
other than that.  The grammar of identifiers looks ahead for the reserved word with no letter behind
it and then takes letters.  Both halves of the lookahead matter.  Without the inner one no word that
begins with the reserved word would be an identifier, and without the outer one all words would.

Which characters are letters is left open; `letter` is the case of the alphabetic ones.
-/

namespace RecursiveDescent

namespace Text

/-- Letters, as many as there are and one at least, as a string. -/
def word (isLetter : Char → Bool) : TextGrammar :=
  .repeated (characterOf isLetter) Value.stringifying .oneOrMore

/-- The reserved word, where no letter is behind it. -/
def reservedWord (isLetter : Char → Bool) (reserved : String) : TextGrammar :=
  .keepingFirst (literal reserved) (.notAhead (characterOf isLetter) .unit)

/-- A word that is not the reserved one. -/
def identifier (isLetter : Char → Bool) (reserved : String) : TextGrammar :=
  .keepingSecond (.notAhead (reservedWord isLetter reserved) .unit) (word isLetter)

/-- The letters ahead, as many as there are. -/
def lettersAhead (isLetter : Char → Bool) (source : Array Char) (start : Nat) : List Char :=
  (remaining source start).takeWhile isLetter

/-- All letters ahead, if there are any and they are not the reserved word; a failure otherwise. -/
def identifierAhead (isLetter : Char → Bool) (reserved : String) (source : Array Char)
    (start : Nat) : Outcome Value :=
  if lettersAhead isLetter source start ≠ [] ∧
      lettersAhead isLetter source start ≠ reserved.toList then
    .success (lettersAhead isLetter source start).length
      (Value.ofCharacters (lettersAhead isLetter source start))
  else
    .failure

variable {isLetter : Char → Bool} {reserved : String} {rules : Rules Char Value}
  {source : Array Char} {start : Nat} {text rest : List Char}

/-! ### Letters ahead -/

theorem lettersAhead_of_begins (letters : ∀ character ∈ text, isLetter character)
    (begins : remaining source start = text ++ rest) (maximal : Avoids isLetter rest) :
    lettersAhead isLetter source start = text := by
  rw [lettersAhead, begins, maximal.takeWhile_append letters]

theorem remaining_eq_lettersAhead_append (isLetter : Char → Bool) (source : Array Char)
    (start : Nat) : ∃ rest, remaining source start = lettersAhead isLetter source start ++ rest ∧
      Avoids isLetter rest :=
  ⟨_, List.takeWhile_append_dropWhile.symm, avoids_dropWhile isLetter _⟩

/-! ### Words -/

theorem gathered_stringifying (run : List Char) :
    ValueCollector.gathered Value.stringifying (run.map Value.char) = Value.ofCharacters run := by
  have joined (text : String) : (run.map Value.char).foldl
      (fun text value => text ++ Value.display value) text = text ++ String.ofList run := by
    induction run generalizing text with
    | nil => simp
    | cons first others othersCase =>
        rw [List.map_cons, List.foldl_cons, othersCase]
        apply String.toList_inj.mp
        simp [Value.display]
  exact congrArg Value.string ((joined "").trans String.empty_append)

theorem takes_lettersAhead (present : lettersAhead isLetter source start ≠ []) :
    (word isLetter).Takes rules source start (lettersAhead isLetter source start)
      (Value.ofCharacters (lettersAhead isLetter source start)) := by
  have takes : (word isLetter).Takes rules source start (lettersAhead isLetter source start) _ :=
    Grammar.takes_takeWhile rfl (List.length_pos_iff.mpr present)
  rw [← gathered_stringifying]
  exact takes

theorem takes_word_of_begins (present : text ≠ [])
    (letters : ∀ character ∈ text, isLetter character)
    (begins : remaining source start = text ++ rest) (maximal : Avoids isLetter rest) :
    (word isLetter).Takes rules source start text (Value.ofCharacters text) := by
  have ahead := lettersAhead_of_begins letters begins maximal
  rw [← ahead] at present ⊢
  exact takes_lettersAhead present

theorem word_fails (absent : lettersAhead isLetter source start = []) :
    (word isLetter).Yields rules source start .failure :=
  Grammar.repeated_fails_first rfl (by decide)
    (Grammar.element_fails (takeWhile_eq_nil_iff.mp absent))

/-! ### Reserved words -/

theorem lexical_reservedWord : (reservedWord isLetter reserved).Lexical :=
  ⟨trivial, trivial, trivial, trivial⟩

theorem lexical_identifier : (identifier isLetter reserved).Lexical :=
  ⟨trivial, ⟨trivial, lexical_reservedWord⟩, trivial, trivial⟩

theorem takes_reservedWord (spanned : source.size < lastPosition) (begins : start ≤ source.size)
    (same : lettersAhead isLetter source start = reserved.toList) :
    (reservedWord isLetter reserved).Takes rules source start reserved.toList
      (.string reserved) := by
  obtain ⟨rest, ahead, maximal⟩ := remaining_eq_lettersAhead_append isLetter source start
  rw [same] at ahead
  have text : (literal reserved).Takes rules source start reserved.toList (.string reserved) :=
    Grammar.takes_literal spanned begins ⟨rest, ahead.symm⟩
  have noLetter : (characterOf isLetter).Yields rules source (start + reserved.toList.length)
      .failure := by
    refine Grammar.element_fails ?_
    rw [remaining_of_eq_append ahead]
    exact maximal
  have both : (reservedWord isLetter reserved).Takes rules source start (reserved.toList ++ []) _ :=
    text.sequence (Grammar.takes_notAhead noLetter)
  rw [List.append_nil] at both
  exact both

theorem reservedWord_fails (spanned : source.size < lastPosition) (begins : start ≤ source.size)
    (letters : ∀ character ∈ reserved.toList, isLetter character)
    (other : lettersAhead isLetter source start ≠ reserved.toList) :
    (reservedWord isLetter reserved).Yields rules source start .failure := by
  by_cases next : reserved.toList <+: remaining source start
  · have text : (literal reserved).Takes rules source start reserved.toList (.string reserved) :=
      Grammar.takes_literal spanned begins next
    obtain ⟨rest, ahead⟩ := next
    -- The letters go on behind the text, or else the text would be all letters ahead.
    cases rest with
    | nil => exact absurd (lettersAhead_of_begins letters ahead.symm (avoids_nil _)) other
    | cons first others =>
        cases letter : isLetter first with
        | false =>
            exact absurd (lettersAhead_of_begins letters ahead.symm (avoids_cons.mpr letter)) other
        | true =>
            have follows : (characterOf isLetter).Takes rules source
                (start + reserved.toList.length) [first] _ :=
              Grammar.takes_element (remaining_of_eq_append ahead.symm) letter
            exact Grammar.sequence_fails_second text (Grammar.notAhead_fails follows.yields)
  · exact Grammar.sequence_fails_first (Grammar.literal_fails spanned begins next)

/-! ### Identifiers -/

/-- Where there is no letter there is no identifier, whatever the lookahead comes to. -/
theorem identifier_fails_of_absent (absent : lettersAhead isLetter source start = []) :
    (identifier isLetter reserved).Yields #[] source start .failure := by
  have lexical : (reservedWord isLetter reserved).Lexical := lexical_reservedWord
  obtain ⟨outcome, looked⟩ := lexical.exists_yields source start
  cases outcome with
  | success width value => exact Grammar.sequence_fails_first (Grammar.notAhead_fails looked)
  | failure =>
      exact Grammar.sequence_fails_second (Grammar.takes_notAhead looked) (word_fails absent)

/-- What the grammar of identifiers yields. -/
theorem identifier_yields (spanned : source.size < lastPosition)
    (letters : ∀ character ∈ reserved.toList, isLetter character) (start : Nat) :
    (identifier isLetter reserved).Yields #[] source start
      (identifierAhead isLetter reserved source start) := by
  unfold identifierAhead
  by_cases absent : lettersAhead isLetter source start = []
  · rw [if_neg (fun present => present.1 absent)]
    exact identifier_fails_of_absent absent
  · have begins : start ≤ source.size := Nat.le_of_lt (lt_size_of_takeWhile absent)
    by_cases same : lettersAhead isLetter source start = reserved.toList
    · rw [if_neg (fun present => present.2 same)]
      have found : (reservedWord isLetter reserved).Takes #[] source start _ _ :=
        takes_reservedWord spanned begins same
      exact Grammar.sequence_fails_first (Grammar.notAhead_fails found.yields)
    · rw [if_pos ⟨absent, same⟩]
      have clear : (Grammar.notAhead (reservedWord isLetter reserved) .unit).Takes #[] source start
          [] .unit := Grammar.takes_notAhead (reservedWord_fails spanned begins letters same)
      exact (clear.sequence (takes_lettersAhead absent)).yields

/-- The grammar of identifiers takes all letters ahead and yields them as a text, unless there are
none or they are the reserved word; then it fails.  So of the words that stand in front of no other
letter it rejects the reserved word alone.  Words that the reserved word begins with, and words that
begin with the reserved word, are identifiers like all others. -/
theorem identifier_exact (letters : ∀ character ∈ reserved.toList, isLetter character)
    (spanned : source.size < lastPosition) (rules : Rules Char Value)
    (state : ParserState Value) :
    (∀ start outcome,
      (∃ final, (identifier isLetter reserved).Finishes rules source start state
          (outcome, final)) ↔
        outcome = identifierAhead isLetter reserved source start) ∧
    ∀ start text rest, remaining source start = text ++ rest → text ≠ [] →
      (∀ character ∈ text, isLetter character) → Avoids isLetter rest →
        ((∃ final, (identifier isLetter reserved).Finishes rules source start state
            (.success text.length (Value.ofCharacters text), final)) ↔
          text ≠ reserved.toList) ∧
        ((∃ final, (identifier isLetter reserved).Finishes rules source start state
            (.failure, final)) ↔
          text = reserved.toList) := by
  have answers (start : Nat) (outcome : Outcome Value) :
      (∃ final, (identifier isLetter reserved).Finishes rules source start state
        (outcome, final)) ↔ outcome = identifierAhead isLetter reserved source start := by
    rw [lexical_identifier.finishes_iff_yields]
    constructor
    · intro yields
      exact yields.unique (identifier_yields spanned letters start)
    · rintro rfl
      exact identifier_yields spanned letters start
  refine ⟨answers, fun start text rest begins nonempty members maximal => ?_⟩
  rw [answers, answers, identifierAhead, lettersAhead_of_begins members begins maximal]
  by_cases same : text = reserved.toList
  · rw [if_neg (fun other => other.2 same)]
    simp [same]
  · rw [if_pos ⟨nonempty, same⟩]
    simp [same]

/-- The reserved word, a word that begins with it, and a word that it begins with. -/
theorem identifier_exact_iffy :
    (∃ final, (identifier isAlphabetic "if").Finishes #[] #['i', 'f', ' ', 'i', 'f', 'f', 'y'] 0 {}
      (.failure, final)) ∧
    (∃ final, (identifier isAlphabetic "if").Finishes #[] #['i', 'f', ' ', 'i', 'f', 'f', 'y'] 3 {}
      (.success 4 (Value.ofCharacters ['i', 'f', 'f', 'y']), final)) ∧
    ∃ final, (identifier isAlphabetic "if").Finishes #[] #['i'] 0 {}
      (.success 1 (Value.ofCharacters ['i']), final) := by
  have letters : ∀ character ∈ "if".toList, isAlphabetic character :=
    isAlphabetic_of_all (by decide)
  have spanned : #['i', 'f', ' ', 'i', 'f', 'f', 'y'].size < lastPosition := by decide
  have spanned' : #['i'].size < lastPosition := by decide
  obtain ⟨-, words⟩ := identifier_exact letters spanned #[] {}
  obtain ⟨-, shorter⟩ := identifier_exact letters spanned' #[] {}
  have blank : Avoids isAlphabetic [' ', 'i', 'f', 'f', 'y'] :=
    avoids_cons.mpr (isAlphabetic_of_lt (by decide))
  exact ⟨(words 0 ['i', 'f'] _ rfl (by decide) letters blank).2.mpr rfl,
    (words 3 ['i', 'f', 'f', 'y'] [] rfl (by decide) (isAlphabetic_of_all (by decide))
      (avoids_nil _)).1.mpr (by decide),
    (shorter 0 ['i'] [] rfl (by decide) (isAlphabetic_of_all (by decide))
      (avoids_nil _)).1.mpr (by decide)⟩

end Text

end RecursiveDescent
