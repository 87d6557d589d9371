import RecursiveDescent.Binary.Grammar
import RecursiveDescent.Proofs.StandaloneGrammars
import RecursiveDescent.Text.Grammar

/-!
# Literals and what comes next

A literal compares a whole window of the source with the elements that it expects.  Matching these
elements in turn looks at one of them at a time and comes to the same outcome wherever the source
has not ended yet: a match exactly when the expected elements come next.

Past the end there is no window, not even an empty one.  So the two ways part for the empty literal,
and only for it: there matching no element at all is a match, and the literal fails.
-/

namespace RecursiveDescent

variable {ε ν : Type} [DecidableEq ε]

namespace Outcome

/-- A match of the expected elements if they come next, and a failure otherwise. -/
def ofNext (expected : List ε) (value : ν) (source : Array ε) (start : Nat) : Outcome ν :=
  if expected <+: remaining source start then .success expected.length value else .failure

variable {source : Array ε}

theorem ofLiteral_eq_ofNext (spanned : source.size < lastPosition) {start : Nat}
    (begins : start ≤ source.size) (expected : List ε) (value : ν) :
    ofLiteral expected value source start = ofNext expected value source start := by
  have found : window source start expected.length = some expected ↔
      expected <+: remaining source start := by
    rw [window_eq_some_iff source spanned]
    exact ⟨fun held => held.2.2, fun next => ⟨begins, rfl, next⟩⟩
  simp only [ofLiteral, ofNext, found]

omit [DecidableEq ε] in
theorem window_of_size_lt {start : Nat} (past : source.size < start) (width : Nat) :
    window source start width = none := by
  unfold window
  exact if_neg (by omega)

theorem ofLiteral_of_size_lt {start : Nat} (past : source.size < start) (expected : List ε)
    (value : ν) : ofLiteral expected value source start = .failure := by
  rw [ofLiteral, window_of_size_lt past]
  rfl

/-- Past the end nothing comes next but no elements at all. -/
theorem ofNext_of_size_lt {start : Nat} (past : source.size < start) (expected : List ε)
    (value : ν) :
    ofNext expected value source start = .failure ↔ expected ≠ [] := by
  have nothing : remaining source start = [] :=
    (remaining_eq_nil_iff source start).mpr (Nat.le_of_lt past)
  simp [ofNext, nothing]

theorem ofLiteral_eq_ofNext_iff (spanned : source.size < lastPosition) (start : Nat)
    (expected : List ε) (value : ν) :
    ofLiteral expected value source start = ofNext expected value source start ↔
      start ≤ source.size ∨ expected ≠ [] := by
  by_cases begins : start ≤ source.size
  · simp only [begins, true_or, iff_true]
    exact ofLiteral_eq_ofNext spanned begins expected value
  · have past : source.size < start := Nat.lt_of_not_le begins
    simp only [begins, false_or]
    rw [ofLiteral_of_size_lt past, eq_comm, ofNext_of_size_lt past]

end Outcome

namespace Grammar

/-! ### Elements in turn -/

/-- One element behind the other, each in its own grammar, with their values combined from the
left. -/
def inTurn (single : ε → Grammar ε ν) (combine : ν → ν → ν) (first : Grammar ε ν)
    (expected : List ε) : Grammar ε ν :=
  expected.foldl (fun before element => .sequence before (single element) combine) first

variable {rules : Rules ε ν} {source : Array ε} {start : Nat} {text rest : List ε} {value : ν}
  {first : Grammar ε ν} {meaning : ε → ν} {combine : ν → ν → ν}

def only (meaning : ε → ν) (expected : ε) : Grammar ε ν :=
  .element (fun found => found = expected) meaning

omit [DecidableEq ε] in
theorem Standalone.inTurn {single : ε → Grammar ε ν} (alone : first.Standalone)
    (each : ∀ element, (single element).Standalone) (combine : ν → ν → ν) (expected : List ε) :
    (inTurn single combine first expected).Standalone := by
  induction expected generalizing first with
  | nil => exact alone
  | cons element others othersCase => exact othersCase ⟨trivial, alone, each element⟩

theorem inTurn_fails {single : ε → Grammar ε ν} (fails : first.Yields rules source start .failure)
    (combine : ν → ν → ν) (expected : List ε) :
    (inTurn single combine first expected).Yields rules source start .failure := by
  induction expected generalizing first with
  | nil => exact fails
  | cons element others othersCase => exact othersCase (sequence_fails_first fails)

/-- Behind a match, the elements in turn are matched if they come next. -/
theorem takes_inTurn (beginning : first.Takes rules source start text value)
    (expected : List ε) (next : expected <+: remaining source (start + text.length)) :
    (inTurn (only meaning) combine first expected).Takes rules source start (text ++ expected)
      (expected.foldl (fun value element => combine value (meaning element)) value) := by
  induction expected generalizing first text value with
  | nil =>
      rw [List.append_nil]
      exact beginning
  | cons element others othersCase =>
      obtain ⟨behind, begins⟩ := next
      rw [List.cons_append] at begins
      have taken : (only meaning element).Takes rules source (start + text.length) [element] _ :=
        takes_element begins.symm (decide_eq_true rfl)
      have both : (Grammar.sequence first (only meaning element) combine).Takes rules source start
          (text ++ [element]) _ := beginning.sequence taken
      have following : others <+: remaining source (start + (text ++ [element]).length) := by
        rw [List.length_append, ← Nat.add_assoc]
        exact ⟨behind, (remaining_of_eq_cons begins.symm).symm⟩
      rw [List.append_cons]
      exact othersCase both following

theorem inTurn_fails_of_not_next (beginning : first.Takes rules source start text value)
    (expected : List ε) (other : ¬ expected <+: remaining source (start + text.length)) :
    (inTurn (only meaning) combine first expected).Yields rules source start .failure := by
  induction expected generalizing first text value with
  | nil => exact absurd List.nil_prefix other
  | cons element others othersCase =>
      by_cases next : [element] <+: remaining source (start + text.length)
      · obtain ⟨behind, begins⟩ := next
        have taken : (only meaning element).Takes rules source (start + text.length) [element] _ :=
          takes_element begins.symm (decide_eq_true rfl)
        have both : (Grammar.sequence first (only meaning element) combine).Takes rules source
            start (text ++ [element]) _ := beginning.sequence taken
        refine othersCase both fun following => other ?_
        rw [List.length_append, ← Nat.add_assoc, remaining_of_eq_append begins.symm] at following
        rw [← begins]
        exact (List.prefix_cons_inj element).mpr following
      · have avoids : Avoids (fun found => found = element)
            (remaining source (start + text.length)) := by
          intro found head
          obtain ⟨behind, begins⟩ := List.head?_eq_some_iff.mp head
          refine decide_eq_false ?_
          rintro rfl
          exact next ⟨behind, begins.symm⟩
        exact inTurn_fails (sequence_fails_second beginning (element_fails avoids)) combine others

theorem inTurn_yields (nothing : ν) (expected : List ε) (source : Array ε) (start : Nat) :
    (inTurn (only meaning) combine (.succeed nothing) expected).Yields rules source start
      (Outcome.ofNext expected
        (expected.foldl (fun value element => combine value (meaning element)) nothing)
        source start) := by
  have beginning : (Grammar.succeed nothing).Takes rules source start [] nothing :=
    takes_nothing_of_yields (yields_of_settled rfl rfl)
  unfold Outcome.ofNext
  by_cases next : expected <+: remaining source start
  · rw [if_pos next]
    exact (takes_inTurn beginning expected next).yields
  · rw [if_neg next]
    exact inTurn_fails_of_not_next beginning expected next

/-! ### Runs -/

/-- Every run of the grammar at this position comes to a match of the expected elements if they
come next, and to a failure otherwise. -/
def MatchesNext (grammar : Grammar ε ν) (expected : List ε) (value : ν) (source : Array ε)
    (start : Nat) : Prop :=
  ∀ (rules : Rules ε ν) (state : ParserState ν) (outcome : Outcome ν),
    (∃ final, grammar.Finishes rules source start state (outcome, final)) ↔
      outcome = Outcome.ofNext expected value source start

theorem literal_finishes_iff (expected : List ε) (value : ν) (rules : Rules ε ν)
    (source : Array ε) (start : Nat) (state : ParserState ν) (outcome : Outcome ν) :
    (∃ final, (literal expected value).Finishes rules source start state (outcome, final)) ↔
      outcome = Outcome.ofLiteral expected value source start := by
  have shape : (literal expected value).form rules source =
      .settled (Outcome.ofLiteral expected value source) :=
    rfl
  simp only [finishes_settled_iff shape, exists_and_left, exists_eq, and_true]

theorem takes_literal (spanned : source.size < lastPosition) (begins : start ≤ source.size)
    {expected : List ε} (next : expected <+: remaining source start) :
    (literal expected value).Takes rules source start expected value := by
  obtain ⟨rest, ahead⟩ := next
  have matched : Outcome.ofLiteral expected value source start =
      .success expected.length value := by
    rw [Outcome.ofLiteral_eq_ofNext spanned begins, Outcome.ofNext, if_pos ⟨rest, ahead⟩]
  exact takes_of_yields ahead.symm (yields_of_settled rfl matched)

theorem literal_fails (spanned : source.size < lastPosition) (begins : start ≤ source.size)
    {expected : List ε} (other : ¬ expected <+: remaining source start) :
    (literal expected value).Yields rules source start .failure := by
  have unmatched : Outcome.ofLiteral expected value source start = .failure := by
    rw [Outcome.ofLiteral_eq_ofNext spanned begins, Outcome.ofNext, if_neg other]
  exact yields_of_settled rfl unmatched

theorem literal_matchesNext_iff {source : Array ε} (spanned : source.size < lastPosition)
    (start : Nat) (expected : List ε) (value : ν) :
    (literal expected value).MatchesNext expected value source start ↔
      start ≤ source.size ∨ expected ≠ [] := by
  rw [← Outcome.ofLiteral_eq_ofNext_iff spanned start expected value]
  constructor
  · intro same
    exact (same #[] .initial _).mp
      ((literal_finishes_iff expected value #[] source start .initial _).mpr rfl)
  · intro same rules state outcome
    rw [literal_finishes_iff, same]

theorem inTurn_matchesNext (nothing : ν) (expected : List ε) (source : Array ε) (start : Nat) :
    (inTurn (only meaning) combine (.succeed nothing) expected).MatchesNext expected
      (expected.foldl (fun value element => combine value (meaning element)) nothing)
      source start := by
  intro rules state outcome
  have begun : (Grammar.succeed nothing : Grammar ε ν).Standalone := trivial
  have each (element : ε) : (only meaning element).Standalone := trivial
  have alone := begun.inTurn each combine expected
  rw [alone.finishes_iff_yields]
  constructor
  · intro yields
    exact yields.unique (inTurn_yields nothing expected source start)
  · rintro rfl
    exact inTurn_yields nothing expected source start

end Grammar

/-! ### Literals of characters and of bytes -/

namespace Text

/-- The characters of a string in turn, with their displays one behind the other. -/
def spelling (expected : String) : TextGrammar :=
  Grammar.inTurn character Value.concat (.succeed (.string "")) expected.toList

theorem foldl_concat (characters : List Char) (text : String) :
    characters.foldl (fun value found => Value.concat value (.char found)) (.string text) =
      .string (text ++ String.ofList characters) := by
  induction characters generalizing text with
  | nil => simp
  | cons found others othersCase =>
      rw [List.foldl_cons]
      refine (othersCase (text ++ found.toString)).trans (congrArg Value.string ?_)
      apply String.toList_inj.mp
      simp

theorem spelling_matchesNext (expected : String) (source : Array Char) (start : Nat) :
    (spelling expected).MatchesNext expected.toList (.string expected) source start := by
  have spelled : expected.toList.foldl (fun value found => Value.concat value (.char found))
      (.string "") = .string expected := by
    rw [foldl_concat]
    simp
  rw [← spelled]
  exact Grammar.inTurn_matchesNext _ _ _ _

end Text

namespace Binary

/-- The given bytes in turn, as a list. -/
def spelling (expected : List UInt8) : BinaryGrammar :=
  Grammar.inTurn byte Value.append (.succeed (.list [])) expected

theorem foldl_append (bytes : List UInt8) (items : List Value) :
    bytes.foldl (fun value found => Value.append value (valueOfByte found)) (.list items) =
      .list (items ++ bytes.map valueOfByte) := by
  induction bytes generalizing items with
  | nil => simp
  | cons found others othersCase =>
      rw [List.foldl_cons, List.map_cons, List.append_cons]
      exact othersCase (items ++ [valueOfByte found])

theorem spelling_matchesNext (expected : List UInt8) (source : Array UInt8) (start : Nat) :
    (spelling expected).MatchesNext expected (.list (expected.map valueOfByte)) source start := by
  rw [← List.nil_append (expected.map valueOfByte), ← foldl_append]
  exact Grammar.inTurn_matchesNext _ _ _ _

end Binary

/-- A literal of characters or of bytes matches exactly the elements that come next, and so does
matching its elements in turn, wherever the source has not ended before.  Past the end the literal
fails, as it has to unless it is empty. -/
theorem literals_match_next {characters : Array Char} {bytes : Array UInt8}
    (spanned : characters.size < lastPosition ∧ bytes.size < lastPosition)
    (text : String) (data : List UInt8) (start : Nat) :
    ((Text.spelling text).MatchesNext text.toList (.string text) characters start ∧
      ((Text.literal text).MatchesNext text.toList (.string text) characters start ↔
        start ≤ characters.size ∨ text ≠ "") ∧
      ∀ rules state outcome, characters.size < start →
        ((∃ final, (Text.literal text).Finishes rules characters start state (outcome, final)) ↔
          outcome = .failure)) ∧
    (Binary.spelling data).MatchesNext data (.list (data.map Binary.valueOfByte)) bytes start ∧
      ((Binary.literal data).MatchesNext data (.list (data.map Binary.valueOfByte)) bytes start ↔
        start ≤ bytes.size ∨ data ≠ []) ∧
      ∀ rules state outcome, bytes.size < start →
        ((∃ final, (Binary.literal data).Finishes rules bytes start state (outcome, final)) ↔
          outcome = .failure) := by
  refine ⟨⟨Text.spelling_matchesNext text characters start, ?_, ?_⟩,
    Binary.spelling_matchesNext data bytes start,
    Grammar.literal_matchesNext_iff spanned.2 start data _, ?_⟩
  · have same : text = "" ↔ text.toList = [] := String.toList_eq_nil_iff.symm
    rw [Ne, same]
    exact Grammar.literal_matchesNext_iff spanned.1 start text.toList _
  · intro rules state outcome past
    rw [Text.literal, Grammar.literal_finishes_iff, Outcome.ofLiteral_of_size_lt past]
  · intro rules state outcome past
    rw [Binary.literal, Grammar.literal_finishes_iff, Outcome.ofLiteral_of_size_lt past]

/-- In the middle of a source both ways match, and one position past the end the empty literal does
not match what matching no element does. -/
theorem literals_match_next_middle :
    (∃ final, (Text.literal "el").Finishes #[] "hello".toList.toArray 1 .initial
      (.success 2 (.string "el"), final)) ∧
    (∃ final, (Text.spelling "").Finishes #[] "hello".toList.toArray 6 .initial
      (.success 0 (.string ""), final)) ∧
    ∃ final, (Binary.literal []).Finishes #[] #[1, 2] 3 .initial (.failure, final) := by
  have spanned : "hello".toList.toArray.size < lastPosition ∧
      (#[1, 2] : Array UInt8).size < lastPosition := by decide
  have inside := literals_match_next spanned "el" [] 1
  have past := literals_match_next spanned "" [] 6
  have pastBytes := literals_match_next spanned "" [] 3
  refine ⟨?_, ?_, ?_⟩
  · have next : "el".toList <+: remaining "hello".toList.toArray 1 := by decide
    exact (inside.1.2.1.mpr (.inl (by decide)) #[] .initial _).mpr (if_pos next).symm
  · exact (past.1.1 #[] .initial _).mpr (if_pos List.nil_prefix).symm
  · exact (pastBytes.2.2.2 #[] .initial _ (by decide)).mpr rfl

/-- The empty literal does not match anywhere past the end. -/
theorem emptyLiteral_fails_past_end :
    (∃ final, (Text.literal "").Finishes #[] #[] 1 .initial (.failure, final)) ∧
    ¬ ∃ final, (Text.literal "").Finishes #[] #[] 1 .initial (.success 0 (.string ""), final) := by
  have settled (outcome : Outcome Value) :=
    Grammar.literal_finishes_iff "".toList (.string "") #[] (#[] : Array Char) 1 .initial outcome
  constructor
  · exact (settled .failure).mpr rfl
  · intro finishes
    cases (settled _).mp finishes

end RecursiveDescent
