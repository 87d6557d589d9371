import RecursiveDescent.Proofs.LexicalGrammars
import RecursiveDescent.Proofs.Takes

/-!
# Longest matches

Where a grammar matches it may take the longest text of a language that is ahead, and it may fail
only where no text of the language is ahead.  Loops over elements do, and parts that do make up
sequences, options and recognized texts that do.

A sequence needs a condition, because a first part that took less might leave more to the second
one.  It cannot when no text of the first language contains an element that a text of the second
one begins with: then a shorter first part is followed by nothing.
-/

namespace RecursiveDescent

variable {ε ν : Type}

/-- The text is the longest beginning of another text that belongs to the language. -/
structure IsLongest (language : List ε → Prop) (text whole : List ε) : Prop where
  member : language text
  begins : text <+: whole
  longest : ∀ other, language other → other <+: whole → other.length ≤ text.length

/-- Texts that are a text of the first language with one of the second language behind it. -/
def Concatenated (first second : List ε → Prop) (text : List ε) : Prop :=
  ∃ beginning following, first beginning ∧ second following ∧ text = beginning ++ following

/-- Texts of one element, which passes a test. -/
def IsSingle (test : ε → Bool) (text : List ε) : Prop :=
  ∃ only, test only ∧ text = [only]

/-- Texts of elements that all pass a test, at least as many as the minimum. -/
def IsRun (test : ε → Bool) (minimum : Nat) (text : List ε) : Prop :=
  minimum ≤ text.length ∧ ∀ element ∈ text, test element

variable {language first second : List ε → Prop} {text other whole : List ε}

theorem IsLongest.unique (left : IsLongest language text whole)
    (right : IsLongest language other whole) : text = other := by
  have same : text.length = other.length :=
    Nat.le_antisymm (right.longest text left.member left.begins)
      (left.longest other right.member right.begins)
  exact (List.prefix_of_prefix_length_le left.begins right.begins (Nat.le_of_eq same)).eq_of_length
    same

theorem prefix_takeWhile {test : ε → Bool} (members : ∀ element ∈ text, test element)
    (begins : text <+: whole) : text <+: whole.takeWhile test := by
  obtain ⟨rest, rfl⟩ := begins
  rw [List.takeWhile_append_of_pos members]
  exact List.prefix_append _ _

theorem Concatenated.forall_mem {holds : ε → Prop} (concatenated : Concatenated first second text)
    (inFirst : ∀ text, first text → ∀ element ∈ text, holds element)
    (inSecond : ∀ text, second text → ∀ element ∈ text, holds element) :
    ∀ element ∈ text, holds element := by
  obtain ⟨beginning, following, member, memberBehind, rfl⟩ := concatenated
  intro element found
  rcases List.mem_append.mp found with found | found
  · exact inFirst beginning member element found
  · exact inSecond following memberBehind element found

theorem IsSingle.free {test isMember : ε → Bool} (single : IsSingle test text)
    (disjoint : ∀ element, test element → isMember element = false) :
    ∀ element ∈ text, isMember element = false := by
  obtain ⟨only, passes, rfl⟩ := single
  simpa using disjoint only passes

theorem disjoint_symm {isMember isOther : ε → Bool}
    (disjoint : ∀ element, isOther element → isMember element = false) :
    ∀ element, isMember element → isOther element = false := by
  intro element member
  cases other : isOther element with
  | false => rfl
  | true =>
      rw [disjoint element other] at member
      cases member

theorem not_mem_of_free {isMember : ε → Bool} {mark : ε}
    (free : ∀ element ∈ text, isMember element = false) (member : isMember mark) : mark ∉ text := by
  intro found
  rw [free mark found] at member
  cases member

/-- When a text is cut in front of an element that a part at its beginning does not contain, the
cut is behind that part. -/
theorem exists_behind {mark : ε} {front tail before after : List ε} (absent : mark ∉ front)
    (cut : front ++ tail = before ++ mark :: after) : ∃ more, tail = more ++ mark :: after := by
  rcases List.append_eq_append_iff.mp cut with ⟨more, _, behind⟩ | ⟨left, rfl, same⟩
  · exact ⟨more, behind⟩
  · cases left with
    | nil => exact ⟨[], same.symm⟩
    | cons first others =>
        obtain ⟨rfl, _⟩ := List.cons.inj same
        exact absurd (List.mem_append_right before List.mem_cons_self) absent

/-- When no element of a text can begin what follows, a shorter beginning is followed by nothing. -/
theorem followed_by_nothing {isMember : ε → Bool} {beginning following rest : List ε}
    (free : ∀ element ∈ text, isMember element = false) (led : LedBy isMember following)
    (shorter : beginning.length ≤ text.length)
    (begins : beginning ++ following <+: text ++ rest) :
    beginning = text ∧ following <+: rest ∨ beginning.length < text.length ∧ following = [] := by
  induction text generalizing beginning with
  | nil =>
      cases List.length_eq_zero_iff.mp (Nat.le_zero.mp shorter)
      exact .inl ⟨rfl, begins⟩
  | cons head others othersCase =>
      cases beginning with
      | nil =>
          refine .inr ⟨Nat.succ_pos _, ?_⟩
          -- What follows would have to begin with an element of the text.
          cases following with
          | nil => rfl
          | cons next left =>
              obtain ⟨rfl, _⟩ := List.cons_prefix_cons.mp begins
              have outside := free next List.mem_cons_self
              rw [ledBy_cons.mp led] at outside
              cases outside
      | cons begun left =>
          obtain ⟨rfl, beginsOthers⟩ := List.cons_prefix_cons.mp begins
          rcases othersCase (fun element member => free element (List.mem_cons_of_mem _ member))
            (Nat.le_of_succ_le_succ shorter) beginsOthers with ⟨rfl, ahead⟩ | ⟨less, nothing⟩
          · exact .inl ⟨rfl, ahead⟩
          · exact .inr ⟨Nat.succ_lt_succ less, nothing⟩

variable [DecidableEq ε]

namespace Grammar

variable {grammar inner item : Grammar ε ν} {source : Array ε} {start : Nat} {value : ν}

/-- The grammar takes the longest text of the language that is ahead, and fails only where none
is. -/
structure TakesLongest (grammar : Grammar ε ν) (language : List ε → Prop) (source : Array ε) :
    Prop where
  longest {start : Nat} {text : List ε} {value : ν}
    (takes : grammar.Takes #[] source start text value) :
    IsLongest language text (remaining source start)
  absent {start : Nat} (fails : grammar.Yields #[] source start .failure) {text : List ε}
    (member : language text) : ¬ text <+: remaining source start

/-- A match of a lexical grammar is the match of a text. -/
theorem Lexical.exists_takes (lexical : grammar.Lexical) (spanned : source.size < lastPosition)
    {width : Nat} (yields : grammar.Yields #[] source start (.success width value)) :
    ∃ text, text.length = width ∧ grammar.Takes #[] source start text value :=
  yields.exists_takes lexical.functionFree (Rules.throughout_empty _) spanned

/-! ### Single elements and loops over them -/

theorem takesLongest_element (test : ε → Bool) (meaning : ε → ν) (source : Array ε) :
    (element test meaning).TakesLongest (IsSingle test) source where
  longest takes := by
    obtain ⟨only, rfl, passes, rfl⟩ := takes.of_element
    refine ⟨⟨only, passes, rfl⟩, takes.prefix_remaining, ?_⟩
    rintro _ ⟨found, _, rfl⟩ _
    exact Nat.le_refl _
  absent {start} fails text member := by
    rintro ⟨rest, begins⟩
    obtain ⟨only, passes, rfl⟩ := member
    have taken : (element test meaning).Takes #[] source start [only] _ :=
      takes_element begins.symm passes
    cases fails.unique taken.yields

section Loops

variable {rules : Rules ε ν} {test : ε → Bool} {meaning : ε → ν} {collector : ValueCollector ν}
  {bounds : RepeatBounds}

/-- A loop over elements takes all elements ahead that pass the test, if they are enough. -/
theorem takes_takeWhile (unbounded : bounds.maximum = none)
    (enough : bounds.minimum ≤ ((remaining source start).takeWhile test).length) :
    (repeated (element test meaning) collector bounds).Takes rules source start
      ((remaining source start).takeWhile test)
      (collector.gathered (((remaining source start).takeWhile test).map meaning)) :=
  takes_repeated_element unbounded enough (List.all_eq_true.mp List.all_takeWhile)
    List.takeWhile_append_dropWhile.symm (avoids_dropWhile test _)

/-- A loop that is to match at least once fails where its item fails. -/
theorem repeated_fails_first (more : bounds.allowsMore 0) (few : 0 < bounds.minimum)
    (fails : item.Yields rules source start .failure) :
    (repeated item collector bounds).Yields rules source start .failure := by
  have ending : (repetition item collector bounds .failure).Yields rules source start .failure :=
    yields_of_settled (form_repetition_failure rules source item collector bounds)
      (by simp [closing, few])
  exact .continued (form_repeated_of_more more) fails ending

/-- What a loop over elements takes is all elements ahead that pass the test. -/
theorem Takes.eq_takeWhile
    (takes : (repeated (element test meaning) collector bounds).Takes rules source start text
      value) (unbounded : bounds.maximum = none) :
    text = (remaining source start).takeWhile test := by
  obtain ⟨members, enough, rfl⟩ := takes.of_repeated_element unbounded
  have inside := prefix_takeWhile members takes.prefix_remaining
  have all : (repeated (element test meaning) collector bounds).Takes rules source start _ _ :=
    takes_takeWhile unbounded (Nat.le_trans enough inside.length_le)
  have same := takes.yields.unique all.yields
  rw [Outcome.success.injEq] at same
  exact inside.eq_of_length same.1

theorem takesLongest_repeated_element (unbounded : bounds.maximum = none) (source : Array ε) :
    (repeated (element test meaning) collector bounds).TakesLongest
      (IsRun test bounds.minimum) source where
  longest {start text value} takes := by
    obtain ⟨members, enough, _⟩ := takes.of_repeated_element unbounded
    refine ⟨⟨enough, members⟩, takes.prefix_remaining, fun other run begins => ?_⟩
    rw [takes.eq_takeWhile unbounded]
    exact (prefix_takeWhile run.2 begins).length_le
  absent {start} fails text member := by
    intro begins
    have inside := prefix_takeWhile member.2 begins
    have all : (repeated (element test meaning) collector bounds).Takes #[] source start _ _ :=
      takes_takeWhile unbounded (Nat.le_trans member.1 inside.length_le)
    cases fails.unique all.yields

end Loops

/-! ### Parts and wholes -/

theorem TakesLongest.congr (inside : grammar.TakesLongest language source)
    (same : ∀ text, first text ↔ language text) : grammar.TakesLongest first source := by
  have equal : first = language := funext fun text => propext (same text)
  rw [equal]
  exact inside

theorem TakesLongest.map {function : ν → ν} (inside : inner.TakesLongest language source) :
    (map inner function).TakesLongest language source where
  longest takes := by
    obtain ⟨_, taken, _⟩ := takes.of_map
    exact inside.longest taken
  absent {start} fails text member := by
    obtain ⟨outcome, settled, total⟩ := fails.of_adjusted rfl
    cases outcome with
    | success width value => cases total
    | failure => exact inside.absent settled member

/-- An option takes nothing only where no text of the language is ahead. -/
theorem TakesLongest.optional {fallback : ν} (inside : inner.TakesLongest language source) :
    (optional inner fallback).TakesLongest (fun text => text = [] ∨ language text) source where
  longest {start text value} takes := by
    obtain ⟨outcome, settled, total⟩ := takes.yields.of_adjusted rfl
    cases outcome with
    | success width value =>
        obtain ⟨rfl, rfl⟩ := Outcome.success.inj total
        have taken := inside.longest ⟨takes.begins, settled⟩
        refine ⟨.inr taken.member, taken.begins, ?_⟩
        rintro other (rfl | member) begins
        · exact Nat.zero_le _
        · exact taken.longest other member begins
    | failure =>
        have nothing : text = [] := List.length_eq_zero_iff.mp (Outcome.success.inj total).1
        refine ⟨.inl nothing, takes.prefix_remaining, ?_⟩
        rintro other (rfl | member) begins
        · exact Nat.zero_le _
        · exact absurd begins (inside.absent settled member)
  absent {start} fails := by
    obtain ⟨outcome, _, total⟩ := fails.of_adjusted rfl
    cases outcome <;> cases total

/-- A sequence fails because its first part does, or because its second part does behind the
first. -/
theorem of_sequence_fails {rules : Rules ε ν} {head tail : Grammar ε ν} {combine : ν → ν → ν}
    (fails : (Grammar.sequence head tail combine).Yields rules source start .failure) :
    head.Yields rules source start .failure ∨
      ∃ width value, head.Yields rules source start (.success width value) ∧
        tail.Yields rules source (start + width) .failure := by
  obtain ⟨begun, result, beginning, following, total⟩ := fails.of_continued rfl
  cases begun with
  | failure => exact .inl beginning
  | success width value =>
      refine .inr ⟨width, value, beginning, ?_⟩
      obtain ⟨outcome, inside, rfl⟩ := following.of_adjusted rfl
      cases outcome with
      | success more result => cases total
      | failure => exact inside

theorem TakesLongest.sequence {head tail : Grammar ε ν} {combine : ν → ν → ν}
    {isMember : ε → Bool} (beginning : head.TakesLongest first source)
    (following : tail.TakesLongest second source)
    (free : ∀ text, first text → ∀ element ∈ text, isMember element = false)
    (led : ∀ text, second text → LedBy isMember text) (lexical : head.Lexical)
    (spanned : source.size < lastPosition) :
    (sequence head tail combine).TakesLongest (Concatenated first second) source where
  longest {start text value} takes := by
    obtain ⟨headText, tailText, _, _, rfl, taken, takenBehind, _⟩ := takes.of_sequence
    have longestHead := beginning.longest taken
    have longestTail := following.longest takenBehind
    refine ⟨⟨headText, tailText, longestHead.member, longestTail.member, rfl⟩,
      takes.prefix_remaining, ?_⟩
    rintro _ ⟨otherHead, otherTail, member, memberBehind, rfl⟩ begins
    have shorter := longestHead.longest otherHead member
      ((List.prefix_append _ _).trans begins)
    rw [taken.begins] at begins
    rw [List.length_append, List.length_append]
    rcases followed_by_nothing (free headText longestHead.member) (led otherTail memberBehind)
      shorter begins with ⟨rfl, ahead⟩ | ⟨less, rfl⟩
    · exact Nat.add_le_add_left (longestTail.longest otherTail memberBehind ahead) _
    · rw [List.length_nil]
      omega
  absent {start} fails text member := by
    obtain ⟨otherHead, otherTail, member, memberBehind, rfl⟩ := member
    intro begins
    have beginsHead := (List.prefix_append otherHead otherTail).trans begins
    rcases of_sequence_fails fails with failsHead | ⟨width, value, yields, failsTail⟩
    · exact beginning.absent failsHead member beginsHead
    · obtain ⟨headText, rfl, taken⟩ := lexical.exists_takes spanned yields
      have longestHead := beginning.longest taken
      have shorter := longestHead.longest otherHead member beginsHead
      rw [taken.begins] at begins
      -- Either way the second part has a text to take where it fails.
      refine following.absent failsTail memberBehind ?_
      rcases followed_by_nothing (free headText longestHead.member) (led otherTail memberBehind)
        shorter begins with ⟨rfl, ahead⟩ | ⟨_, rfl⟩
      · exact ahead
      · exact List.nil_prefix

/-- Recognizing a text that is never empty is as greedy as matching it. -/
theorem TakesLongest.recognize {read : List ε → ν} (inside : inner.TakesLongest language source)
    (consumes : ¬ language []) (lexical : inner.Lexical)
    (spanned : source.size < lastPosition) :
    (recognize inner read).TakesLongest language source where
  longest takes := by
    obtain ⟨_, taken, _⟩ := takes.of_recognize spanned
    exact inside.longest taken
  absent {start} fails text member := by
    obtain ⟨outcome, settled, total⟩ := fails.of_adjusted rfl
    cases outcome with
    | failure => exact inside.absent settled member
    | success width value =>
        obtain ⟨taken, rfl, takes⟩ := lexical.exists_takes spanned settled
        have nonempty : remaining source start ≠ [] := by
          intro ended
          have longest := inside.longest takes
          rw [ended] at longest
          cases List.prefix_nil.mp longest.begins
          exact consumes longest.member
        have begins : start ≤ source.size :=
          Nat.le_of_not_le fun beyond =>
            nonempty ((remaining_eq_nil_iff source start).mpr beyond)
        have recognized : (Grammar.recognize inner read).Takes #[] source start _ _ :=
          takes.recognize spanned begins
        cases fails.unique recognized.yields

end Grammar

end RecursiveDescent
