import RecursiveDescent.Proofs.Meaning

/-!
# Matches as texts

`Grammar.Yields` says how many elements a match consumes.  To compare a grammar with a language
one has to say which ones: `Grammar.Takes` relates a grammar to the text in front of which it
stands when it matches that text.

For each combinator this file says what texts a match is made of, and when texts make up a match.
The second direction is where ordered choice and greedy loops show: an alternative, an optional
part or a loop gives way only where its parser fails.
-/

namespace RecursiveDescent

variable {ε ν : Type}

/-- A text that does not begin with a member of a class. -/
def Avoids (isMember : ε → Bool) (text : List ε) : Prop :=
  ∀ first ∈ text.head?, isMember first = false

@[simp]
theorem avoids_nil (isMember : ε → Bool) : Avoids isMember [] := by
  intro first found
  cases found

@[simp]
theorem avoids_cons {isMember : ε → Bool} {first : ε} {rest : List ε} :
    Avoids isMember (first :: rest) ↔ isMember first = false := by
  simp [Avoids]

theorem takeWhile_eq_nil_iff {isMember : ε → Bool} {text : List ε} :
    text.takeWhile isMember = [] ↔ Avoids isMember text := by
  cases text with
  | nil => simp
  | cons first others => simp [List.takeWhile_cons]

/-- The run in front of a text is known by what stands behind it. -/
theorem Avoids.takeWhile_append {isMember : ε → Bool} {text rest : List ε}
    (avoids : Avoids isMember rest) (members : ∀ element ∈ text, isMember element) :
    (text ++ rest).takeWhile isMember = text := by
  rw [List.takeWhile_append_of_pos members, takeWhile_eq_nil_iff.mpr avoids, List.append_nil]

theorem avoids_dropWhile (isMember : ε → Bool) (text : List ε) :
    Avoids isMember (text.dropWhile isMember) := by
  intro first found
  have stopped := List.head?_dropWhile_not isMember text
  rw [found] at stopped
  exact stopped

theorem Avoids.mono {isMember isOther : ε → Bool} {text : List ε}
    (avoids : Avoids isMember text)
    (included : ∀ element, isOther element → isMember element) : Avoids isOther text := by
  intro first found
  have outside := avoids first found
  cases member : isOther first with
  | false => rfl
  | true =>
      have inside := included first member
      rw [outside] at inside
      cases inside

/-- A text that is empty or begins with a member of a class. -/
def LedBy (isMember : ε → Bool) (text : List ε) : Prop :=
  ∀ first ∈ text.head?, isMember first

@[simp]
theorem ledBy_nil (isMember : ε → Bool) : LedBy isMember [] := by
  intro first found
  cases found

@[simp]
theorem ledBy_cons {isMember : ε → Bool} {first : ε} {rest : List ε} :
    LedBy isMember (first :: rest) ↔ isMember first := by
  simp [LedBy]

theorem LedBy.mono {isMember isOther : ε → Bool} {text : List ε} (led : LedBy isMember text)
    (included : ∀ element, isMember element → isOther element) : LedBy isOther text :=
  fun first found => included first (led first found)

theorem LedBy.avoids {isMember isOther : ε → Bool} {text : List ε} (led : LedBy isMember text)
    (disjoint : ∀ element, isMember element → isOther element = false) : Avoids isOther text :=
  fun first found => disjoint first (led first found)

/-- Where elements are ahead the source has not ended. -/
theorem lt_size_of_takeWhile {isMember : ε → Bool} {source : Array ε} {start : Nat}
    (present : (remaining source start).takeWhile isMember ≠ []) : start < source.size := by
  refine Nat.lt_of_not_le fun beyond => present ?_
  rw [(remaining_eq_nil_iff source start).mpr beyond, List.takeWhile_nil]

theorem remaining_of_eq_append {source : Array ε} {start : Nat} {text rest : List ε}
    (begins : remaining source start = text ++ rest) :
    remaining source (start + text.length) = rest := by
  rw [← drop_remaining, begins, List.drop_left]

theorem remaining_of_eq_cons {source : Array ε} {start : Nat} {first : ε} {rest : List ε}
    (begins : remaining source start = first :: rest) : remaining source (start + 1) = rest := by
  rw [← drop_remaining, begins]
  rfl

/-- What remains can be cut where the first of two widths ends. -/
theorem exists_cut {source : Array ε} {start width more : Nat} {text rest : List ε}
    (begins : remaining source start = text ++ rest) (widths : text.length = width + more) :
    ∃ first second, text = first ++ second ∧ first.length = width ∧ second.length = more ∧
      remaining source start = first ++ (second ++ rest) := by
  refine ⟨text.take width, text.drop width, (List.take_append_drop width text).symm, ?_, ?_, ?_⟩
  · rw [List.length_take]
    omega
  · rw [List.length_drop]
    omega
  · rw [begins, ← List.append_assoc, List.take_append_drop]

namespace ValueCollector

/-- What the collector makes of some values. -/
def gathered (collector : ValueCollector ν) (values : List ν) : ν :=
  (collector.finish (values.foldl
    (fun accumulator value => (collector.accumulate accumulator value).value)
    collector.supply.value)).value

end ValueCollector

variable [DecidableEq ε]

namespace Grammar

/-- The grammar matches the text that the source goes on with. -/
structure Takes (grammar : Grammar ε ν) (rules : Rules ε ν) (source : Array ε) (start : Nat)
    (text : List ε) (value : ν) : Prop where
  begins : remaining source start = text ++ remaining source (start + text.length)
  yields : grammar.Yields rules source start (.success text.length value)

variable {rules : Rules ε ν} {source : Array ε} {start : Nat} {text rest : List ε} {value : ν}

theorem takes_of_yields {grammar : Grammar ε ν}
    (begins : remaining source start = text ++ rest)
    (yields : grammar.Yields rules source start (.success text.length value)) :
    grammar.Takes rules source start text value := by
  refine ⟨?_, yields⟩
  rw [remaining_of_eq_append begins]
  exact begins

theorem takes_nothing_of_yields {grammar : Grammar ε ν}
    (yields : grammar.Yields rules source start (.success 0 value)) :
    grammar.Takes rules source start [] value :=
  ⟨rfl, yields⟩

theorem Takes.prefix_remaining {grammar : Grammar ε ν}
    (takes : grammar.Takes rules source start text value) : text <+: remaining source start :=
  ⟨_, takes.begins.symm⟩

theorem takes_all_iff {grammar : Grammar ε ν} :
    grammar.Takes rules source 0 source.toList value ↔
      grammar.Yields rules source 0 (.success source.size value) := by
  constructor
  · intro takes
    exact takes.yields
  · intro yields
    exact takes_of_yields (List.append_nil _).symm yields

theorem yields_of_settled {grammar : Grammar ε ν} {settled : Nat → Outcome ν}
    {outcome : Outcome ν} (shape : grammar.form rules source = .settled settled)
    (total : settled start = outcome) : grammar.Yields rules source start outcome := by
  rw [← total]
  exact .settled shape

theorem yields_of_adjusted {grammar part : Grammar ε ν} {adjust : Nat → Outcome ν → Outcome ν}
    {inner outcome : Outcome ν} (shape : grammar.form rules source = .adjusted part adjust)
    (inside : part.Yields rules source start inner) (total : adjust start inner = outcome) :
    grammar.Yields rules source start outcome := by
  rw [← total]
  exact .adjusted shape inside

/-! ### Single elements -/

theorem takes_element {test : ε → Bool} {meaning : ε → ν} {first : ε}
    (begins : remaining source start = first :: rest) (passes : test first) :
    (element test meaning).Takes rules source start [first] (meaning first) := by
  have found : source[start]? = some first := by
    rw [getElem?_eq_head?_remaining, begins]
    rfl
  have settled : (element test meaning).Yields rules source start
      (Outcome.ofElement test meaning source start) := .settled rfl
  simp only [Outcome.ofElement, found, passes, if_true] at settled
  exact takes_of_yields begins settled

theorem Takes.of_element {test : ε → Bool} {meaning : ε → ν}
    (takes : (element test meaning).Takes rules source start text value) :
    ∃ first, text = [first] ∧ test first ∧ value = meaning first := by
  have settled := takes.yields.unique (.settled rfl)
  have begins := takes.begins
  simp only [Outcome.ofElement, getElem?_eq_head?_remaining] at settled
  cases rest : remaining source start with
  | nil =>
      rw [rest] at settled
      cases settled
  | cons first others =>
      rw [rest] at settled begins
      cases passes : test first with
      | false => simp [passes] at settled
      | true =>
          simp only [List.head?_cons, passes, if_true] at settled
          obtain ⟨length, rfl⟩ := Outcome.success.inj settled
          obtain ⟨only, rfl⟩ := List.length_eq_one_iff.mp length
          obtain ⟨rfl, _⟩ := List.cons.inj begins
          exact ⟨first, rfl, passes, rfl⟩

theorem element_fails {test : ε → Bool} {meaning : ε → ν}
    (avoids : Avoids test (remaining source start)) :
    (element test meaning).Yields rules source start .failure := by
  have settled : (element test meaning).Yields rules source start
      (Outcome.ofElement test meaning source start) := .settled rfl
  simp only [Outcome.ofElement, getElem?_eq_head?_remaining] at settled
  cases rest : remaining source start with
  | nil =>
      rw [rest] at settled
      exact settled
  | cons first others =>
      rw [rest, avoids_cons] at avoids
      rw [rest] at settled
      simp only [List.head?_cons, avoids] at settled
      exact settled

/-! ### Adjusted matches -/

theorem Takes.passed {grammar part : Grammar ε ν}
    (inside : part.Takes rules source start text value)
    (shape : grammar.form rules source = .adjusted part fun _ outcome => outcome) :
    grammar.Takes rules source start text value :=
  ⟨inside.begins, .passed shape inside.yields⟩

theorem Takes.of_passed {grammar part : Grammar ε ν}
    (takes : grammar.Takes rules source start text value)
    (shape : grammar.form rules source = .adjusted part fun _ outcome => outcome) :
    part.Takes rules source start text value := by
  obtain ⟨outcome, inside, rfl⟩ := takes.yields.of_adjusted shape
  exact ⟨takes.begins, inside⟩

theorem Takes.map {inner : Grammar ε ν} {function : ν → ν}
    (inside : inner.Takes rules source start text value) :
    (map inner function).Takes rules source start text (function value) :=
  ⟨inside.begins, yields_of_adjusted rfl inside.yields rfl⟩

theorem Takes.of_map {inner : Grammar ε ν} {function : ν → ν}
    (takes : (Grammar.map inner function).Takes rules source start text value) :
    ∃ innerValue, inner.Takes rules source start text innerValue ∧
      value = function innerValue := by
  obtain ⟨outcome, inside, total⟩ := takes.yields.of_adjusted rfl
  cases outcome with
  | failure => cases total
  | success width innerValue =>
      obtain ⟨rfl, rfl⟩ := Outcome.success.inj total
      exact ⟨innerValue, ⟨takes.begins, inside⟩, rfl⟩

theorem map_fails {inner : Grammar ε ν} {function : ν → ν}
    (fails : inner.Yields rules source start .failure) :
    (Grammar.map inner function).Yields rules source start .failure :=
  yields_of_adjusted rfl fails rfl

theorem Takes.optional {inner : Grammar ε ν} {fallback : ν}
    (inside : inner.Takes rules source start text value) :
    (optional inner fallback).Takes rules source start text value :=
  ⟨inside.begins, yields_of_adjusted rfl inside.yields rfl⟩

theorem takes_optional_nothing {inner : Grammar ε ν} {fallback : ν}
    (fails : inner.Yields rules source start .failure) :
    (Grammar.optional inner fallback).Takes rules source start [] fallback :=
  ⟨rfl, yields_of_adjusted rfl fails rfl⟩

theorem Takes.of_optional {inner : Grammar ε ν} {fallback : ν}
    (takes : (Grammar.optional inner fallback).Takes rules source start text value) :
    inner.Takes rules source start text value ∨ text = [] ∧ value = fallback := by
  obtain ⟨outcome, inside, total⟩ := takes.yields.of_adjusted rfl
  cases outcome with
  | failure =>
      obtain ⟨nothing, rfl⟩ := Outcome.success.inj total
      exact .inr ⟨List.length_eq_zero_iff.mp nothing, rfl⟩
  | success width innerValue =>
      obtain ⟨rfl, rfl⟩ := Outcome.success.inj total
      exact .inl ⟨takes.begins, inside⟩

theorem Takes.tryMap {inner : Grammar ε ν} {function : ν → Option ν} {result : ν}
    (inside : inner.Takes rules source start text value) (defined : function value = some result) :
    (tryMap inner function).Takes rules source start text result := by
  have derived : (Grammar.tryMap inner function).Yields rules source start _ :=
    .adjusted rfl inside.yields
  simp only [Outcome.filterMap, defined] at derived
  exact ⟨inside.begins, derived⟩

theorem Takes.of_tryMap {inner : Grammar ε ν} {function : ν → Option ν}
    (takes : (Grammar.tryMap inner function).Takes rules source start text value) :
    ∃ innerValue, inner.Takes rules source start text innerValue ∧
      function innerValue = some value := by
  obtain ⟨outcome, inside, total⟩ := takes.yields.of_adjusted rfl
  cases outcome with
  | failure => cases total
  | success width innerValue =>
      cases defined : function innerValue with
      | none => simp [Outcome.filterMap, defined, Outcome.ofParts] at total
      | some result =>
          simp only [Outcome.filterMap, defined] at total
          obtain ⟨rfl, rfl⟩ := Outcome.success.inj total
          exact ⟨innerValue, ⟨takes.begins, inside⟩, defined⟩

theorem Takes.filter {inner : Grammar ε ν} {accepts : ν → Bool}
    (inside : inner.Takes rules source start text value) (accepted : accepts value) :
    (filter inner accepts).Takes rules source start text value := by
  have derived : (Grammar.filter inner accepts).Yields rules source start _ :=
    .adjusted rfl inside.yields
  simp only [Outcome.accepted, accepted, if_true] at derived
  exact ⟨inside.begins, derived⟩

theorem Takes.of_filter {inner : Grammar ε ν} {accepts : ν → Bool}
    (takes : (Grammar.filter inner accepts).Takes rules source start text value) :
    inner.Takes rules source start text value ∧ accepts value := by
  obtain ⟨outcome, inside, total⟩ := takes.yields.of_adjusted rfl
  cases outcome with
  | failure => cases total
  | success width innerValue =>
      cases accepted : accepts innerValue with
      | false => simp [Outcome.accepted, accepted] at total
      | true =>
          simp only [Outcome.accepted, accepted, if_true] at total
          obtain ⟨rfl, rfl⟩ := Outcome.success.inj total
          exact ⟨⟨takes.begins, inside⟩, accepted⟩

theorem Takes.recognize {inner : Grammar ε ν} {read : List ε → ν}
    (inside : inner.Takes rules source start text value) (spanned : source.size < lastPosition)
    (begins : start ≤ source.size) :
    (recognize inner read).Takes rules source start text (read text) := by
  have beginning : text <+: remaining source start := ⟨_, inside.begins.symm⟩
  have found : window source start text.length = some text :=
    (window_eq_some_iff source spanned start text.length text).mpr ⟨begins, rfl, beginning⟩
  have derived : (Grammar.recognize inner read).Yields rules source start _ :=
    .adjusted rfl inside.yields
  simp only [Outcome.reread, found] at derived
  exact ⟨inside.begins, derived⟩

theorem Takes.of_recognize {inner : Grammar ε ν} {read : List ε → ν}
    (takes : (Grammar.recognize inner read).Takes rules source start text value)
    (spanned : source.size < lastPosition) :
    ∃ innerValue, inner.Takes rules source start text innerValue ∧ value = read text := by
  obtain ⟨outcome, inside, total⟩ := takes.yields.of_adjusted rfl
  cases outcome with
  | failure => cases total
  | success width innerValue =>
      cases found : window source start width with
      | none => simp [Outcome.reread, found] at total
      | some elements =>
          simp only [Outcome.reread, found] at total
          obtain ⟨rfl, rfl⟩ := Outcome.success.inj total
          obtain ⟨_, length, beginning⟩ :=
            (window_eq_some_iff source spanned start text.length elements).mp found
          have textBegins : text <+: remaining source start := ⟨_, takes.begins.symm⟩
          have shorter : elements.length ≤ text.length := Nat.le_of_eq length
          have same := (List.prefix_of_prefix_length_le beginning textBegins shorter).eq_of_length
            length
          exact ⟨innerValue, ⟨takes.begins, inside⟩, by rw [same]⟩

/-! ### Sequence and choice -/

theorem Takes.sequence {first second : Grammar ε ν} {combine : ν → ν → ν}
    {firstText secondText : List ε} {firstValue secondValue : ν}
    (beginning : first.Takes rules source start firstText firstValue)
    (following : second.Takes rules source (start + firstText.length) secondText secondValue) :
    (sequence first second combine).Takes rules source start (firstText ++ secondText)
      (combine firstValue secondValue) := by
  have begins := beginning.begins
  rw [following.begins, ← List.append_assoc] at begins
  have mapped : (Grammar.map second (combine firstValue)).Yields rules source
      (start + firstText.length) _ := .adjusted rfl following.yields
  have derived : (Grammar.sequence first second combine).Yields rules source start _ :=
    .continued rfl beginning.yields mapped
  have total : secondText.length + firstText.length = (firstText ++ secondText).length := by
    rw [List.length_append, Nat.add_comm]
  simp only [Outcome.map_success, Outcome.advancedBy, Outcome.advance, total] at derived
  exact takes_of_yields begins derived

theorem Takes.of_sequence {first second : Grammar ε ν} {combine : ν → ν → ν}
    (takes : (Grammar.sequence first second combine).Takes rules source start text value) :
    ∃ firstText secondText firstValue secondValue, text = firstText ++ secondText ∧
      first.Takes rules source start firstText firstValue ∧
      second.Takes rules source (start + firstText.length) secondText secondValue ∧
      value = combine firstValue secondValue := by
  obtain ⟨begun, result, beginning, following, total⟩ := takes.yields.of_continued rfl
  cases begun with
  | failure =>
      cases following.unique (.settled rfl)
      cases total
  | success width firstValue =>
      obtain ⟨inner, inside, rfl⟩ := following.of_adjusted rfl
      cases inner with
      | failure => cases total
      | success more secondValue =>
          obtain ⟨widths, rfl⟩ := Outcome.success.inj total
          obtain ⟨firstText, secondText, rfl, rfl, rfl, begins⟩ :=
            exists_cut takes.begins (widths.trans (Nat.add_comm _ _))
          exact ⟨firstText, secondText, firstValue, secondValue, rfl,
            takes_of_yields begins beginning,
            takes_of_yields (remaining_of_eq_append begins) inside, rfl⟩

theorem sequence_fails_first {first second : Grammar ε ν} {combine : ν → ν → ν}
    (fails : first.Yields rules source start .failure) :
    (Grammar.sequence first second combine).Yields rules source start .failure := by
  have ending : (sequel second combine .failure).Yields rules source start .failure :=
    yields_of_settled rfl rfl
  exact .continued rfl fails ending

theorem sequence_fails_second {first second : Grammar ε ν} {combine : ν → ν → ν}
    (beginning : first.Takes rules source start text value)
    (fails : second.Yields rules source (start + text.length) .failure) :
    (Grammar.sequence first second combine).Yields rules source start .failure := by
  have ending : (sequel second combine (.success text.length value)).Yields rules source
      (start + text.length) .failure := yields_of_adjusted rfl fails rfl
  exact .continued rfl beginning.yields ending

theorem Takes.choice_first {first second : Grammar ε ν}
    (inside : first.Takes rules source start text value) :
    (choice first second).Takes rules source start text value := by
  have ending : (alternative second (.success text.length value)).Yields rules source
      (start + text.length) (.success 0 value) := yields_of_settled rfl rfl
  have derived : (choice first second).Yields rules source start _ :=
    .continued rfl inside.yields ending
  simp only [Outcome.advancedBy, Outcome.advance, Nat.zero_add] at derived
  exact ⟨inside.begins, derived⟩

theorem Takes.choice_second {first second : Grammar ε ν}
    (inside : second.Takes rules source start text value)
    (fails : first.Yields rules source start .failure) :
    (choice first second).Takes rules source start text value := by
  have derived : (choice first second).Yields rules source start _ :=
    .continued rfl fails inside.yields
  exact ⟨inside.begins, derived⟩

theorem Takes.of_choice {first second : Grammar ε ν}
    (takes : (choice first second).Takes rules source start text value) :
    first.Takes rules source start text value ∨ second.Takes rules source start text value := by
  obtain ⟨begun, result, beginning, following, total⟩ := takes.yields.of_continued rfl
  cases begun with
  | success width firstValue =>
      cases following.unique (.settled rfl)
      simp only [Outcome.advancedBy, Outcome.advance, Nat.zero_add] at total
      obtain ⟨rfl, rfl⟩ := Outcome.success.inj total
      exact .inl ⟨takes.begins, beginning⟩
  | failure =>
      rw [Outcome.advance, Outcome.advancedBy_zero] at total
      subst total
      exact .inr ⟨takes.begins, following⟩

theorem Takes.bind {first : Grammar ε ν} {binder : Outcome ν → Grammar ε ν}
    {firstText secondText : List ε} {firstValue : ν}
    (beginning : first.Takes rules source start firstText firstValue)
    (following : (binder (.success firstText.length firstValue)).Takes rules source
      (start + firstText.length) secondText value) :
    (bind first binder).Takes rules source start (firstText ++ secondText) value := by
  have begins := beginning.begins
  rw [following.begins, ← List.append_assoc] at begins
  have derived : (Grammar.bind first binder).Yields rules source start _ :=
    .continued rfl beginning.yields following.yields
  have total : secondText.length + firstText.length = (firstText ++ secondText).length := by
    rw [List.length_append, Nat.add_comm]
  simp only [Outcome.advancedBy, Outcome.advance, total] at derived
  exact takes_of_yields begins derived

/-- A binder goes on behind a match of its first part, or from the same position after a failure. -/
theorem Takes.of_bind {first : Grammar ε ν} {binder : Outcome ν → Grammar ε ν}
    (takes : (Grammar.bind first binder).Takes rules source start text value) :
    (∃ firstText secondText firstValue, text = firstText ++ secondText ∧
      first.Takes rules source start firstText firstValue ∧
      (binder (.success firstText.length firstValue)).Takes rules source
        (start + firstText.length) secondText value) ∨
    first.Yields rules source start .failure ∧
      (binder .failure).Takes rules source start text value := by
  obtain ⟨begun, result, beginning, following, total⟩ := takes.yields.of_continued rfl
  cases begun with
  | failure =>
      rw [Outcome.advance, Outcome.advancedBy_zero] at total
      subst total
      exact .inr ⟨beginning, takes.begins, following⟩
  | success width firstValue =>
      cases result with
      | failure => cases total
      | success more secondValue =>
          obtain ⟨widths, rfl⟩ := Outcome.success.inj total
          obtain ⟨firstText, secondText, rfl, rfl, rfl, begins⟩ :=
            exists_cut takes.begins (widths.trans (Nat.add_comm _ _))
          exact .inl ⟨firstText, secondText, firstValue, rfl, takes_of_yields begins beginning,
            takes_of_yields (remaining_of_eq_append begins) following⟩

/-! ### Lookahead -/

theorem takes_notAhead {inner : Grammar ε ν}
    (fails : inner.Yields rules source start .failure) :
    (notAhead inner value).Takes rules source start [] value :=
  takes_nothing_of_yields (yields_of_adjusted rfl fails rfl)

theorem notAhead_fails {inner : Grammar ε ν} {width : Nat} {found : ν}
    (inside : inner.Yields rules source start (.success width found)) :
    (notAhead inner value).Yields rules source start .failure :=
  yields_of_adjusted rfl inside rfl

/-! ### Loops -/

/-- The item matches some texts one behind the other, each with its value, and then fails. -/
inductive Repeats (item : Grammar ε ν) (rules : Rules ε ν) (source : Array ε) :
    Nat → List (List ε × ν) → Prop where
  | stop {start : Nat} (fails : item.Yields rules source start .failure) :
      Repeats item rules source start []
  | more {start : Nat} {text : List ε} {value : ν} {taken : List (List ε × ν)}
      (takes : item.Takes rules source start text value)
      (others : Repeats item rules source (start + text.length) taken) :
      Repeats item rules source start ((text, value) :: taken)

/-- The whole text of repeated matches. -/
def spelled (taken : List (List ε × ν)) : List ε :=
  taken.flatMap Prod.fst

variable {item : Grammar ε ν} {taken : List (List ε × ν)}

omit [DecidableEq ε] in
@[simp]
theorem spelled_cons (text : List ε) (value : ν) (taken : List (List ε × ν)) :
    spelled ((text, value) :: taken) = text ++ spelled taken :=
  rfl

theorem Repeats.begins (repeats : item.Repeats rules source start taken) :
    remaining source start =
      spelled taken ++ remaining source (start + (spelled taken).length) := by
  induction repeats with
  | stop fails => rfl
  | more takes _ othersCase =>
      rw [spelled_cons, List.length_append, ← Nat.add_assoc, List.append_assoc, ← othersCase]
      exact takes.begins

theorem takes_repeated_of_repeats {collector : ValueCollector ν} {bounds : RepeatBounds}
    (unbounded : bounds.maximum = none) (repeats : item.Repeats rules source start taken)
    (enough : bounds.minimum ≤ taken.length) :
    (repeated item collector bounds).Takes rules source start (spelled taken)
      (collector.gathered (taken.map Prod.snd)) := by
  refine takes_of_yields repeats.begins ?_
  induction repeats generalizing collector bounds with
  | @stop start fails =>
      have more : bounds.allowsMore 0 := by simp [RepeatBounds.allowsMore, unbounded]
      have least : bounds.minimum = 0 := Nat.le_zero.mp enough
      have total : closing collector bounds = .success 0 collector.result := by
        simp [closing, least]
      have ending : (repetition item collector bounds .failure).Yields rules source start
          (.success 0 collector.result) :=
        yields_of_settled (form_repetition_failure rules source item collector bounds) total
      exact .continued (form_repeated_of_more more) fails ending
  | @more start text value taken takes others othersCase =>
      have more : bounds.allowsMore 0 := by simp [RepeatBounds.allowsMore, unbounded]
      have enoughLeft : (bounds.drop 1).minimum ≤ taken.length := by
        rw [RepeatBounds.drop_minimum]
        rw [List.length_cons] at enough
        omega
      have unboundedLeft : (bounds.drop 1).maximum = none := by
        simp [RepeatBounds.drop, unbounded]
      have following : (repeated item (collector.taking value) (bounds.drop 1)).Yields rules
          source (start + text.length) _ := othersCase unboundedLeft enoughLeft
      have derived : (repeated item collector bounds).Yields rules source start _ :=
        .continued (form_repeated_of_more more) takes.yields following
      have total : (spelled taken).length + text.length =
          (spelled ((text, value) :: taken)).length := by
        rw [spelled_cons, List.length_append, Nat.add_comm]
      simp only [Outcome.advancedBy, Outcome.advance, total] at derived
      exact derived

theorem Takes.of_repeated {collector : ValueCollector ν} {bounds : RepeatBounds}
    (takes : (repeated item collector bounds).Takes rules source start text value)
    (unbounded : bounds.maximum = none) :
    ∃ taken, item.Repeats rules source start taken ∧ text = spelled taken ∧
      bounds.minimum ≤ taken.length ∧ value = collector.gathered (taken.map Prod.snd) := by
  obtain ⟨begins, yields⟩ := takes
  -- Each round leaves another repetition, so the induction is on the derivation of all of them.
  generalize whole : repeated item collector bounds = grammar at yields
  generalize total : Outcome.success text.length value = outcome at yields
  induction yields generalizing collector bounds text value with
  | settled shape =>
      subst whole
      have more : bounds.allowsMore 0 := by simp [RepeatBounds.allowsMore, unbounded]
      cases (form_repeated_of_more more).symm.trans shape
  | adjusted shape _ _ =>
      subst whole
      have more : bounds.allowsMore 0 := by simp [RepeatBounds.allowsMore, unbounded]
      cases (form_repeated_of_more more).symm.trans shape
  | @continued grammar first next start begun result shape beginning following _ followingCase =>
      subst whole
      have more : bounds.allowsMore 0 := by simp [RepeatBounds.allowsMore, unbounded]
      cases (form_repeated_of_more more).symm.trans shape
      cases begun with
      | failure =>
          have closed := following.unique
            (.settled (form_repetition_failure rules source item collector bounds))
          subst closed
          by_cases few : 0 < bounds.minimum
          · simp [closing, few, Outcome.advancedBy] at total
          · simp only [closing, few, if_false, Outcome.advancedBy, Outcome.advance] at total
            obtain ⟨nothing, rfl⟩ := Outcome.success.inj total
            exact ⟨[], .stop beginning, List.length_eq_zero_iff.mp nothing, by simp; omega, rfl⟩
      | success width firstValue =>
          cases result with
          | failure => cases total
          | success left leftValue =>
              obtain ⟨widths, rfl⟩ := Outcome.success.inj total
              obtain ⟨firstText, others, rfl, rfl, rfl, cut⟩ :=
                exists_cut begins (widths.trans (Nat.add_comm _ _))
              have beginsOthers := remaining_of_eq_append cut
              rw [← remaining_of_eq_append beginsOthers] at beginsOthers
              have unboundedLeft : (bounds.drop 1).maximum = none := by
                simp [RepeatBounds.drop, unbounded]
              obtain ⟨taken, repeats, rfl, enough, gathers⟩ :=
                followingCase unboundedLeft beginsOthers rfl rfl
              rw [RepeatBounds.drop_minimum] at enough
              refine ⟨(firstText, firstValue) :: taken,
                .more (takes_of_yields cut beginning) repeats, rfl, ?_, gathers⟩
              rw [List.length_cons]
              omega

/-! Repeated elements are a run of members of a class that no other member follows. -/

variable {test : ε → Bool} {meaning : ε → ν}

theorem repeats_element (members : ∀ element ∈ text, test element)
    (begins : remaining source start = text ++ rest) (maximal : Avoids test rest) :
    (element test meaning).Repeats rules source start
      (text.map fun element => ([element], meaning element)) := by
  induction text generalizing start with
  | nil => exact .stop (element_fails (by rw [begins]; exact maximal))
  | cons first others othersCase =>
      have beginsOthers : remaining source (start + [first].length) = others ++ rest :=
        remaining_of_eq_append begins
      exact .more (takes_element begins (members first List.mem_cons_self))
        (othersCase (fun element member => members element (List.mem_cons_of_mem _ member))
          beginsOthers)

theorem Repeats.of_element (repeats : (element test meaning).Repeats rules source start taken) :
    (∀ element ∈ spelled taken, test element) ∧
      taken.map Prod.snd = (spelled taken).map meaning ∧
      taken.length = (spelled taken).length := by
  induction repeats with
  | stop fails => exact ⟨fun element absent => absurd absent List.not_mem_nil, rfl, rfl⟩
  | more takes _ othersCase =>
      obtain ⟨first, rfl, passes, rfl⟩ := takes.of_element
      obtain ⟨members, values, lengths⟩ := othersCase
      refine ⟨fun element member => ?_, ?_, ?_⟩
      · rcases List.mem_cons.mp member with rfl | other
        · exact passes
        · exact members element other
      · simp [values]
      · simp [lengths]

theorem takes_repeated_element {collector : ValueCollector ν} {bounds : RepeatBounds}
    (unbounded : bounds.maximum = none) (enough : bounds.minimum ≤ text.length)
    (members : ∀ element ∈ text, test element) (begins : remaining source start = text ++ rest)
    (maximal : Avoids test rest) :
    (repeated (element test meaning) collector bounds).Takes rules source start text
      (collector.gathered (text.map meaning)) := by
  have repeats : (element test meaning).Repeats rules source start _ :=
    repeats_element members begins maximal
  have takes : (repeated (element test meaning) collector bounds).Takes rules source start _ _ :=
    takes_repeated_of_repeats unbounded repeats (by rw [List.length_map]; exact enough)
  have spelledBack :
      spelled (text.map fun element => ([element], meaning element)) = text := by
    simp [spelled, List.flatMap_map]
  rw [spelledBack, List.map_map] at takes
  exact takes

theorem Takes.of_repeated_element {collector : ValueCollector ν} {bounds : RepeatBounds}
    (takes : (repeated (element test meaning) collector bounds).Takes rules source start text value)
    (unbounded : bounds.maximum = none) :
    (∀ element ∈ text, test element) ∧ bounds.minimum ≤ text.length ∧
      value = collector.gathered (text.map meaning) := by
  obtain ⟨taken, repeats, rfl, enough, rfl⟩ := takes.of_repeated unbounded
  obtain ⟨members, values, lengths⟩ := repeats.of_element
  rw [values, ← lengths]
  exact ⟨members, enough, rfl⟩

/-! Lists are a head and repeated pairs of a delimiter and an item. -/

variable {delimiter : Grammar ε ν} {combine : ν → ν → ν} {headCollector : ν → ValueCollector ν}

theorem takes_delimited {headText : List ε} {head : ν}
    (beginning : item.Takes rules source start headText head)
    (others : (Grammar.sequence delimiter item combine).Repeats rules source
      (start + headText.length) taken) :
    (delimited item delimiter combine headCollector).Takes rules source start
      (headText ++ spelled taken) ((headCollector head).gathered (taken.map Prod.snd)) := by
  have pairsTaken : (pairs item delimiter combine headCollector
      (.success headText.length head)).Takes rules source (start + headText.length) _ _ :=
    takes_repeated_of_repeats rfl others (Nat.zero_le _)
  have begins := beginning.begins
  rw [others.begins, ← List.append_assoc] at begins
  have derived : (delimited item delimiter combine headCollector).Yields rules source start _ :=
    .continued rfl beginning.yields pairsTaken.yields
  have total : (spelled taken).length + headText.length = (headText ++ spelled taken).length := by
    rw [List.length_append, Nat.add_comm]
  simp only [Outcome.advancedBy, Outcome.advance, total] at derived
  exact takes_of_yields begins derived

theorem Takes.of_delimited
    (takes : (delimited item delimiter combine headCollector).Takes rules source start text
      value) :
    ∃ headText head taken, item.Takes rules source start headText head ∧
      (Grammar.sequence delimiter item combine).Repeats rules source (start + headText.length)
        taken ∧
      text = headText ++ spelled taken ∧
      value = (headCollector head).gathered (taken.map Prod.snd) := by
  obtain ⟨begun, result, beginning, following, total⟩ := takes.yields.of_continued rfl
  cases begun with
  | failure =>
      cases following.unique (.settled rfl)
      cases total
  | success width head =>
      cases result with
      | failure => cases total
      | success left leftValue =>
          obtain ⟨widths, rfl⟩ := Outcome.success.inj total
          obtain ⟨headText, others, rfl, rfl, rfl, cut⟩ :=
            exists_cut takes.begins (widths.trans (Nat.add_comm _ _))
          have pairsTaken := takes_of_yields (remaining_of_eq_append cut) following
          obtain ⟨taken, repeats, rfl, _, rfl⟩ := pairsTaken.of_repeated rfl
          exact ⟨headText, head, taken, takes_of_yields cut beginning, repeats, rfl, rfl⟩

end Grammar

end RecursiveDescent
