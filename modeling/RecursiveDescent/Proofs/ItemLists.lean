import RecursiveDescent.Proofs.Takes
import RecursiveDescent.Value.Collecting
import Mathlib.Data.List.Forall2

/-!
# Counted and separated lists

A list may say beforehand how many items it has, or put a delimiter between each two of them.  In
the first case it is the texts of that many items, one behind the other, and no failure of an item
ends it.  In the second case it is the text of a head and then texts of a delimiter with an item
behind it, up to the first place where there is no such pair.
-/

namespace RecursiveDescent

variable {ε ν : Type}

theorem RepeatBounds.drop_exactly (count : Nat) :
    (exactly (count + 1)).drop 1 = exactly count := by
  simp [drop, exactly]

theorem RepeatBounds.allowsMore_exactly (count : Nat) :
    (exactly count).allowsMore 0 ↔ 0 < count := by
  simp [allowsMore, exactly]

theorem intercalate_cons_eq_flatMap (mark : ε) (first : List ε) (others : List (List ε)) :
    [mark].intercalate (first :: others) = first ++ others.flatMap (mark :: ·) := by
  induction others generalizing first with
  | nil => simp
  | cons next others othersCase =>
      rw [List.intercalate_cons_cons, othersCase, List.flatMap_cons, List.append_assoc]
      rfl

/-- Runs with a mark in front of each begin with the mark, if there are any. -/
theorem avoids_marked {isMember : ε → Bool} {mark : ε} (outside : isMember mark = false)
    {rest : List ε} (boundary : Avoids isMember rest) (runs : List (List ε)) :
    Avoids isMember (runs.flatMap (mark :: ·) ++ rest) := by
  cases runs with
  | nil => exact boundary
  | cons run others => exact avoids_cons.mpr outside

/-! ### Values in a list -/

theorem gathered_listing (values : List Value) :
    ValueCollector.gathered Value.listing values = .list values := by
  have pushed : values.foldl (fun accumulator value => accumulator.push value) #[] =
      values.toArray := by
    simp
  exact congrArg (fun gathered : Array Value => Value.list gathered.toList) pushed

variable [DecidableEq ε]

namespace Grammar

variable {rules : Rules ε ν} {source : Array ε} {start : Nat} {text : List ε} {value : ν}
  {item delimiter : Grammar ε ν} {collector : ValueCollector ν} {taken : List (List ε × ν)}

/-! ### Counted lists -/

/-- The item matches some texts one behind the other, each with its value. -/
inductive TakesEach (item : Grammar ε ν) (rules : Rules ε ν) (source : Array ε) :
    Nat → List (List ε × ν) → Prop where
  | nil (start : Nat) : TakesEach item rules source start []
  | cons {start : Nat} {text : List ε} {value : ν} {taken : List (List ε × ν)}
      (takes : item.Takes rules source start text value)
      (others : TakesEach item rules source (start + text.length) taken) :
      TakesEach item rules source start ((text, value) :: taken)

theorem TakesEach.begins (each : item.TakesEach rules source start taken) :
    remaining source start =
      spelled taken ++ remaining source (start + (spelled taken).length) := by
  induction each with
  | nil start => rfl
  | cons takes _ othersCase =>
      rw [spelled_cons, List.length_append, ← Nat.add_assoc, List.append_assoc, ← othersCase]
      exact takes.begins

theorem takes_exactly (each : item.TakesEach rules source start taken) :
    (repeated item collector (.exactly taken.length)).Takes rules source start (spelled taken)
      (collector.gathered (taken.map Prod.snd)) := by
  refine takes_of_yields each.begins ?_
  induction each generalizing collector with
  | nil start =>
      have exhausted : ¬ (RepeatBounds.exactly 0).allowsMore 0 := by decide
      exact yields_of_settled (form_repeated_of_exhausted exhausted) rfl
  | @cons start text value taken takes others othersCase =>
      have more : (RepeatBounds.exactly (taken.length + 1)).allowsMore 0 :=
        (RepeatBounds.allowsMore_exactly _).mpr (Nat.succ_pos _)
      have following : (repeated item (collector.taking value) (.exactly taken.length)).Yields
          rules source (start + text.length) _ := othersCase
      rw [← RepeatBounds.drop_exactly] at following
      have derived : (repeated item collector (.exactly (taken.length + 1))).Yields rules source
          start _ := .continued (form_repeated_of_more more) takes.yields following
      have total : (spelled taken).length + text.length =
          (spelled ((text, value) :: taken)).length := by
        rw [spelled_cons, List.length_append, Nat.add_comm]
      simp only [Outcome.advancedBy, Outcome.advance, total] at derived
      exact derived

theorem Takes.of_exactly {count : Nat}
    (takes : (repeated item collector (.exactly count)).Takes rules source start text value) :
    ∃ taken, item.TakesEach rules source start taken ∧ taken.length = count ∧
      text = spelled taken ∧ value = collector.gathered (taken.map Prod.snd) := by
  induction count generalizing collector start text value with
  | zero =>
      have exhausted : ¬ (RepeatBounds.exactly 0).allowsMore 0 := by decide
      have settled := takes.yields.unique (.settled (form_repeated_of_exhausted exhausted))
      obtain ⟨nothing, rfl⟩ := Outcome.success.inj settled
      exact ⟨[], .nil start, rfl, List.length_eq_zero_iff.mp nothing, rfl⟩
  | succ count countCase =>
      have more : (RepeatBounds.exactly (count + 1)).allowsMore 0 :=
        (RepeatBounds.allowsMore_exactly _).mpr (Nat.succ_pos _)
      obtain ⟨begun, result, beginning, following, total⟩ :=
        takes.yields.of_continued (form_repeated_of_more more)
      cases begun with
      | failure =>
          have closed := following.unique
            (.settled (form_repetition_failure rules source item collector _))
          subst closed
          cases total
      | success width firstValue =>
          cases result with
          | failure => cases total
          | success left leftValue =>
              obtain ⟨widths, rfl⟩ := Outcome.success.inj total
              obtain ⟨firstText, others, rfl, rfl, rfl, cut⟩ :=
                exists_cut takes.begins (widths.trans (Nat.add_comm _ _))
              rw [repetition, RepeatBounds.drop_exactly] at following
              obtain ⟨taken, each, rfl, rfl, rfl⟩ :=
                countCase (takes_of_yields (remaining_of_eq_append cut) following)
              exact ⟨(firstText, firstValue) :: taken,
                .cons (takes_of_yields cut beginning) each, rfl, rfl, rfl⟩

/-! ### Separated lists -/

theorem Yields.of_form_eq {grammar other : Grammar ε ν} {outcome : Outcome ν}
    (yields : grammar.Yields rules source start outcome)
    (same : grammar.form rules source = other.form rules source) :
    other.Yields rules source start outcome := by
  cases yields with
  | settled shape => exact .settled (same.symm.trans shape)
  | adjusted shape inside => exact .adjusted (same.symm.trans shape) inside
  | continued shape beginning following =>
      exact .continued (same.symm.trans shape) beginning following

/-- A separated list is a delimited list that keeps the items only. -/
theorem takes_separated_iff :
    (separated item delimiter collector).Takes rules source start text value ↔
      (delimited item delimiter (fun _ value => value) collector.accept).Takes rules source start
        text value := by
  constructor
  · rintro ⟨begins, yields⟩
    exact ⟨begins, yields.of_form_eq rfl⟩
  · rintro ⟨begins, yields⟩
    exact ⟨begins, yields.of_form_eq rfl⟩

theorem takes_separated {headText : List ε} {head : ν}
    (beginning : item.Takes rules source start headText head)
    (others : (sequence delimiter item fun _ value => value).Repeats rules source
      (start + headText.length) taken) :
    (separated item delimiter collector).Takes rules source start (headText ++ spelled taken)
      (collector.gathered (head :: taken.map Prod.snd)) := by
  rw [takes_separated_iff]
  exact takes_delimited beginning others

theorem Takes.of_separated
    (takes : (separated item delimiter collector).Takes rules source start text value) :
    ∃ headText head taken, item.Takes rules source start headText head ∧
      (Grammar.sequence delimiter item fun _ value => value).Repeats rules source
        (start + headText.length) taken ∧
      text = headText ++ spelled taken ∧
      value = collector.gathered (head :: taken.map Prod.snd) := by
  rw [takes_separated_iff] at takes
  exact takes.of_delimited

/-- Behind a head, the loop of a list takes items with a mark in front of each.  An item may depend
on what follows it, which is the mark of the next item or whatever is behind the last one. -/
theorem repeats_behind_marks {test : ε → Bool} {meaning : ε → ν} (mark : ε) (isMark : test mark)
    (isMember : ε → Bool) (outside : isMember mark = false) {runs : List (List ε)} {values : List ν}
    {rest : List ε}
    (each : List.Forall₂ (fun run value => ∀ {start : Nat} {following : List ε},
      remaining source start = run ++ following → Avoids isMember following →
        item.Takes rules source start run value) runs values)
    (boundary : Avoids isMember rest) (ends : Avoids test rest)
    (begins : remaining source start = runs.flatMap (mark :: ·) ++ rest) :
    ∃ taken, (sequence (element test meaning) item fun _ value => value).Repeats rules source start
        taken ∧
      spelled taken = runs.flatMap (mark :: ·) ∧ taken.map Prod.snd = values := by
  induction each generalizing start with
  | nil =>
      have fails : (element test meaning).Yields rules source start .failure :=
        element_fails (by rw [begins]; exact ends)
      exact ⟨[], .stop (sequence_fails_first fails), rfl, rfl⟩
  | @cons run value runs values takes _ othersCase =>
      rw [List.flatMap_cons, List.cons_append, List.cons_append, List.append_assoc] at begins
      have marked : (element test meaning).Takes rules source start [mark] _ :=
        takes_element begins isMark
      have taken := takes (remaining_of_eq_cons begins) (avoids_marked outside boundary runs)
      have pair : (sequence (element test meaning) item fun _ value => value).Takes rules source
          start (mark :: run) value := marked.sequence taken
      have beginsOthers : remaining source (start + (mark :: run).length) =
          runs.flatMap (mark :: ·) ++ rest := remaining_of_eq_append begins
      obtain ⟨others, repeats, spelling, same⟩ := othersCase beginsOthers
      refine ⟨(mark :: run, value) :: others, .more pair repeats, ?_, ?_⟩
      · rw [spelled_cons, spelling, List.flatMap_cons]
      · rw [List.map_cons, same]

end Grammar

end RecursiveDescent
