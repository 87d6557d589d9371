import RecursiveDescent.Proofs.CollectorAdapters
import Mathlib.Data.List.Basic
import Mathlib.Data.List.Induction

/-!
# The earliest of the smallest and of the greatest values

Two collectors keep one value of a list: the smallest or the greatest.  A later value takes over only
when it compares as smaller, or as greater, than the one that is kept, so a tie leaves the earlier
value in place.  When the comparison is a total preorder, the value that is left over at the end is
at the first position where no value of the list would take over.

Whatever the comparison is, a value of the list is left over unless the list is empty, and turning
the results of the comparison around makes the collector of the smallest value the one of the
greatest.
-/

namespace RecursiveDescent

namespace Collector

variable {m : Type → Type} {α : Type} {compare : α → α → Ordering} {result : Ordering}
  {values : List α} {index : Nat} {best value : α}

/-- The position holds a value to which no value of the list compares with the given result, and
it is the first such position. -/
structure IsEarliest (compare : α → α → Ordering) (result : Ordering) (values : List α)
    (index : Nat) (best : α) : Prop where
  found : values[index]? = some best
  unbeaten : ∀ other ∈ values, compare other best ≠ result
  earliest : ∀ earlier ∈ values.take index, ∃ other ∈ values, compare other earlier = result

/-- What is kept of a kept value and the next one, which takes over when it compares to the kept one
with the given result. -/
def keeping (compare : α → α → Ordering) (result : Ordering) (held : Option α) (value : α) :
    Option α :=
  match held with
  | some best => if compare value best = result then some value else some best
  | none => some value

def kept (compare : α → α → Ordering) (result : Ordering) (values : List α) : Option α :=
  values.foldl (keeping compare result) none

theorem kept_concat (compare : α → α → Ordering) (result : Ordering) (values : List α)
    (value : α) :
    kept compare result (values ++ [value]) =
      keeping compare result (kept compare result values) value :=
  List.foldl_concat _ _ _ _

theorem keeping_some (compare : α → α → Ordering) (result : Ordering) (best value : α) :
    keeping compare result (some best) value =
      if compare value best = result then some value else some best :=
  rfl

section Folds

variable [Monad m] [LawfulMonad m]

theorem fold_minBy (compare : α → α → Ordering) (values : List α) :
    (minBy compare : Collector m α (Option α)).fold values = pure (kept compare .lt values) :=
  fold_ofFold none (keeping compare .lt) id values

theorem fold_maxBy (compare : α → α → Ordering) (values : List α) :
    (maxBy compare : Collector m α (Option α)).fold values = pure (kept compare .gt values) :=
  fold_ofFold none (keeping compare .gt) id values

end Folds

/-! ### Any comparison -/

theorem exists_keeping_eq (compare : α → α → Ordering) (result : Ordering) (held : Option α)
    (value : α) :
    ∃ best, keeping compare result held value = some best ∧ (best = value ∨ held = some best) := by
  cases held with
  | none => exact ⟨value, rfl, .inl rfl⟩
  | some best =>
      rw [keeping_some]
      split
      · exact ⟨value, rfl, .inl rfl⟩
      · exact ⟨best, rfl, .inr rfl⟩

theorem kept_eq_none_iff : kept compare result values = none ↔ values = [] := by
  induction values using List.reverseRecOn with
  | nil => exact iff_of_true rfl rfl
  | append_singleton values value _ =>
      obtain ⟨best, taken, _⟩ :=
        exists_keeping_eq compare result (kept compare result values) value
      rw [kept_concat, taken]
      simp

theorem mem_of_kept (left : kept compare result values = some best) : best ∈ values := by
  induction values using List.reverseRecOn generalizing best with
  | nil => cases left
  | append_singleton values value valuesCase =>
      obtain ⟨chosen, taken, source⟩ :=
        exists_keeping_eq compare result (kept compare result values) value
      rw [kept_concat, taken] at left
      obtain rfl := Option.some.inj left
      rcases source with rfl | earlier
      · exact List.mem_concat_self
      · exact List.mem_append_left _ (valuesCase earlier)

/-- Turning the results of a comparison around turns what takes over around. -/
theorem kept_swap (compare : α → α → Ordering) (values : List α) :
    kept (fun left right => (compare left right).swap) .lt values = kept compare .gt values := by
  have same : keeping (fun left right => (compare left right).swap) .lt = keeping compare .gt := by
    funext held value
    cases held with
    | none => rfl
    | some best => simp only [keeping_some, Ordering.swap_eq_lt]
  rw [kept, same]
  rfl

/-! ### Total preorders -/

theorem IsEarliest.lt_length (isEarliest : IsEarliest compare result values index best) :
    index < values.length :=
  (List.getElem?_eq_some_iff.mp isEarliest.found).1

theorem IsEarliest.mem_take (isEarliest : IsEarliest compare result values index best) {later : Nat}
    (before : index < later) : best ∈ values.take later := by
  have found : (values.take later)[index]? = some best := by
    rw [List.getElem?_take_of_lt before]
    exact isEarliest.found
  exact List.mem_of_getElem? found

/-- No position in front of the earliest one is as good. -/
theorem IsEarliest.not_lt {other : Nat} {otherBest : α}
    (first : IsEarliest compare result values index best)
    (second : IsEarliest compare result values other otherBest) : ¬ index < other := by
  intro before
  obtain ⟨challenger, member, beats⟩ := second.earliest best (first.mem_take before)
  exact first.unbeaten challenger member beats

theorem IsEarliest.unique {other : Nat} {otherBest : α}
    (first : IsEarliest compare result values index best)
    (second : IsEarliest compare result values other otherBest) : best = otherBest := by
  have same : index = other :=
    Nat.le_antisymm (Nat.le_of_not_lt (second.not_lt first)) (Nat.le_of_not_lt (first.not_lt second))
  subst same
  exact Option.some.inj (first.found.symm.trans second.found)

/-- A value that does not take over leaves the earliest smallest one in place. -/
theorem IsEarliest.concat_of_not_lt (isEarliest : IsEarliest compare .lt values index best)
    (notBelow : compare value best ≠ .lt) :
    IsEarliest compare .lt (values ++ [value]) index best where
  found := by
    rw [List.getElem?_append_left isEarliest.lt_length]
    exact isEarliest.found
  unbeaten other member := by
    rcases List.mem_append.mp member with held | only
    · exact isEarliest.unbeaten other held
    · rw [List.mem_singleton.mp only]
      exact notBelow
  earliest earlier member := by
    rw [List.take_append_of_le_length (Nat.le_of_lt isEarliest.lt_length)] at member
    obtain ⟨other, found, below⟩ := isEarliest.earliest earlier member
    exact ⟨other, List.mem_append_left _ found, below⟩

section Preorders

variable [Std.TransCmp compare]

theorem not_self_lt (value : α) : compare value value ≠ .lt := by
  have same : compare value value = .eq := Std.ReflCmp.compare_self
  rw [same]
  exact Ordering.noConfusion

theorem isLE_of_not_lt {first second : α} (notBelow : compare second first ≠ .lt) :
    (compare first second).isLE := by
  cases order : compare first second with
  | lt | eq => rfl
  | gt => exact absurd (Std.OrientedCmp.lt_of_gt order) notBelow

/-- The values in front of the earliest smallest one are greater. -/
theorem IsEarliest.gt_of_mem_take (isEarliest : IsEarliest compare .lt values index best)
    {earlier : α} (member : earlier ∈ values.take index) : compare earlier best = .gt := by
  obtain ⟨other, found, below⟩ := isEarliest.earliest earlier member
  have least := isLE_of_not_lt (isEarliest.unbeaten other found)
  exact Std.OrientedCmp.gt_of_lt (Std.TransCmp.lt_of_isLE_of_lt least below)

/-- A value that takes over is the earliest smallest one of the longer list. -/
theorem IsEarliest.concat_of_lt (isEarliest : IsEarliest compare .lt values index best)
    (below : compare value best = .lt) :
    IsEarliest compare .lt (values ++ [value]) values.length value where
  found := List.getElem?_concat_length
  unbeaten other member less := by
    rcases List.mem_append.mp member with held | only
    · exact isEarliest.unbeaten other held (Std.TransCmp.lt_trans less below)
    · rw [List.mem_singleton.mp only] at less
      exact not_self_lt value less
  earliest earlier member := by
    rw [List.take_left] at member
    have least := isLE_of_not_lt (isEarliest.unbeaten earlier member)
    exact ⟨value, List.mem_concat_self, Std.TransCmp.lt_of_lt_of_isLE below least⟩

theorem isEarliest_singleton (value : α) : IsEarliest compare .lt [value] 0 value where
  found := rfl
  unbeaten other member less := by
    rw [List.mem_singleton.mp member] at less
    exact not_self_lt value less
  earliest _ absent := absurd absent List.not_mem_nil

theorem exists_isEarliest_of_kept (left : kept compare .lt values = some best) :
    ∃ index, IsEarliest compare .lt values index best := by
  induction values using List.reverseRecOn generalizing best with
  | nil => cases left
  | append_singleton values value valuesCase =>
      rw [kept_concat] at left
      cases held : kept compare .lt values with
      | none =>
          rw [held] at left
          obtain rfl := Option.some.inj left
          rw [kept_eq_none_iff.mp held]
          exact ⟨0, isEarliest_singleton value⟩
      | some earlierBest =>
          obtain ⟨index, isEarliest⟩ := valuesCase held
          rw [held, keeping_some] at left
          by_cases below : compare value earlierBest = .lt
          · rw [if_pos below] at left
            obtain rfl := Option.some.inj left
            exact ⟨values.length, isEarliest.concat_of_lt below⟩
          · rw [if_neg below] at left
            obtain rfl := Option.some.inj left
            exact ⟨index, isEarliest.concat_of_not_lt below⟩

theorem kept_lt_eq_some_iff :
    kept compare .lt values = some best ↔ ∃ index, IsEarliest compare .lt values index best := by
  constructor
  · exact exists_isEarliest_of_kept
  · rintro ⟨index, isEarliest⟩
    cases held : kept compare .lt values with
    | none =>
        have member := List.mem_of_getElem? isEarliest.found
        rw [kept_eq_none_iff.mp held] at member
        cases member
    | some other =>
        obtain ⟨otherIndex, isEarliestToo⟩ := exists_isEarliest_of_kept held
        rw [isEarliestToo.unique isEarliest]

end Preorders

/-! ### Turning a comparison around -/

section Opposite

variable [Std.OrientedCmp compare]

theorem kept_opposite (values : List α) :
    kept (fun left right => compare right left) .lt values = kept compare .gt values := by
  rw [← kept_swap]
  congr 1
  funext left right
  exact Std.OrientedCmp.eq_swap

theorem isEarliest_opposite_iff :
    IsEarliest (fun left right => compare right left) .lt values index best ↔
      IsEarliest compare .gt values index best := by
  have turned (left right : α) : compare right left = .lt ↔ compare left right = .gt :=
    Std.OrientedCmp.gt_iff_lt.symm
  constructor
  · rintro ⟨found, unbeaten, earliest⟩
    simp only [ne_eq, turned] at unbeaten earliest
    exact ⟨found, unbeaten, earliest⟩
  · rintro ⟨found, unbeaten, earliest⟩
    simp only [ne_eq, ← turned] at unbeaten earliest
    exact ⟨found, unbeaten, earliest⟩

end Opposite

theorem kept_gt_eq_some_iff [Std.TransCmp compare] :
    kept compare .gt values = some best ↔ ∃ index, IsEarliest compare .gt values index best := by
  simp only [← kept_opposite, ← isEarliest_opposite_iff]
  have opposite : Std.TransCmp fun left right : α => compare right left := Std.TransCmp.opposite
  exact kept_lt_eq_some_iff

/-- The collectors of the smallest and of the greatest value come to nothing exactly for no values,
and otherwise to one of the values; for a total preorder it is the one at the earliest position
where no value is smaller, or no value is greater.  The values in front of it are then greater, or
smaller.  With the comparison turned around, in its results or in its arguments, the collector of
the smallest value is the collector of the greatest one. -/
theorem extrema_earliest [Monad m] [LawfulMonad m] (compare : α → α → Ordering)
    (values : List α) :
    ∃ least greatest : Option α,
      (minBy compare : Collector m α (Option α)).fold values = pure least ∧
      (maxBy compare : Collector m α (Option α)).fold values = pure greatest ∧
      (least = none ↔ values = []) ∧ (greatest = none ↔ values = []) ∧
      (∀ best, least = some best → best ∈ values) ∧
      (∀ best, greatest = some best → best ∈ values) ∧
      (minBy fun left right => (compare left right).swap : Collector m α (Option α)).fold values =
        pure greatest ∧
      (Std.TransCmp compare →
        (minBy fun left right => compare right left : Collector m α (Option α)).fold values =
          pure greatest ∧
        (∀ best, least = some best ↔ ∃ index, IsEarliest compare .lt values index best) ∧
        (∀ index best, IsEarliest compare .lt values index best →
          ∀ earlier ∈ values.take index, compare earlier best = .gt) ∧
        (∀ best, greatest = some best ↔ ∃ index, IsEarliest compare .gt values index best) ∧
        ∀ index best, IsEarliest compare .gt values index best →
          ∀ earlier ∈ values.take index, compare earlier best = .lt) := by
  refine ⟨kept compare .lt values, kept compare .gt values, fold_minBy compare values,
    fold_maxBy compare values, kept_eq_none_iff, kept_eq_none_iff, fun _ => mem_of_kept,
    fun _ => mem_of_kept, ?_, fun preorder => ⟨?_, fun _ => kept_lt_eq_some_iff, ?_,
      fun _ => kept_gt_eq_some_iff, ?_⟩⟩
  · rw [fold_minBy, kept_swap]
  · rw [fold_minBy, kept_opposite]
  · intro index best isEarliest earlier member
    exact isEarliest.gt_of_mem_take member
  · intro index best isEarliest earlier member
    have opposite : Std.TransCmp fun left right : α => compare right left := Std.TransCmp.opposite
    exact Std.OrientedCmp.lt_of_gt
      ((isEarliest_opposite_iff.mpr isEarliest).gt_of_mem_take member)

/-- Among texts compared by their lengths, the first of the shortest and the first of the longest. -/
theorem extrema_earliest_lengths :
    (minBy (compareOn String.length) : Collector Id String (Option String)).fold
      ["aa", "bb", "c", "cc", "d"] = some "c" ∧
    (maxBy (compareOn String.length) : Collector Id String (Option String)).fold
      ["aa", "bb", "c", "cc", "d"] = some "aa" := by
  obtain ⟨least, greatest, isLeast, isGreatest, -, -, -, -, -, ordered⟩ :=
    extrema_earliest (m := Id) (compareOn String.length) ["aa", "bb", "c", "cc", "d"]
  obtain ⟨-, leastIff, -, greatestIff, -⟩ := ordered inferInstance
  rw [isLeast, isGreatest]
  exact ⟨(leastIff "c").mpr ⟨2, rfl, by decide, by decide⟩,
    (greatestIff "aa").mpr ⟨0, rfl, by decide, by decide⟩⟩

end Collector

end RecursiveDescent
