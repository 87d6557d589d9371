import RecursiveDescent.Value

/-!
# The order of values is total

Values of different kinds are ordered by their kinds, and values of one kind by what they are made
of, part by part.  So each law of the order is proved for values, for lists of values, for map
entries and for lists of entries together, by recursion on the first of the values compared.

Only equal values compare as equal.  In particular the order tells the two zeros and the many
floats that are no number apart.
-/

namespace RecursiveDescent

/-- The third of three orderings follows from the other two when neither of these is above. -/
def Composes (first second both : Ordering) : Prop :=
  first.isLE → second.isLE → both = first.then second

theorem Composes.then {first second both first' second' both' : Ordering}
    (leading : Composes first second both) (trailing : Composes first' second' both') :
    Composes (first.then first') (second.then second') (both.then both') := by
  intro notAbove notAbove'
  rw [leading (Ordering.isLE_left_of_isLE_then notAbove)
    (Ordering.isLE_left_of_isLE_then notAbove')]
  cases first with
  | lt => rfl
  | eq =>
      cases second with
      | lt =>
          cases first' with
          | lt | eq => rfl
          | gt => cases notAbove
      | eq => exact trailing notAbove notAbove'
      | gt => cases notAbove'
  | gt => cases notAbove

theorem composes_of_transCmp {α : Type} (compare : α → α → Ordering) [Std.TransCmp compare]
    (first second third : α) :
    Composes (compare first second) (compare second third) (compare first third) := by
  intro notAbove notAbove'
  cases order : compare first second with
  | lt => exact Std.TransCmp.lt_of_lt_of_isLE order notAbove'
  | eq => exact Std.TransCmp.congr_left order
  | gt => simp [order] at notAbove

namespace Binary64

instance : Std.TransOrd Binary64 where
  eq_swap := Std.OrientedOrd.eq_swap (α := Int)
  isLE_trans := Std.TransOrd.isLE_trans (α := Int)

instance : Std.LawfulEqOrd Binary64 where
  compare_self := Std.ReflOrd.compare_self (α := Int)
  eq_of_compare same := order_injective (Std.LawfulEqOrd.eq_of_compare same)

end Binary64

namespace Value

/-! ### Values of different kinds -/

theorem compare_of_rank_ne {left right : Value} (different : left.rank ≠ right.rank) :
    left.compare right = Ord.compare left.rank right.rank := by
  cases left <;> cases right <;> first | rfl | exact absurd rfl different

theorem compare_of_rank_lt {left right : Value} (below : left.rank < right.rank) :
    left.compare right = .lt := by
  rw [compare_of_rank_ne (Nat.ne_of_lt below)]
  exact Nat.compare_eq_lt.mpr below

theorem rank_le_of_isLE {left right : Value} (notAbove : (left.compare right).isLE) :
    left.rank ≤ right.rank := by
  by_cases same : left.rank = right.rank
  · exact Nat.le_of_eq same
  · rw [compare_of_rank_ne same] at notAbove
    exact Nat.isLE_compare.mp notAbove

theorem composes_of_rank_ne {first second third : Value}
    (different : first.rank ≠ second.rank ∨ second.rank ≠ third.rank) :
    Composes (first.compare second) (second.compare third) (first.compare third) := by
  intro notAbove notAbove'
  have ascending := rank_le_of_isLE notAbove
  have ascending' := rank_le_of_isLE notAbove'
  have below : first.compare third = .lt := compare_of_rank_lt (by omega)
  rw [below]
  by_cases same : first.rank = second.rank
  · have belowThird : second.compare third = .lt := compare_of_rank_lt (by omega)
    rw [belowThird]
    revert notAbove
    cases first.compare second <;> decide
  · have belowSecond : first.compare second = .lt := compare_of_rank_lt (by omega)
    rw [belowSecond]
    rfl

/-! ### Turning a comparison around -/

mutual

theorem compare_swap (left right : Value) : left.compare right = (right.compare left).swap := by
  cases left with
  | unit | none => cases right <;> rfl
  | bool truth =>
      cases right with
      | bool other => exact Std.OrientedOrd.eq_swap
      | _ => rfl
  | int number =>
      cases right with
      | int other => exact Std.OrientedOrd.eq_swap
      | _ => rfl
  | float number =>
      cases right with
      | float other => exact Std.OrientedOrd.eq_swap
      | _ => rfl
  | char character =>
      cases right with
      | char other => exact Std.OrientedOrd.eq_swap
      | _ => rfl
  | string text =>
      cases right with
      | string other => exact Std.OrientedOrd.eq_swap
      | _ => rfl
  | list items =>
      cases right with
      | list others => exact compareLists_swap items others
      | _ => rfl
  | pair first second =>
      cases right with
      | pair otherFirst otherSecond =>
          exact compareEntry_swap (first, second) (otherFirst, otherSecond)
      | _ => rfl
  | some content =>
      cases right with
      | some other => exact compare_swap content other
      | _ => rfl
  | set members =>
      cases right with
      | set others => exact compareLists_swap members others
      | _ => rfl
  | map entries =>
      cases right with
      | map others => exact compareEntries_swap entries others
      | _ => rfl

theorem compareLists_swap (left right : List Value) :
    compareLists left right = (compareLists right left).swap := by
  cases left with
  | nil => cases right <;> rfl
  | cons item items =>
      cases right with
      | nil => rfl
      | cons other others =>
          rw [compareLists, compareLists, Ordering.swap_then, ← compare_swap item other,
            ← compareLists_swap items others]

theorem compareEntries_swap (left right : List (Value × Value)) :
    compareEntries left right = (compareEntries right left).swap := by
  cases left with
  | nil => cases right <;> rfl
  | cons entry entries =>
      cases right with
      | nil => rfl
      | cons other others =>
          rw [compareEntries, compareEntries, Ordering.swap_then, ← compareEntry_swap entry other,
            ← compareEntries_swap entries others]

theorem compareEntry_swap (left right : Value × Value) :
    compareEntry left right = (compareEntry right left).swap := by
  cases left with
  | mk key value =>
      rw [compareEntry, compareEntry, Ordering.swap_then, ← compare_swap key right.1,
        ← compare_swap value right.2]

end

/-! ### Values that compare as equal -/

theorem compare_self (value : Value) : value.compare value = .eq := by
  have turned := compare_swap value value
  revert turned
  cases value.compare value <;> decide

mutual

theorem eq_of_compare {left right : Value} (same : left.compare right = .eq) : left = right := by
  cases left with
  | unit =>
      cases right with
      | unit => rfl
      | _ => cases same
  | bool truth =>
      cases right with
      | bool other => exact congrArg Value.bool (Std.LawfulEqOrd.eq_of_compare same)
      | _ => cases same
  | int number =>
      cases right with
      | int other => exact congrArg Value.int (Std.LawfulEqOrd.eq_of_compare same)
      | _ => cases same
  | float number =>
      cases right with
      | float other => exact congrArg Value.float (Std.LawfulEqOrd.eq_of_compare same)
      | _ => cases same
  | char character =>
      cases right with
      | char other => exact congrArg Value.char (Std.LawfulEqOrd.eq_of_compare same)
      | _ => cases same
  | string text =>
      cases right with
      | string other => exact congrArg Value.string (Std.LawfulEqOrd.eq_of_compare same)
      | _ => cases same
  | list items =>
      cases right with
      | list others => exact congrArg Value.list (eq_of_compareLists same)
      | _ => cases same
  | pair first second =>
      cases right with
      | pair otherFirst otherSecond =>
          obtain ⟨sameFirst, sameSecond⟩ := Ordering.then_eq_eq.mp same
          rw [eq_of_compare sameFirst, eq_of_compare sameSecond]
      | _ => cases same
  | none =>
      cases right with
      | none => rfl
      | _ => cases same
  | some content =>
      cases right with
      | some other => exact congrArg Value.some (eq_of_compare same)
      | _ => cases same
  | set members =>
      cases right with
      | set others => exact congrArg Value.set (eq_of_compareLists same)
      | _ => cases same
  | map entries =>
      cases right with
      | map others => exact congrArg Value.map (eq_of_compareEntries same)
      | _ => cases same

theorem eq_of_compareLists {left right : List Value} (same : compareLists left right = .eq) :
    left = right := by
  cases left with
  | nil => cases right with
    | nil => rfl
    | cons other others => cases same
  | cons item items => cases right with
    | nil => cases same
    | cons other others =>
        obtain ⟨sameFirst, sameRest⟩ := Ordering.then_eq_eq.mp same
        rw [eq_of_compare sameFirst, eq_of_compareLists sameRest]

theorem eq_of_compareEntries {left right : List (Value × Value)}
    (same : compareEntries left right = .eq) : left = right := by
  cases left with
  | nil => cases right with
    | nil => rfl
    | cons other others => cases same
  | cons entry entries => cases right with
    | nil => cases same
    | cons other others =>
        obtain ⟨sameFirst, sameRest⟩ := Ordering.then_eq_eq.mp same
        rw [eq_of_compareEntry sameFirst, eq_of_compareEntries sameRest]

theorem eq_of_compareEntry {left right : Value × Value} (same : compareEntry left right = .eq) :
    left = right := by
  cases left with
  | mk key value => cases right with
    | mk otherKey otherValue =>
        obtain ⟨sameKey, sameValue⟩ := Ordering.then_eq_eq.mp same
        rw [eq_of_compare sameKey, eq_of_compare sameValue]

end

/-! ### Three values -/

mutual

theorem compare_composes (first second third : Value) :
    Composes (first.compare second) (second.compare third) (first.compare third) := by
  by_cases same : first.rank = second.rank ∧ second.rank = third.rank
  · obtain ⟨sameSecond, sameThird⟩ := same
    -- only the cases remain in which the three values are of one kind
    cases first <;> cases second <;> cases sameSecond <;> cases third <;> cases sameThird
    case unit.unit.refl.unit.refl | none.none.refl.none.refl => exact fun _ _ => rfl
    case bool.bool.refl.bool.refl truth other last =>
      exact composes_of_transCmp Ord.compare truth other last
    case int.int.refl.int.refl number other last =>
      exact composes_of_transCmp Ord.compare number other last
    case float.float.refl.float.refl number other last =>
      exact composes_of_transCmp Ord.compare number other last
    case char.char.refl.char.refl character other last =>
      exact composes_of_transCmp Ord.compare character other last
    case string.string.refl.string.refl text other last =>
      exact composes_of_transCmp Ord.compare text other last
    case list.list.refl.list.refl items others last =>
      exact compareLists_composes items others last
    case pair.pair.refl.pair.refl first second other otherSecond last lastSecond =>
      exact (compare_composes first other last).then
        (compare_composes second otherSecond lastSecond)
    case some.some.refl.some.refl content other last => exact compare_composes content other last
    case set.set.refl.set.refl members others last =>
      exact compareLists_composes members others last
    case map.map.refl.map.refl entries others last =>
      exact compareEntries_composes entries others last
  · exact composes_of_rank_ne (by omega)

theorem compareLists_composes (first second third : List Value) :
    Composes (compareLists first second) (compareLists second third)
      (compareLists first third) := by
  cases first with
  | nil =>
      intro _ notAbove
      cases second with
      | nil => rfl
      | cons other others =>
          cases third with
          | nil => cases notAbove
          | cons last lasts => rfl
  | cons item items =>
      intro notAbove notAbove'
      cases second with
      | nil => cases notAbove
      | cons other others =>
          cases third with
          | nil => cases notAbove'
          | cons last lasts =>
              exact (compare_composes item other last).then
                (compareLists_composes items others lasts) notAbove notAbove'

theorem compareEntries_composes (first second third : List (Value × Value)) :
    Composes (compareEntries first second) (compareEntries second third)
      (compareEntries first third) := by
  cases first with
  | nil =>
      intro _ notAbove
      cases second with
      | nil => rfl
      | cons other others =>
          cases third with
          | nil => cases notAbove
          | cons last lasts => rfl
  | cons entry entries =>
      intro notAbove notAbove'
      cases second with
      | nil => cases notAbove
      | cons other others =>
          cases third with
          | nil => cases notAbove'
          | cons last lasts =>
              exact (compareEntry_composes entry other last).then
                (compareEntries_composes entries others lasts) notAbove notAbove'

theorem compareEntry_composes (first second third : Value × Value) :
    Composes (compareEntry first second) (compareEntry second third)
      (compareEntry first third) := by
  cases first with
  | mk key value =>
      rw [compareEntry, compareEntry, compareEntry]
      exact (compare_composes key second.1 third.1).then (compare_composes value second.2 third.2)

end

/-- The order of values is a total order. -/
instance : Std.TransCmp Value.compare where
  eq_swap := compare_swap _ _
  isLE_trans {first second third} notAbove notAbove' := by
    rw [compare_composes first second third notAbove notAbove']
    revert notAbove notAbove'
    cases first.compare second <;> cases second.compare third <;> decide

instance : Std.LawfulEqCmp Value.compare where
  compare_self := compare_self _
  eq_of_compare := eq_of_compare

end Value

end RecursiveDescent
