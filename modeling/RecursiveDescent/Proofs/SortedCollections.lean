import RecursiveDescent.Collector.Sorted
import RecursiveDescent.Proofs.CollectorAdapters
import RecursiveDescent.Proofs.ValueOrder
import Mathlib.Data.List.Forall2
import Mathlib.Data.List.Induction

/-!
# What sets and maps hold

A set is gathered by inserting one value after the other, and a map by inserting one entry after
the other.  A value that is already there, or a key, is not inserted a second time; the entry of
the key gets the new value.  So a set holds the values of the list, each one once, and a map holds
the keys of the list, each one once, with the value of the last pair of each key.

Two entries with different keys can be inserted in either order.  Therefore a map depends only on
the order of the pairs that have the same key, and a set does not depend on any order.

Values are the same when the comparison says that they are equal.  They need not be one value.
Where they are, a set is one list for all orders of its values.
-/

namespace RecursiveDescent

namespace SortedList

variable {α κ ν : Type}

/-- The members are in strictly ascending order, so no two are the same. -/
def Ascending (compare : α → α → Ordering) (members : List α) : Prop :=
  members.Pairwise fun left right => compare left right = .lt

/-- One of the members is the same as a given value. -/
def Holds (compare : α → α → Ordering) (members : List α) (value : α) : Prop :=
  ∃ member ∈ members, compare member value = .eq

/-- The value of the first entry that has a given key. -/
def valueOf (compare : κ → κ → Ordering) (entries : List (κ × ν)) (key : κ) : Option ν :=
  (entries.find? fun entry => compare entry.1 key = .eq).map Prod.snd

/-- The pairs that have a given key, in their order. -/
def pairsOf (compare : κ → κ → Ordering) (pairs : List (κ × ν)) (key : κ) : List (κ × ν) :=
  pairs.filter fun pair => compare pair.1 key = .eq

def membersOf (compare : α → α → Ordering) (values : List α) : List α :=
  values.foldl (fun members value => insertMember compare value members) []

def insertAll (compare : κ → κ → Ordering) (entries pairs : List (κ × ν)) : List (κ × ν) :=
  pairs.foldl (fun entries entry => insertEntry compare entry.1 entry.2 entries) entries

/-- The members are the values of the list, each one once. -/
structure IsSetOf (compare : α → α → Ordering) (values members : List α) : Prop where
  ascending : Ascending compare members
  occurs : ∀ member ∈ members, member ∈ values
  holds : ∀ value, Holds compare members value ↔ Holds compare values value

/-- The entries have the keys of the pairs, each one once, and each key has the value of its last
pair, which is the first one in the reversed list. -/
structure IsMapOf (compare : κ → κ → Ordering) (pairs entries : List (κ × ν)) : Prop where
  keys : IsSetOf compare (pairs.map Prod.fst) (entries.map Prod.fst)
  values : ∀ key, valueOf compare entries key = valueOf compare pairs.reverse key

/-- The same pairs in an order that may differ, but not for the pairs of one key. -/
structure Rearranged (compare : κ → κ → Ordering) (pairs others : List (κ × ν)) : Prop where
  perm : pairs.Perm others
  order : ∀ key, pairsOf compare pairs key = pairsOf compare others key

variable {compare : α → α → Ordering} {first member other value : α} {members rest others : List α}

/-! ### Insertion -/

theorem insertMember_of_lt (below : compare member first = .lt) :
    insertMember compare member (first :: rest) = member :: first :: rest := by
  simp only [insertMember, below]

theorem insertMember_of_eq (same : compare member first = .eq) :
    insertMember compare member (first :: rest) = first :: rest := by
  simp only [insertMember, same]

theorem insertMember_of_gt (above : compare member first = .gt) :
    insertMember compare member (first :: rest) = first :: insertMember compare member rest := by
  simp only [insertMember, above]

theorem mem_of_mem_insertMember (held : other ∈ insertMember compare member members) :
    other = member ∨ other ∈ members := by
  induction members with
  | nil => exact .inl (List.mem_singleton.mp held)
  | cons first rest restCase =>
      cases order : compare member first with
      | lt =>
          rw [insertMember_of_lt order] at held
          exact List.mem_cons.mp held
      | eq =>
          rw [insertMember_of_eq order] at held
          exact .inr held
      | gt =>
          rw [insertMember_of_gt order] at held
          rcases List.mem_cons.mp held with rfl | later
          · exact .inr List.mem_cons_self
          · exact (restCase later).imp_right (List.mem_cons_of_mem first)

theorem membersOf_concat (compare : α → α → Ordering) (values : List α) (value : α) :
    membersOf compare (values ++ [value]) =
      insertMember compare value (membersOf compare values) :=
  List.foldl_concat _ _ _ _

theorem holds_cons :
    Holds compare (first :: rest) value ↔ compare first value = .eq ∨ Holds compare rest value := by
  simp only [Holds, List.mem_cons, or_and_right, exists_or, exists_eq_left]

theorem holds_concat :
    Holds compare (members ++ [member]) value ↔
      compare member value = .eq ∨ Holds compare members value := by
  simp only [Holds, List.mem_append, List.mem_singleton, or_and_right, exists_or, exists_eq_left]
  exact or_comm

section Sets

variable [Std.TransCmp compare]

theorem holds_insertMember :
    Holds compare (insertMember compare member members) value ↔
      compare member value = .eq ∨ Holds compare members value := by
  induction members with
  | nil => exact holds_cons
  | cons first rest restCase =>
      cases order : compare member first with
      | lt => rw [insertMember_of_lt order, holds_cons]
      | eq =>
          -- the member that is kept stands for the new one
          rw [insertMember_of_eq order, holds_cons, Std.TransCmp.congr_left order, ← or_assoc,
            or_self]
      | gt => rw [insertMember_of_gt order, holds_cons, restCase, holds_cons, or_left_comm]

theorem Ascending.insertMember (ascending : Ascending compare members) :
    Ascending compare (insertMember compare member members) := by
  induction members with
  | nil => exact List.pairwise_singleton _ member
  | cons first rest restCase =>
      obtain ⟨least, restAscending⟩ := List.pairwise_cons.mp ascending
      cases order : compare member first with
      | lt =>
          rw [insertMember_of_lt order]
          refine List.Pairwise.cons (fun other held => ?_) ascending
          rcases List.mem_cons.mp held with rfl | later
          · exact order
          · exact Std.TransCmp.lt_trans order (least other later)
      | eq =>
          rw [insertMember_of_eq order]
          exact ascending
      | gt =>
          rw [insertMember_of_gt order]
          refine List.Pairwise.cons (fun other held => ?_) (restCase restAscending)
          rcases mem_of_mem_insertMember held with rfl | later
          · exact Std.OrientedCmp.lt_of_gt order
          · exact least other later

theorem isSetOf_membersOf (compare : α → α → Ordering) [Std.TransCmp compare] (values : List α) :
    IsSetOf compare values (membersOf compare values) := by
  induction values using List.reverseRecOn with
  | nil => exact ⟨List.Pairwise.nil, fun _ absent => absent, fun _ => Iff.rfl⟩
  | append_singleton values value valuesCase =>
      obtain ⟨ascending, occurs, holds⟩ := valuesCase
      rw [membersOf_concat]
      refine ⟨ascending.insertMember, fun member held => ?_, fun other => ?_⟩
      · rcases mem_of_mem_insertMember held with rfl | earlier
        · exact List.mem_concat_self
        · exact List.mem_append_left _ (occurs member earlier)
      · rw [holds_insertMember, holds_concat, holds]

/-! ### Sets of the same values -/

/-- Everything in an ascending list is above what is below its first member. -/
theorem Ascending.not_holds_of_lt (ascending : Ascending compare (first :: rest))
    (below : compare value first = .lt) : ¬ Holds compare (first :: rest) value := by
  rintro ⟨other, held, same⟩
  have above : compare value other = .lt := by
    rcases List.mem_cons.mp held with rfl | later
    · exact below
    · exact Std.TransCmp.lt_trans below ((List.pairwise_cons.mp ascending).1 other later)
  rw [Std.OrientedCmp.eq_symm same] at above
  cases above

theorem Ascending.holds_rest_iff (ascending : Ascending compare (first :: rest)) :
    Holds compare rest value ↔ compare first value ≠ .eq ∧ Holds compare (first :: rest) value := by
  constructor
  · rintro ⟨other, later, same⟩
    refine ⟨fun sameFirst => ?_, other, List.mem_cons_of_mem first later, same⟩
    have below := (List.pairwise_cons.mp ascending).1 other later
    rw [Std.TransCmp.congr_right same, sameFirst] at below
    cases below
  · rintro ⟨different, held⟩
    exact (holds_cons.mp held).resolve_left different

/-- Ascending lists that hold the same values hold them at the same places. -/
theorem Ascending.forall₂ (ascending : Ascending compare members)
    (ascending' : Ascending compare others)
    (holds : ∀ value, Holds compare members value ↔ Holds compare others value) :
    List.Forall₂ (fun member other => compare member other = .eq) members others := by
  induction members generalizing others with
  | nil =>
      cases others with
      | nil => exact .nil
      | cons other others =>
          have held : Holds compare (other :: others) other :=
            holds_cons.mpr (.inl Std.ReflCmp.compare_self)
          obtain ⟨_, absent, _⟩ := (holds other).mpr held
          cases absent
  | cons first rest restCase =>
      have held : Holds compare (first :: rest) first :=
        holds_cons.mpr (.inl Std.ReflCmp.compare_self)
      cases others with
      | nil =>
          obtain ⟨_, absent, _⟩ := (holds first).mp held
          cases absent
      | cons other others =>
          have held' : Holds compare (other :: others) other :=
            holds_cons.mpr (.inl Std.ReflCmp.compare_self)
          have same : compare first other = .eq := by
            cases order : compare first other with
            | lt => exact absurd ((holds first).mp held) (ascending'.not_holds_of_lt order)
            | eq => rfl
            | gt =>
                exact absurd ((holds other).mpr held')
                  (ascending.not_holds_of_lt (Std.OrientedCmp.lt_of_gt order))
          refine .cons same (restCase ascending.of_cons ascending'.of_cons fun value => ?_)
          rw [ascending.holds_rest_iff, ascending'.holds_rest_iff, holds,
            Std.TransCmp.congr_left same]

theorem IsSetOf.forall₂ {values others : List α} {otherMembers : List α}
    (isSet : IsSetOf compare values members) (isSet' : IsSetOf compare others otherMembers)
    (perm : values.Perm others) :
    List.Forall₂ (fun member other => compare member other = .eq) members otherMembers := by
  refine isSet.ascending.forall₂ isSet'.ascending fun value => ?_
  rw [isSet.holds, isSet'.holds]
  exact exists_congr fun other => and_congr_left fun _ => perm.mem_iff

end Sets

/-! ### Entries -/

section Maps

variable {compare : κ → κ → Ordering} {key otherKey firstKey : κ} {value otherValue kept : ν}
  {entries restEntries pairs others : List (κ × ν)}

theorem insertEntry_of_lt (below : compare key firstKey = .lt) :
    insertEntry compare key value ((firstKey, kept) :: restEntries) =
      (key, value) :: (firstKey, kept) :: restEntries := by
  simp only [insertEntry, below]

theorem insertEntry_of_eq (same : compare key firstKey = .eq) :
    insertEntry compare key value ((firstKey, kept) :: restEntries) =
      (firstKey, value) :: restEntries := by
  simp only [insertEntry, same]

theorem insertEntry_of_gt (above : compare key firstKey = .gt) :
    insertEntry compare key value ((firstKey, kept) :: restEntries) =
      (firstKey, kept) :: insertEntry compare key value restEntries := by
  simp only [insertEntry, above]

/-- The keys of a map are a set. -/
theorem map_fst_insertEntry (compare : κ → κ → Ordering) (key : κ) (value : ν)
    (entries : List (κ × ν)) :
    (insertEntry compare key value entries).map Prod.fst =
      insertMember compare key (entries.map Prod.fst) := by
  induction entries with
  | nil => rfl
  | cons entry entries entriesCase =>
      obtain ⟨firstKey, kept⟩ := entry
      rw [List.map_cons]
      cases order : compare key firstKey with
      | lt => rw [insertEntry_of_lt order, insertMember_of_lt order, List.map_cons, List.map_cons]
      | eq => rw [insertEntry_of_eq order, insertMember_of_eq order, List.map_cons]
      | gt => rw [insertEntry_of_gt order, insertMember_of_gt order, List.map_cons, entriesCase]

theorem insertAll_cons (entry : κ × ν) :
    insertAll compare entries (entry :: pairs) =
      insertAll compare (insertEntry compare entry.1 entry.2 entries) pairs :=
  rfl

theorem insertAll_append :
    insertAll compare entries (pairs ++ others) =
      insertAll compare (insertAll compare entries pairs) others :=
  List.foldl_append

theorem map_fst_insertAll (compare : κ → κ → Ordering) (pairs : List (κ × ν)) :
    (insertAll compare [] pairs).map Prod.fst = membersOf compare (pairs.map Prod.fst) := by
  induction pairs using List.reverseRecOn with
  | nil => rfl
  | append_singleton pairs pair pairsCase =>
      rw [List.map_append, List.map_singleton, membersOf_concat, ← pairsCase, insertAll_append]
      exact map_fst_insertEntry compare pair.1 pair.2 _

theorem valueOf_cons (compare : κ → κ → Ordering) (entry : κ × ν) (entries : List (κ × ν))
    (key : κ) :
    valueOf compare (entry :: entries) key =
      if compare entry.1 key = .eq then some entry.2 else valueOf compare entries key := by
  unfold valueOf
  rw [List.find?_cons]
  by_cases same : compare entry.1 key = .eq
  · simp only [same, decide_true, if_true, Option.map_some]
  · simp only [same, decide_false, if_false]

theorem pairsOf_cons_of_eq {pair : κ × ν} (same : compare pair.1 key = .eq) :
    pairsOf compare (pair :: pairs) key = pair :: pairsOf compare pairs key :=
  List.filter_cons_of_pos (decide_eq_true same)

theorem pairsOf_cons_of_ne {pair : κ × ν} (different : compare pair.1 key ≠ .eq) :
    pairsOf compare (pair :: pairs) key = pairsOf compare pairs key :=
  List.filter_cons_of_neg (by simpa using different)

theorem pairsOf_append :
    pairsOf compare (pairs ++ others) key =
      pairsOf compare pairs key ++ pairsOf compare others key :=
  List.filter_append pairs others

variable [Std.TransCmp compare]

/-- To one who looks for the value of a key, an inserted entry stands in front of the others. -/
theorem valueOf_insertEntry (value : ν) (entries : List (κ × ν)) (otherKey : κ) :
    valueOf compare (insertEntry compare key value entries) otherKey =
      valueOf compare ((key, value) :: entries) otherKey := by
  induction entries with
  | nil => rfl
  | cons entry entries entriesCase =>
      obtain ⟨firstKey, kept⟩ := entry
      cases order : compare key firstKey with
      | lt => rw [insertEntry_of_lt order]
      | eq =>
          rw [insertEntry_of_eq order, valueOf_cons, valueOf_cons, valueOf_cons,
            Std.TransCmp.congr_left order]
          split <;> rfl
      | gt =>
          rw [insertEntry_of_gt order, valueOf_cons, entriesCase, valueOf_cons, valueOf_cons,
            valueOf_cons]
          by_cases sameFirst : compare firstKey otherKey = .eq
          · -- the new key is above the first one, so it is not the one looked for
            rw [Std.TransCmp.congr_right sameFirst] at order
            rw [if_pos sameFirst, if_pos sameFirst, order, if_neg Ordering.noConfusion]
          · rw [if_neg sameFirst, if_neg sameFirst]

theorem isMapOf_insertAll (compare : κ → κ → Ordering) [Std.TransCmp compare]
    (pairs : List (κ × ν)) : IsMapOf compare pairs (insertAll compare [] pairs) where
  keys := by
    rw [map_fst_insertAll]
    exact isSetOf_membersOf compare (pairs.map Prod.fst)
  values key := by
    induction pairs using List.reverseRecOn with
    | nil => rfl
    | append_singleton pairs pair pairsCase =>
        rw [insertAll_append, List.reverse_concat, valueOf_cons, ← pairsCase, ← valueOf_cons]
        exact valueOf_insertEntry pair.2 _ key

/-! ### The order of insertion -/

theorem insertEntry_comm_of_lt (below : compare key otherKey = .lt) :
    insertEntry compare key value (insertEntry compare otherKey otherValue entries) =
      insertEntry compare otherKey otherValue (insertEntry compare key value entries) := by
  have above : compare otherKey key = .gt := Std.OrientedCmp.gt_of_lt below
  induction entries with
  | nil =>
      simp only [insertEntry, below, above]
  | cons entry entries entriesCase =>
      obtain ⟨firstKey, kept⟩ := entry
      cases order : compare otherKey firstKey with
      | lt =>
          have first := Std.TransCmp.lt_trans below order
          simp only [insertEntry, below, above, order, first]
      | eq =>
          have first := below
          rw [Std.TransCmp.congr_right order] at first
          simp only [insertEntry, above, order, first]
      | gt =>
          cases first : compare key firstKey with
          | lt => simp only [insertEntry, above, order, first]
          | eq => simp only [insertEntry, order, first]
          | gt => simp only [insertEntry, order, first, entriesCase]

/-- Entries with different keys can be inserted in either order. -/
theorem insertEntry_comm (different : compare key otherKey ≠ .eq) :
    insertEntry compare key value (insertEntry compare otherKey otherValue entries) =
      insertEntry compare otherKey otherValue (insertEntry compare key value entries) := by
  cases order : compare key otherKey with
  | lt => exact insertEntry_comm_of_lt order
  | eq => exact absurd order different
  | gt => exact (insertEntry_comm_of_lt (Std.OrientedCmp.lt_of_gt order)).symm

/-- An entry can be inserted in front of pairs with other keys or behind them. -/
theorem insertAll_insertEntry (different : ∀ pair ∈ pairs, compare pair.1 key ≠ .eq) :
    insertAll compare (insertEntry compare key value entries) pairs =
      insertEntry compare key value (insertAll compare entries pairs) := by
  induction pairs generalizing entries with
  | nil => rfl
  | cons pair pairs pairsCase =>
      obtain ⟨differs, others⟩ := List.forall_mem_cons.mp different
      rw [insertAll_cons, insertAll_cons, insertEntry_comm differs, pairsCase others]

theorem pairsOf_cons_self (pair : κ × ν) :
    pairsOf compare (pair :: pairs) pair.1 = pair :: pairsOf compare pairs pair.1 :=
  pairsOf_cons_of_eq Std.ReflCmp.compare_self

theorem pairsOf_eq_nil (different : ∀ pair ∈ pairs, compare pair.1 otherKey ≠ .eq)
    (same : compare otherKey key = .eq) : pairsOf compare pairs key = [] := by
  refine List.filter_eq_nil_iff.mpr fun pair member => ?_
  rw [← Std.TransCmp.congr_right same, decide_eq_true_iff]
  exact different pair member

/-- A pair can be taken out of two lists, at the first place where its key occurs, without a change
of the order of the pairs of any key. -/
theorem pairsOf_eq_of_cons {pair : κ × ν} {before after : List (κ × ν)}
    (different : ∀ earlier ∈ before, compare earlier.1 pair.1 ≠ .eq)
    (order : pairsOf compare (pair :: pairs) key = pairsOf compare (before ++ pair :: after) key) :
    pairsOf compare pairs key = pairsOf compare (before ++ after) key := by
  rw [pairsOf_append] at order ⊢
  by_cases same : compare pair.1 key = .eq
  · rw [pairsOf_cons_of_eq same, pairsOf_cons_of_eq same, pairsOf_eq_nil different same] at order
    rw [pairsOf_eq_nil different same]
    exact (List.cons.inj order).2
  · rw [pairsOf_cons_of_ne same, pairsOf_cons_of_ne same] at order
    exact order

/-- Two pairs with different keys can change places. -/
theorem Rearranged.swap {pair other : κ × ν} (different : compare pair.1 other.1 ≠ .eq) :
    Rearranged compare (pair :: other :: pairs) (other :: pair :: pairs) where
  perm := List.Perm.swap other pair pairs
  order key := by
    by_cases same : compare pair.1 key = .eq
    · have differs : compare other.1 key ≠ .eq := by
        rw [← Std.TransCmp.congr_right same]
        exact fun equal => different (Std.OrientedCmp.eq_symm equal)
      rw [pairsOf_cons_of_eq same, pairsOf_cons_of_ne differs, pairsOf_cons_of_ne differs,
        pairsOf_cons_of_eq same]
    · rw [pairsOf_cons_of_ne same]
      by_cases sameOther : compare other.1 key = .eq
      · rw [pairsOf_cons_of_eq sameOther, pairsOf_cons_of_eq sameOther, pairsOf_cons_of_ne same]
      · rw [pairsOf_cons_of_ne sameOther, pairsOf_cons_of_ne sameOther, pairsOf_cons_of_ne same]

/-- What a list of pairs adds depends only on the order of the pairs of each key. -/
theorem insertAll_eq_of_pairsOf_eq
    (order : ∀ key, pairsOf compare pairs key = pairsOf compare others key) :
    insertAll compare entries pairs = insertAll compare entries others := by
  induction pairs generalizing entries others with
  | nil =>
      cases others with
      | nil => rfl
      | cons other others =>
          have absent := order other.1
          rw [pairsOf_cons_self] at absent
          cases absent
  | cons pair pairs pairsCase =>
      have found := order pair.1
      rw [pairsOf_cons_self] at found
      obtain ⟨before, after, rfl, differ, -, -⟩ := List.filter_eq_cons_iff.mp found.symm
      have different : ∀ earlier ∈ before, compare earlier.1 pair.1 ≠ .eq := by
        simpa only [decide_eq_true_iff] using differ
      calc
        insertAll compare entries (pair :: pairs)
          = insertAll compare (insertEntry compare pair.1 pair.2 entries) (before ++ after) :=
            pairsCase fun key => pairsOf_eq_of_cons different (order key)
        _ = insertAll compare (insertEntry compare pair.1 pair.2 (insertAll compare entries before))
              after := by rw [insertAll_append, insertAll_insertEntry different]
        _ = insertAll compare entries (before ++ pair :: after) := by
            rw [insertAll_append, insertAll_cons]

end Maps

end SortedList

namespace Collector

open SortedList

variable {m : Type → Type} [Monad m] {α β ν : Type}

/-- A collector that has accepted a first value, or none. -/
def seeded (collector : Collector m α β) : Option α → Collector m α β
  | none => collector
  | some initial => collector.accept initial

theorem fold_toSet [LawfulMonad m] (compare : α → α → Ordering) (values : List α) :
    (toSet compare : Collector m α (List α)).fold values = pure (membersOf compare values) :=
  fold_ofFold [] (fun members value => insertMember compare value members) id values

theorem fold_toMap [LawfulMonad m] (compare : α → α → Ordering) (pairs : List (α × ν)) :
    (toMap compare : Collector m (α × ν) (List (α × ν))).fold pairs =
      pure (insertAll compare [] pairs) :=
  fold_ofFold [] (fun entries (pair : α × ν) => insertEntry compare pair.1 pair.2 entries) id pairs

theorem fold_seeded [LawfulMonad m] (collector : Collector m α β) (seed : Option α)
    (values : List α) :
    (collector.seeded seed).fold values = collector.fold (seed.toList ++ values) := by
  cases seed with
  | none => rfl
  | some initial => exact fold_accept collector initial values

/-- The map collector comes to a map with the keys of the pairs, each one once, and the value of the
last pair of each key; the map is the same for all orders of the pairs in which the pairs of each
key keep their order.  The set collector comes to the set of the values, each one once; for another
order of the values it comes to a set with the same values in the same places, which is the same
list when only equal values compare as equal.  An accepted value counts as the first one. -/
theorem sortedCollections_exact [LawfulMonad m] (compare : α → α → Ordering)
    [Std.TransCmp compare] :
    (∀ (seed : Option (α × ν)) (pairs : List (α × ν)), ∃ entries,
      ((toMap compare : Collector m (α × ν) (List (α × ν))).seeded seed).fold pairs =
          pure entries ∧
        IsMapOf compare (seed.toList ++ pairs) entries ∧
        ∀ (otherSeed : Option (α × ν)) (others : List (α × ν)),
          Rearranged compare (seed.toList ++ pairs) (otherSeed.toList ++ others) →
          ((toMap compare : Collector m (α × ν) (List (α × ν))).seeded otherSeed).fold others =
            pure entries) ∧
    ∀ (seed : Option α) (values : List α), ∃ members,
      ((toSet compare : Collector m α (List α)).seeded seed).fold values = pure members ∧
        IsSetOf compare (seed.toList ++ values) members ∧
        ∀ (otherSeed : Option α) (others : List α),
          (seed.toList ++ values).Perm (otherSeed.toList ++ others) →
          ∃ otherMembers,
            ((toSet compare : Collector m α (List α)).seeded otherSeed).fold others =
                pure otherMembers ∧
              List.Forall₂ (fun member other => compare member other = .eq) members
                otherMembers ∧
              (Std.LawfulEqCmp compare → otherMembers = members) := by
  constructor
  · intro seed pairs
    refine ⟨insertAll compare [] (seed.toList ++ pairs), ?_, isMapOf_insertAll compare _, ?_⟩
    · rw [fold_seeded, fold_toMap]
    · intro otherSeed others rearranged
      rw [fold_seeded, fold_toMap, insertAll_eq_of_pairsOf_eq rearranged.order]
  · intro seed values
    refine ⟨membersOf compare (seed.toList ++ values), ?_, isSetOf_membersOf compare _, ?_⟩
    · rw [fold_seeded, fold_toSet]
    · intro otherSeed others perm
      have same := (isSetOf_membersOf compare _).forall₂ (isSetOf_membersOf compare _) perm
      refine ⟨membersOf compare (otherSeed.toList ++ others), ?_, same, fun lawful => ?_⟩
      · rw [fold_seeded, fold_toSet]
      · have equal := same.imp fun _ _ => Std.LawfulEqCmp.eq_of_compare
        exact (List.forall₂_eq_eq_eq ▸ equal).symm

/-- A map that starts from an accepted pair, and a set of three values with one of them twice. -/
theorem sortedCollections_exact_values :
    ((toMap Value.compare : Collector Id (Value × Value) (List (Value × Value))).seeded
        (some (.char 'b', .int 1))).fold [(.char 'a', .int 2), (.char 'b', .int 3)] =
        [(.char 'a', .int 2), (.char 'b', .int 3)] ∧
      (toMap Value.compare : Collector Id (Value × Value) (List (Value × Value))).fold
          [(.char 'a', .int 2), (.char 'b', .int 1), (.char 'b', .int 3)] =
        [(.char 'a', .int 2), (.char 'b', .int 3)] ∧
      ((toSet Value.compare : Collector Id Value (List Value)).seeded (some (.char 'b'))).fold
          [.char 'a', .char 'b', .unit] = [.unit, .char 'a', .char 'b'] ∧
      (toSet Value.compare : Collector Id Value (List Value)).fold
          [.char 'a', .char 'b', .char 'b', .unit] = [.unit, .char 'a', .char 'b'] := by
  obtain ⟨maps, sets⟩ := sortedCollections_exact (m := Id) (ν := Value) Value.compare
  obtain ⟨entries, isMap, -, rearranged⟩ :=
    maps (some (.char 'b', .int 1)) [(.char 'a', .int 2), (.char 'b', .int 3)]
  obtain ⟨members, isSet, -, permuted⟩ := sets (some (.char 'b')) [.char 'a', .char 'b', .unit]
  refine ⟨rfl, (rearranged none _ (Rearranged.swap (by decide))).trans isMap.symm, rfl, ?_⟩
  obtain ⟨otherMembers, isOtherSet, -, equal⟩ :=
    permuted none [.char 'a', .char 'b', .char 'b', .unit] (List.Perm.swap _ _ _)
  rw [equal inferInstance] at isOtherSet
  exact isOtherSet.trans isSet.symm

end Collector

end RecursiveDescent
