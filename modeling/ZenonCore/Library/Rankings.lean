import Mathlib.Data.List.Sort

/-!
# Sorting by a key

Where no two items share a key the sorted list is the same for every order of the input;
otherwise a stable sort shows that order.
-/

namespace ZenonCore.Library.Rankings

open List

universe u

variable {α : Type u} (key : α → Nat)

structure SortsDown (sort : List α → List α) : Prop where
  perm : ∀ items, (sort items).Perm items
  descending : ∀ items, (sort items).Pairwise fun first second => key second ≤ key first

def sortDown (items : List α) : List α :=
  items.insertionSort fun first second => key second ≤ key first

theorem sortDown_sorts : SortsDown key (sortDown key) := by
  have total : Std.Total fun first second : α => key second ≤ key first :=
    ⟨fun first second => Nat.le_total (key second) (key first)⟩
  have transitive : IsTrans α fun first second : α => key second ≤ key first :=
    ⟨fun _ _ _ left right => Nat.le_trans right left⟩
  exact
    { perm := fun items => perm_insertionSort _ items
      descending := fun items => pairwise_insertionSort _ items }

variable {key}

/-- What is read of the sorted items is the same for every order of the list,
if it is the same for items of one key. -/
theorem SortsDown.map_unique {β : Type*} {sort : List α → List α} (sorts : SortsDown key sort)
    (read : α → β) (items others : List α) (perm : others.Perm items)
    (apart : ∀ first ∈ items, ∀ second ∈ items, key first = key second →
      read first = read second) :
    (sort others).map read = (sort items).map read := by
  have same : (sort others).Perm (sort items) :=
    (sorts.perm others).trans (perm.trans (sorts.perm items).symm)
  have keyed : ((sort others).map fun item => (key item, read item)) =
      (sort items).map fun item => (key item, read item) := by
    have ordered : ∀ list, ((sort list).map fun item => (key item, read item)).Pairwise
        fun first second => second.1 ≤ first.1 :=
      fun list => pairwise_map.mpr (sorts.descending list)
    refine (same.map _).eq_of_pairwise ?_ (ordered others) (ordered items)
    intro first second firstIn secondIn le ge
    obtain ⟨own, ownIn, isFirst⟩ := mem_map.mp firstIn
    obtain ⟨other, otherIn, isSecond⟩ := mem_map.mp secondIn
    have ownItem := perm.mem_iff.mp ((sorts.perm others).mem_iff.mp ownIn)
    have otherItem := (sorts.perm items).mem_iff.mp otherIn
    rw [← isFirst, ← isSecond] at le ge ⊢
    have tied : key own = key other := Nat.le_antisymm ge le
    rw [tied, apart own ownItem other otherItem tied]
  have second := congrArg (map Prod.snd) keyed
  rw [map_map, map_map] at second
  exact second

theorem descending_split (items : List α)
    (descending : items.Pairwise fun first second => key second ≤ key first) (middle : Nat) :
    items = (items.filter fun item => decide (middle < key item)) ++
      ((items.filter fun item => decide (key item = middle)) ++
        items.filter fun item => decide (key item < middle)) := by
  induction items with
  | nil => rfl
  | cons first rest ih =>
    obtain ⟨head, tail⟩ := pairwise_cons.mp descending
    have split := ih tail
    obtain above | equal | below := Nat.lt_trichotomy middle (key first)
    · rw [filter_cons_of_pos (by simpa using above),
        filter_cons_of_neg (by simp; omega), filter_cons_of_neg (by simp; omega),
        cons_append]
      exact congrArg (cons first) split
    · have none : (rest.filter fun item => decide (middle < key item)) = [] := by
        apply filter_eq_nil_iff.mpr
        intro item member more
        have bound := head item member
        have higher := of_decide_eq_true more
        omega
      rw [none, nil_append] at split
      rw [filter_cons_of_neg (by simp; omega), none, nil_append,
        filter_cons_of_pos (by simp; omega), filter_cons_of_neg (by simp; omega),
        cons_append]
      exact congrArg (cons first) split
    · have low : ∀ item ∈ rest, key item < middle := by
        intro item member
        exact Nat.lt_of_le_of_lt (head item member) below
      have none : (rest.filter fun item => decide (middle < key item)) = [] := by
        apply filter_eq_nil_iff.mpr
        intro item member more
        have bound := low item member
        have higher := of_decide_eq_true more
        omega
      have noneEqual : (rest.filter fun item => decide (key item = middle)) = [] := by
        apply filter_eq_nil_iff.mpr
        intro item member same
        have bound := low item member
        have equal := of_decide_eq_true same
        omega
      rw [none, noneEqual, nil_append, nil_append] at split
      rw [filter_cons_of_neg (by simp; omega), none, nil_append,
        filter_cons_of_neg (by simp; omega), noneEqual, nil_append,
        filter_cons_of_pos (by simpa using below)]
      exact congrArg (cons first) split

theorem filter_sortDown (items : List α) (middle : Nat) :
    ((sortDown key items).filter fun item => decide (key item = middle)) =
      items.filter fun item => decide (key item = middle) := by
  have equalKeys : (items.filter fun item => decide (key item = middle)).Pairwise
      fun first second => key second ≤ key first := by
    apply pairwise_of_forall_mem_list
    intro first firstIn second secondIn
    have left := of_decide_eq_true (mem_filter.mp firstIn).2
    have right := of_decide_eq_true (mem_filter.mp secondIn).2
    omega
  have inOrder : (items.filter fun item => decide (key item = middle)).Sublist
      (sortDown key items) :=
    sublist_insertionSort equalKeys filter_sublist
  have kept : (items.filter fun item => decide (key item = middle)).Sublist
      ((sortDown key items).filter fun item => decide (key item = middle)) := by
    have filtered := inOrder.filter fun item => decide (key item = middle)
    rw [filter_filter] at filtered
    simp only [Bool.and_self] at filtered
    exact filtered
  have perm := ((sortDown_sorts key).perm items).filter fun item => decide (key item = middle)
  exact (kept.eq_of_length perm.length_eq.symm).symm

variable (key)

/-- The stable sort puts what has a key behind what is above it, in the order
of the input. -/
theorem sortDown_split (items : List α) (middle : Nat) :
    ∃ above below, sortDown key items =
        above ++ ((items.filter fun item => decide (key item = middle)) ++ below) ∧
      (∀ item ∈ above, middle < key item) ∧
      above.length = (items.filter fun item => decide (middle < key item)).length := by
  refine ⟨(sortDown key items).filter fun item => decide (middle < key item),
    (sortDown key items).filter fun item => decide (key item < middle), ?_, ?_, ?_⟩
  · rw [← filter_sortDown]
    exact descending_split _ ((sortDown_sorts key).descending items) middle
  · intro item member
    exact of_decide_eq_true (mem_filter.mp member).2
  · exact (((sortDown_sorts key).perm items).filter _).length_eq

theorem two_first [DecidableEq α] (items : List α) (first second : α) (firstIn : first ∈ items)
    (secondIn : second ∈ items) (apart : first ≠ second) :
    ∃ rest, (first :: second :: rest).Perm items ∧ (second :: first :: rest).Perm items := by
  have left : second ∈ items.erase first := (mem_erase_of_ne apart.symm).mpr secondIn
  have perm : (first :: second :: (items.erase first).erase second).Perm items :=
    ((perm_cons_erase left).symm.cons first).trans (perm_cons_erase firstIn).symm
  exact ⟨_, perm, (List.Perm.swap first second _).trans perm⟩

theorem sortDown_tied (first second : α) (rest : List α) (tied : key first = key second) :
    ∃ above behind, sortDown key (first :: second :: rest) =
        above ++ first :: second :: behind ∧
      (∀ item ∈ above, key first < key item) ∧
      above.length = (rest.filter fun item => decide (key first < key item)).length := by
  rcases sortDown_split key (first :: second :: rest) (key first) with
    ⟨above, below, split, higher, count⟩
  rw [filter_cons_of_pos (by simp), filter_cons_of_pos (by simp [tied])] at split
  rw [filter_cons_of_neg (by simp), filter_cons_of_neg (by simp [tied])] at count
  exact ⟨above, _, split, higher, count⟩

end ZenonCore.Library.Rankings
