import Mathlib.Data.List.Basic
import Mathlib.Data.List.Nodup

/-!
# Lists whose elements keep their address

`std::list` with its iterators: an address that no other node has or had, good until its node
is erased.
-/

namespace ZenonCore.Library.LinkedList

open List

structure StdList (α : Type) where
  nodes : List (Nat × α)
  nextAddress : Nat
  allocated : ∀ node ∈ nodes, node.1 < nextAddress
  distinct : (nodes.map Prod.fst).Nodup

namespace StdList

variable {α : Type}

def empty : StdList α where
  nodes := []
  nextAddress := 0
  allocated := by
    intro node there
    cases there
  distinct := List.nodup_nil

def values (list : StdList α) : List α := list.nodes.map Prod.snd

def length (list : StdList α) : Nat := list.nodes.length

/-- The element that an iterator is at; a stale iterator has none. -/
def deref (list : StdList α) (iterator : Nat) : Option α :=
  (list.nodes.find? fun node => node.1 == iterator).map Prod.snd

/-- `insert` at the end, whose result is an iterator at the new element. -/
def pushBack (list : StdList α) (value : α) : StdList α where
  nodes := list.nodes ++ [(list.nextAddress, value)]
  nextAddress := list.nextAddress + 1
  allocated := by
    intro node there
    obtain before | new := List.mem_append.mp there
    · exact Nat.lt_succ_of_lt (list.allocated node before)
    · rw [List.mem_singleton.mp new]
      exact Nat.lt_succ_self _
  distinct := by
    rw [List.map_append, List.map_singleton, List.nodup_append]
    refine ⟨list.distinct, List.nodup_singleton _, ?_⟩
    intro address before other new same
    obtain ⟨node, there, named⟩ := List.mem_map.mp before
    have less := list.allocated node there
    rw [List.mem_singleton.mp new] at same
    omega

def erase (list : StdList α) (iterator : Nat) : StdList α where
  nodes := list.nodes.eraseP fun node => node.1 == iterator
  nextAddress := list.nextAddress
  allocated := by
    intro node there
    exact list.allocated node (List.mem_of_mem_eraseP there)
  distinct := list.distinct.sublist (List.Sublist.map Prod.fst List.eraseP_sublist)

variable (list : StdList α)

variable (iterator : Nat) (value : α)

theorem deref_iff :
    list.deref iterator = some value ↔ (iterator, value) ∈ list.nodes := by
  unfold deref
  constructor
  · intro found
    obtain ⟨node, first, element⟩ := Option.map_eq_some_iff.mp found
    have address : node.1 = iterator := by simpa using find?_some first
    rw [← address, ← element]
    exact mem_of_find?_eq_some first
  · intro there
    cases first : list.nodes.find? fun node => node.1 == iterator with
    | none => simpa using find?_eq_none.mp first (iterator, value) there
    | some node =>
      have address : node.1 = iterator := by simpa using find?_some first
      have same := inj_on_of_nodup_map list.distinct (mem_of_find?_eq_some first) there
        address
      rw [same]
      rfl

theorem mem_values (value : α) :
    value ∈ list.values ↔ ∃ iterator, list.deref iterator = some value := by
  unfold values
  constructor
  · intro there
    obtain ⟨node, inNodes, element⟩ := mem_map.mp there
    refine ⟨node.1, (deref_iff list node.1 value).mpr ?_⟩
    rw [← element]
    exact inNodes
  · rintro ⟨iterator, found⟩
    exact mem_map.mpr ⟨_, (deref_iff list iterator value).mp found, rfl⟩

theorem deref_pushBack (value element : α) (iterator : Nat) :
    (list.pushBack value).deref iterator = some element ↔
      list.deref iterator = some element ∨ iterator = list.nextAddress ∧ element = value := by
  rw [deref_iff, deref_iff]
  unfold pushBack
  dsimp only
  rw [mem_append, mem_singleton, Prod.mk.injEq]

theorem not_mem_erase :
    (iterator, value) ∉ (list.erase iterator).nodes := by
  intro there
  have before : (iterator, value) ∈ list.nodes := mem_of_mem_eraseP there
  have atIterator : ((iterator, value).1 == iterator) = true := beq_self_eq_true iterator
  rcases exists_of_eraseP (p := fun node : Nat × α => node.1 == iterator) before atIterator with
    ⟨node, front, back, _, erased, whole, rest⟩
  have distinct := list.distinct
  unfold erase at there
  dsimp only at there
  rw [rest] at there
  rw [whole, map_append, map_cons, nodup_middle, ← map_append] at distinct
  apply (nodup_cons.mp distinct).1
  rw [beq_iff_eq.mp erased]
  exact mem_map.mpr ⟨_, there, rfl⟩

theorem deref_erase (element : α) (iterator erased : Nat) :
    (list.erase erased).deref iterator = some element ↔
      list.deref iterator = some element ∧ iterator ≠ erased := by
  rw [deref_iff, deref_iff]
  by_cases same : iterator = erased
  · rw [same]
    constructor
    · intro there
      exact absurd there (not_mem_erase list erased element)
    · rintro ⟨_, apart⟩
      exact absurd rfl apart
  · unfold erase
    dsimp only
    rw [mem_eraseP_of_neg (by simpa using same)]
    exact (and_iff_left same).symm

theorem length_pushBack (value : α) :
    (list.pushBack value).length = list.length + 1 := by
  unfold length pushBack
  rw [length_append, length_singleton]

theorem length_erase (found : list.deref iterator = some value) :
    (list.erase iterator).length + 1 = list.length := by
  have there := (deref_iff list iterator value).mp found
  unfold length erase
  exact length_eraseP_add_one there (beq_self_eq_true iterator)

end StdList

end ZenonCore.Library.LinkedList
