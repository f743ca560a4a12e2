import Mathlib.Data.List.Perm.Basic

/-!
# Heaps

Taking from a heap gives one of its largest elements and leaves the others; which one is left
open.
-/

namespace ZenonCore.Heaps

universe u

variable {α : Type u}

structure WeakOrder (less : α → α → Bool) : Prop where
  asymm : ∀ first second, less first second = true → less second first = false
  trans : ∀ first second third, less first second = false → less second third = false →
    less first third = false

/-- A way to keep heaps, by the comparison each of them is made with. -/
structure Heap (α : Type u) where
  pop : (α → α → Bool) → List α → Option (α × List α)
  pops : ∀ less list, list ≠ [] → (pop less list).isSome = true
  takes : ∀ less list top rest, pop less list = some (top, rest) → list.Perm (top :: rest)
  largest : ∀ less list top rest, WeakOrder less → pop less list = some (top, rest) →
    ∀ other ∈ rest, less top other = false

/-- The heap that keeps a list as it is and gives the first of the largest. -/
def popFirst (less : α → α → Bool) : List α → Option (α × List α)
  | [] => none
  | first :: others =>
    match popFirst less others with
    | none => some (first, [])
    | some (top, rest) =>
      if less first top then some (top, first :: rest) else some (first, top :: rest)

variable (less : α → α → Bool)

theorem popFirst_eq_none (list : List α) :
    popFirst less list = none ↔ list = [] := by
  cases list with
  | nil => exact iff_of_true rfl rfl
  | cons first others =>
    apply iff_of_false
    · rw [popFirst]
      split
      · exact Option.some_ne_none _
      · split
        · exact Option.some_ne_none _
        · exact Option.some_ne_none _
    · exact List.cons_ne_nil _ _

theorem popFirst_cons (first top : α) (others rest : List α)
    (popped : popFirst less (first :: others) = some (top, rest)) :
    others = [] ∧ top = first ∧ rest = [] ∨
      ∃ largest left, popFirst less others = some (largest, left) ∧
        (less first largest = true ∧ top = largest ∧ rest = first :: left ∨
          less first largest = false ∧ top = first ∧ rest = largest :: left) := by
  rw [popFirst] at popped
  split at popped
  · rename_i none
    cases popped
    exact Or.inl ⟨(popFirst_eq_none less others).mp none, rfl, rfl⟩
  · rename_i largest left found
    right
    split_ifs at popped with smaller
    · cases popped
      exact ⟨top, left, found, Or.inl ⟨smaller, rfl, rfl⟩⟩
    · cases popped
      exact ⟨largest, left, found, Or.inr ⟨Bool.eq_false_iff.mpr smaller, rfl, rfl⟩⟩

theorem popFirst_perm (list : List α) (top : α) (rest : List α)
    (popped : popFirst less list = some (top, rest)) : list.Perm (top :: rest) := by
  induction list generalizing top rest with
  | nil => cases popped
  | cons first others ih =>
    rcases popFirst_cons less first top others rest popped with
      ⟨none, isTop, isRest⟩ | ⟨largest, left, found, ⟨_, isTop, isRest⟩ | ⟨_, isTop, isRest⟩⟩
    · rw [none, isTop, isRest]
    · rw [isTop, isRest]
      exact ((ih largest left found).cons first).trans (List.Perm.swap _ _ _)
    · rw [isTop, isRest]
      exact (ih largest left found).cons first

theorem popFirst_largest (order : WeakOrder less) (list : List α) (top : α)
    (rest : List α) (popped : popFirst less list = some (top, rest)) :
    ∀ other ∈ rest, less top other = false := by
  induction list generalizing top rest with
  | nil => cases popped
  | cons first others ih =>
    intro other member
    rcases popFirst_cons less first top others rest popped with
      ⟨_, _, isRest⟩ | ⟨largest, left, found, ⟨smaller, isTop, isRest⟩ | ⟨larger, isTop, isRest⟩⟩
    · rw [isRest] at member
      exact absurd member List.not_mem_nil
    · rw [isRest] at member
      rw [isTop]
      obtain here | later := List.mem_cons.mp member
      · rw [here]
        exact order.asymm first largest smaller
      · exact ih largest left found other later
    · rw [isRest] at member
      rw [isTop]
      obtain here | later := List.mem_cons.mp member
      · rw [here]
        exact larger
      · exact order.trans first largest other larger (ih largest left found other later)

def firstLargest (α : Type u) : Heap α where
  pop := popFirst
  pops := by
    intro less list nonempty
    rw [Option.isSome_iff_ne_none]
    exact fun none => nonempty ((popFirst_eq_none less list).mp none)
  takes := popFirst_perm
  largest := fun less list top rest order => popFirst_largest less order list top rest

end ZenonCore.Heaps
