import Mathlib.Data.List.Nodup
import Mathlib.Logic.Function.Basic

/-!
# Counting the slots of a table

A table is a function on slots; a write changes the counts of the value it removes and of the
one it enters.
-/

namespace ZenonCore.Library.SlotCounts

open List

variable {ι β : Type}

section Counts

variable [DecidableEq β]

def holding (slots : List ι) (table : ι → β) (value : β) : Nat :=
  slots.countP fun slot => decide (table slot = value)

variable (slots : List ι) (table : ι → β)

theorem holding_pos (slot : ι) (inside : slot ∈ slots) :
    0 < holding slots table (table slot) := by
  unfold holding
  rw [countP_pos_iff]
  exact ⟨slot, inside, decide_eq_true rfl⟩

theorem holding_eq_zero (value : β)
    (nowhere : ∀ slot ∈ slots, table slot ≠ value) : holding slots table value = 0 := by
  unfold holding
  rw [countP_eq_zero]
  intro slot inside holds
  exact nowhere slot inside (of_decide_eq_true holds)

theorem holding_congr (slots : List ι) (first second : ι → β) (value : β)
    (same : ∀ slot ∈ slots, first slot = value ↔ second slot = value) :
    holding slots first value = holding slots second value := by
  unfold holding
  apply countP_congr
  intro slot inside
  rw [decide_eq_true_eq, decide_eq_true_eq]
  exact same slot inside

theorem holding_append_one (slots : List ι) (slot : ι) (table : ι → β) (value : β) :
    holding (slots ++ [slot]) table value =
      holding slots table value + if table slot = value then 1 else 0 := by
  simp [holding, countP_append, countP_cons]

end Counts

section Writes

variable [DecidableEq ι]

theorem countP_update (slots : List ι) (distinct : slots.Nodup) (table : ι → β) (slot : ι)
    (inside : slot ∈ slots) (value : β) (test : β → Bool) :
    (slots.countP fun other => test (Function.update table slot value other)) +
        (if test (table slot) = true then 1 else 0) =
      (slots.countP fun other => test (table other)) + (if test value = true then 1 else 0) := by
  induction slots with
  | nil => cases inside
  | cons first rest ih =>
    obtain ⟨notLater, others⟩ := nodup_cons.mp distinct
    rw [countP_cons, countP_cons]
    by_cases here : slot = first
    · have same : (rest.countP fun other => test (Function.update table slot value other)) =
          rest.countP fun other => test (table other) := by
        apply countP_congr
        intro other member
        have differs : other ≠ slot := fun equal => notLater (here ▸ equal ▸ member)
        rw [Function.update_of_ne differs]
      rw [same, ← here, Function.update_self]
      omega
    · have later : slot ∈ rest := by
        obtain same | member := mem_cons.mp inside
        · exact absurd same here
        · exact member
      have counted := ih others later
      rw [Function.update_of_ne (Ne.symm here)]
      omega

variable [DecidableEq β]

theorem holding_update (slots : List ι) (distinct : slots.Nodup) (table : ι → β) (slot : ι)
    (inside : slot ∈ slots) (entered value : β) :
    holding slots (Function.update table slot entered) value +
        (if table slot = value then 1 else 0) =
      holding slots table value + (if entered = value then 1 else 0) := by
  have counted := countP_update slots distinct table slot inside entered
    fun held => decide (held = value)
  simp only [decide_eq_true_eq] at counted
  exact counted

end Writes

end ZenonCore.Library.SlotCounts
