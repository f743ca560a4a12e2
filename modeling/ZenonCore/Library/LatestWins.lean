import Mathlib.Order.Lattice

/-!
# Registers in which the latest entry wins

A register follows a history if every other entry is older than the one it holds, or agrees
with it.
-/

namespace ZenonCore.Library.LatestWins

open List

variable {β τ ν : Type*} [LinearOrder τ] (stamp : β → τ) (value : β → ν)

/-- `entry` is not newer than `current`, and if it is as new it says the same. -/
def Superseded (entry current : β) : Prop :=
  stamp entry < stamp current ∨ stamp entry = stamp current ∧ value entry = value current

def Follows (history : List β) : Option β → Prop
  | none => history = []
  | some current => current ∈ history ∧ ∀ entry ∈ history, Superseded stamp value entry current

theorem superseded_refl (entry : β) : Superseded stamp value entry entry := Or.inr ⟨rfl, rfl⟩

theorem Superseded.trans {first second third : β} (left : Superseded stamp value first second)
    (right : Superseded stamp value second third) : Superseded stamp value first third := by
  obtain older | ⟨sameStamp, sameValue⟩ := left
  · obtain earlier | ⟨stamps, _⟩ := right
    · exact Or.inl (lt_trans older earlier)
    · exact Or.inl (stamps ▸ older)
  · unfold Superseded
    rw [sameStamp, sameValue]
    exact right

theorem Follows.keep {history : List β} {current entry : β}
    (follows : Follows stamp value history (some current))
    (superseded : Superseded stamp value entry current) :
    Follows stamp value (history ++ [entry]) (some current) := by
  refine ⟨mem_append_left _ follows.1, fun other member => ?_⟩
  obtain old | new := mem_append.mp member
  · exact follows.2 other old
  · rw [mem_singleton.mp new]
    exact superseded

theorem Follows.take {history : List β} {register : Option β} {entry : β}
    (follows : Follows stamp value history register)
    (supersedes : ∀ current, register = some current → Superseded stamp value current entry) :
    Follows stamp value (history ++ [entry]) (some entry) := by
  refine ⟨mem_append_right _ (mem_singleton.mpr rfl), fun other member => ?_⟩
  obtain old | new := mem_append.mp member
  · cases register with
    | none =>
      rw [follows] at old
      exact absurd old not_mem_nil
    | some current => exact (follows.2 other old).trans stamp value (supersedes current rfl)
  · rw [mem_singleton.mp new]
    exact superseded_refl stamp value entry

theorem Follows.agree {first second : List β} {left right : Option β}
    (leftFollows : Follows stamp value first left)
    (rightFollows : Follows stamp value second right)
    (same : ∀ entry, entry ∈ first ↔ entry ∈ second) : left.map value = right.map value := by
  cases left with
  | none =>
    cases right with
    | none => rfl
    | some current =>
      have member := (same current).mpr rightFollows.1
      rw [leftFollows] at member
      exact absurd member not_mem_nil
  | some current =>
    cases right with
    | none =>
      have member := (same current).mp leftFollows.1
      rw [rightFollows] at member
      exact absurd member not_mem_nil
    | some other =>
      have onward := rightFollows.2 current ((same current).mp leftFollows.1)
      have back := leftFollows.2 other ((same other).mpr rightFollows.1)
      obtain older | ⟨_, sameValue⟩ := onward
      · obtain newer | ⟨stamps, _⟩ := back
        · exact absurd older (lt_asymm newer)
        · exact absurd stamps (ne_of_gt older)
      · exact congrArg some sameValue

end ZenonCore.Library.LatestWins
