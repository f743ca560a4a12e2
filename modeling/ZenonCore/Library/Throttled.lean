import Mathlib.Algebra.Order.Group.Defs
import Mathlib.Data.Finset.Max

/-!
# Registers that keep new entries out for a while

An entry is taken only if its stamp is at least `pause` after that of the one held.
-/

namespace ZenonCore.Library.Throttled

open List

variable {β τ : Type*} [AddCommGroup τ] [LinearOrder τ] (stamp : β → τ) (pause : τ)

def update (register : Option β) (entry : β) : Option β :=
  if register.any fun current => decide (stamp entry < stamp current + pause) then register
  else some entry

/-- The register holds one of the entries, and none of them could replace it. -/
def Settled (history : List β) : Option β → Prop
  | none => history = []
  | some current => current ∈ history ∧ ∀ entry ∈ history, stamp entry < stamp current + pause

def Ahead (entries : β → Prop) : Prop :=
  ∀ some, entries some →
    ∃ latest, entries latest ∧
      ∀ entry, entries entry → entry = latest ∨ stamp entry + pause ≤ stamp latest

theorem update_empty (entry : β) : update stamp pause none entry = some entry := rfl

theorem update_late (current entry : β) (late : stamp current + pause ≤ stamp entry) :
    update stamp pause (some current) entry = some entry := by
  unfold update
  simp [late]

theorem update_soon (current entry : β) (soon : stamp entry < stamp current + pause) :
    update stamp pause (some current) entry = some current := by
  unfold update
  simp [soon]

theorem foldl_soon (current : β) (entries : List β)
    (soon : ∀ entry ∈ entries, stamp entry < stamp current + pause) :
    entries.foldl (update stamp pause) (some current) = some current := by
  induction entries with
  | nil => rfl
  | cons first rest ih =>
    rw [foldl_cons, update_soon stamp pause current first (soon first mem_cons_self)]
    exact ih fun entry member => soon entry (mem_cons_of_mem _ member)

section Settling

variable [IsOrderedAddMonoid τ] (positive : 0 < pause)
include positive

theorem Settled.update {history : List β} {register : Option β}
    (settled : Settled stamp pause history register) (entry : β) :
    Settled stamp pause (history ++ [entry]) (update stamp pause register entry) := by
  cases register with
  | none =>
    rw [update_empty]
    refine ⟨mem_append_right _ (mem_singleton.mpr rfl), fun other member => ?_⟩
    have empty : history = [] := settled
    rw [empty, nil_append] at member
    rw [mem_singleton.mp member]
    exact lt_add_of_pos_right _ positive
  | some current =>
    by_cases late : stamp current + pause ≤ stamp entry
    · rw [update_late stamp pause current entry late]
      refine ⟨mem_append_right _ (mem_singleton.mpr rfl), fun other member => ?_⟩
      obtain old | new := mem_append.mp member
      · have before : stamp other < stamp entry := lt_of_lt_of_le (settled.2 other old) late
        exact lt_trans before (lt_add_of_pos_right _ positive)
      · rw [mem_singleton.mp new]
        exact lt_add_of_pos_right _ positive
    · have soon : stamp entry < stamp current + pause := not_le.mp late
      rw [update_soon stamp pause current entry soon]
      refine ⟨mem_append_left _ settled.1, fun other member => ?_⟩
      obtain old | new := mem_append.mp member
      · exact settled.2 other old
      · rw [mem_singleton.mp new]
        exact soon

theorem settled_foldl (history : List β) :
    Settled stamp pause history (history.foldl (Throttled.update stamp pause) none) := by
  induction history using reverseRecOn with
  | nil => rfl
  | append_singleton history entry ih =>
    rw [foldl_append]
    exact ih.update stamp pause positive entry

theorem update_again (history : List β) (entry : β) (member : entry ∈ history) :
    Throttled.update stamp pause (history.foldl (Throttled.update stamp pause) none) entry =
      history.foldl (Throttled.update stamp pause) none := by
  have settled := settled_foldl stamp pause positive history
  cases register : history.foldl (Throttled.update stamp pause) none with
  | none =>
    rw [register] at settled
    have empty : history = [] := settled
    rw [empty] at member
    exact absurd member not_mem_nil
  | some current =>
    rw [register] at settled
    exact update_soon stamp pause current entry (settled.2 entry member)

end Settling

theorem Settled.latest {history : List β} {current latest : β}
    (settled : Settled stamp pause history (some current)) (member : latest ∈ history)
    (ahead : current = latest ∨ stamp current + pause ≤ stamp latest) : current = latest := by
  obtain same | late := ahead
  · exact same
  · exact absurd (settled.2 latest member) (not_lt.mpr late)

theorem Settled.agree {entries : β → Prop} (ahead : Ahead stamp pause entries)
    {left right : List β} {leftRegister rightRegister : Option β}
    (leftSettled : Settled stamp pause left leftRegister)
    (rightSettled : Settled stamp pause right rightRegister)
    (leftAll : ∀ entry, entry ∈ left ↔ entries entry)
    (rightAll : ∀ entry, entry ∈ right ↔ entries entry) : leftRegister = rightRegister := by
  cases leftRegister with
  | none =>
    have leftEmpty : left = [] := leftSettled
    cases rightRegister with
    | none => rfl
    | some current =>
      have member := (leftAll current).mpr ((rightAll current).mp rightSettled.1)
      rw [leftEmpty] at member
      exact absurd member not_mem_nil
  | some current =>
    obtain ⟨latest, isEntry, last⟩ := ahead current ((leftAll current).mp leftSettled.1)
    have leftLatest : current = latest :=
      leftSettled.latest stamp pause ((leftAll latest).mpr isEntry)
        (last current ((leftAll current).mp leftSettled.1))
    cases rightRegister with
    | none =>
      have rightEmpty : right = [] := rightSettled
      have member := (rightAll latest).mpr isEntry
      rw [rightEmpty] at member
      exact absurd member not_mem_nil
    | some other =>
      have rightLatest : other = latest :=
        rightSettled.latest stamp pause ((rightAll latest).mpr isEntry)
          (last other ((rightAll other).mp rightSettled.1))
      rw [leftLatest, rightLatest]

def Final (entries : β → Prop) (held : β) : Prop :=
  ∀ entry, entries entry → stamp entry < stamp held + pause

/-- If only one entry is held for good when it comes first, it is ahead of all
the others. -/
theorem ahead_of_unique [IsOrderedAddMonoid τ] (positive : 0 < pause) (entries : Finset β)
    (unique : ∀ first ∈ entries, ∀ second ∈ entries,
      Final stamp pause (· ∈ entries) first → Final stamp pause (· ∈ entries) second →
      first = second) :
    Ahead stamp pause (· ∈ entries) := by
  intro entry isEntry
  obtain ⟨latest, isLatest, last⟩ := Finset.exists_max_image entries stamp ⟨entry, isEntry⟩
  have latestFinal : Final stamp pause (· ∈ entries) latest := by
    intro other isOther
    exact lt_of_le_of_lt (last other isOther) (lt_add_of_pos_right _ positive)
  refine ⟨latest, isLatest, fun other isOther => ?_⟩
  by_cases late : stamp other + pause ≤ stamp latest
  · exact Or.inr late
  · apply Or.inl
    have otherFinal : Final stamp pause (· ∈ entries) other := by
      intro third isThird
      exact lt_of_le_of_lt (last third isThird) (not_le.mp late)
    exact unique other isOther latest isLatest otherFinal latestFinal

end ZenonCore.Library.Throttled
