import Mathlib.Order.Lattice

/-!
# Functions by steps

A function of a height with one value below the first of some heights and another from each of
them on.
-/

namespace ZenonCore.Staircases

variable {ι α : Type}

/-- The value `start` below the first step, and the value of a step from its
height on. -/
def staircase [LinearOrder ι] (start : α) : List (ι × α) → ι → α
  | [], _ => start
  | (first, value) :: rest, height =>
    if height < first then start else staircase value rest height

def Falling [LE α] (start : α) : List (ι × α) → Prop
  | [] => True
  | (_, value) :: rest => value ≤ start ∧ Falling value rest

variable [LinearOrder ι] [Preorder α]

variable (start : α) (steps : List (ι × α))

theorem staircase_le_start (height : ι)
    (falling : Falling start steps) : staircase start steps height ≤ start := by
  induction steps generalizing start with
  | nil => exact le_refl start
  | cons step rest ih =>
    obtain ⟨lower, later⟩ := falling
    unfold staircase
    split
    · exact le_refl start
    · exact le_trans (ih step.2 later) lower

theorem staircase_antitone (falling : Falling start steps)
    (earlier later : ι) (order : earlier ≤ later) :
    staircase start steps later ≤ staircase start steps earlier := by
  induction steps generalizing start with
  | nil => exact le_refl start
  | cons step rest ih =>
    obtain ⟨lower, falling⟩ := falling
    unfold staircase
    by_cases below : later < step.1
    · rw [if_pos below, if_pos (lt_of_le_of_lt order below)]
    · rw [if_neg below]
      split
      · exact le_trans (staircase_le_start step.2 rest later falling) lower
      · exact ih step.2 falling

theorem le_staircase (floor start : α) (steps : List (ι × α)) (height : ι) (above : floor ≤ start)
    (steady : ∀ step ∈ steps, floor ≤ step.2) : floor ≤ staircase start steps height := by
  induction steps generalizing start with
  | nil => exact above
  | cons step rest ih =>
    unfold staircase
    split
    · exact above
    · apply ih step.2 (steady step List.mem_cons_self)
      intro other there
      exact steady other (List.mem_cons_of_mem _ there)

end ZenonCore.Staircases
