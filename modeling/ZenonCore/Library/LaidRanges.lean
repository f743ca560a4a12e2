import Mathlib.Data.List.Basic

/-!
# Ranges laid one behind the other

Where no level of an arena falls, no two ranges handed out of it overlap.
-/

namespace ZenonCore.Library.LaidRanges

variable {κ : Type}

structure Range (κ : Type) where
  arena : κ
  start : Nat
  length : Nat
deriving DecidableEq, Repr

namespace Range

def stop (range : Range κ) : Nat := range.start + range.length

def Apart (first second : Range κ) : Prop :=
  first.arena = second.arena → first.stop ≤ second.start ∨ second.stop ≤ first.start

instance [DecidableEq κ] (first second : Range κ) : Decidable (Apart first second) :=
  inferInstanceAs (Decidable (_ → _))

end Range

open Range

structure Laid (level : κ → Nat) (ranges : List (Range κ)) : Prop where
  apart : ranges.Pairwise Apart
  inside : ∀ range ∈ ranges, range.stop ≤ level range.arena

theorem laid_nil (level : κ → Nat) : Laid level [] where
  apart := List.Pairwise.nil
  inside := by
    intro range there
    cases there

section Growing

variable {level higher : κ → Nat} {ranges : List (Range κ)}

theorem Laid.grow (laid : Laid level ranges) (grown : ∀ arena, level arena ≤ higher arena) :
    Laid higher ranges where
  apart := laid.apart
  inside := by
    intro range there
    exact Nat.le_trans (laid.inside range there) (grown range.arena)

theorem Laid.push (laid : Laid level ranges) (grown : ∀ arena, level arena ≤ higher arena)
    (range : Range κ) (above : level range.arena ≤ range.start)
    (within : range.stop ≤ higher range.arena) : Laid higher (ranges ++ [range]) where
  apart := by
    apply List.pairwise_append.mpr
    refine ⟨laid.apart, List.pairwise_singleton _ _, ?_⟩
    intro earlier there new newest same
    rw [List.mem_singleton.mp newest] at same ⊢
    left
    have below := laid.inside earlier there
    rw [same] at below
    exact Nat.le_trans below above
  inside := by
    intro other there
    obtain before | new := List.mem_append.mp there
    · exact (laid.grow grown).inside other before
    · rw [List.mem_singleton.mp new]
      exact within

theorem not_laid_push (range : Range κ) (outside : higher range.arena < range.stop) :
    ¬ Laid higher (ranges ++ [range]) := by
  intro laid
  have within := laid.inside range (List.mem_append_right _ (List.mem_singleton_self range))
  exact Nat.not_lt.mpr within outside

end Growing

end ZenonCore.Library.LaidRanges
