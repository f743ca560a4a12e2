import Mathlib.Data.List.Forall2

/-!
# Concatenations without separators

Pieces put behind one another can be told apart if the lengths of all but one are known.
-/

namespace ZenonCore.Library.Concatenation

open List

variable {α : Type*}

abbrev SameLengths : List (List α) → List (List α) → Prop :=
  List.Forall₂ fun left right => left.length = right.length

inductive Aligned : List (List α) → List (List α) → Prop
  | nil : Aligned [] []
  | free (left right : List α) {lefts rights : List (List α)} (rest : SameLengths lefts rights) :
      Aligned (left :: lefts) (right :: rights)
  | fixed {left right : List α} {lefts rights : List (List α)}
      (sameLength : left.length = right.length) (rest : Aligned lefts rights) :
      Aligned (left :: lefts) (right :: rights)

variable {lefts rights : List (List α)}

theorem SameLengths.flatten_length (same : SameLengths lefts rights) :
    lefts.flatten.length = rights.flatten.length := by
  induction same with
  | nil => rfl
  | cons sameLength _ ih => simp [sameLength, ih]

theorem SameLengths.flatten_injective (same : SameLengths lefts rights)
    (equal : lefts.flatten = rights.flatten) : lefts = rights := by
  induction same with
  | nil => rfl
  | cons sameLength _ ih =>
    rw [flatten_cons, flatten_cons] at equal
    obtain ⟨first, rest⟩ := append_inj equal sameLength
    rw [first, ih rest]

theorem Aligned.flatten_injective (aligned : Aligned lefts rights)
    (equal : lefts.flatten = rights.flatten) : lefts = rights := by
  induction aligned with
  | nil => rfl
  | free left right rest =>
    rw [flatten_cons, flatten_cons] at equal
    obtain ⟨first, others⟩ := append_inj' equal rest.flatten_length
    rw [first, rest.flatten_injective others]
  | fixed sameLength _ ih =>
    rw [flatten_cons, flatten_cons] at equal
    obtain ⟨first, others⟩ := append_inj equal sameLength
    rw [first, ih others]

theorem aligned_refl (pieces : List (List α)) : Aligned pieces pieces := by
  induction pieces with
  | nil => exact .nil
  | cons piece rest ih => exact .fixed rfl ih

/-- Two sequences of pieces are the same iff they make the same whole and are
aligned. -/
theorem eq_iff_flatten_eq :
    lefts = rights ↔ lefts.flatten = rights.flatten ∧ Aligned lefts rights := by
  constructor
  · intro same
    rw [same]
    exact ⟨rfl, aligned_refl rights⟩
  · intro both
    exact both.2.flatten_injective both.1

end ZenonCore.Library.Concatenation
