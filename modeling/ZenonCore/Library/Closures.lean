import Mathlib.Order.BooleanAlgebra.Set
import Mathlib.Logic.Relation

/-!
# What a worklist takes away

A worklist takes its members out of a set and puts on what follows each of them; two worklists
in turn take away what both lead to.
-/

namespace ZenonCore.Library.Closures

universe u

variable {α : Type u} (follows : α → α → Prop)

abbrev Walks (inside : Set α) : α → α → Prop :=
  Relation.ReflTransGen fun source target => follows source target ∧ target ∈ inside

structure Drops (inside left : Set α) (starts : α → Prop) : Prop where
  subset : left ⊆ inside
  dropped : ∀ target ∈ inside,
    target ∉ left ↔ ∃ start ∈ inside, starts start ∧ Walks follows inside start target

variable {follows} {inside wider : Set α}

theorem walks_mono {start target : α} (subset : inside ⊆ wider)
    (walk : Walks follows inside start target) : Walks follows wider start target := by
  induction walk with
  | refl => exact .refl
  | tail _ last ih => exact ih.tail ⟨last.1, subset last.2⟩

theorem walks_avoid (closed : Set α)
    (keeps : ∀ source ∈ closed, ∀ target ∈ inside, follows source target → target ∈ closed)
    (start target : α) (outside : target ∉ closed)
    (walk : Walks follows inside start target) :
    start ∉ closed ∧ Walks follows (inside \ closed) start target := by
  induction walk using Relation.ReflTransGen.head_induction_on with
  | refl => exact ⟨outside, .refl⟩
  | head follow _ ih =>
    obtain ⟨next, rest⟩ := ih
    constructor
    · intro first
      exact next (keeps _ first _ follow.2 follow.1)
    · exact .head ⟨follow.1, follow.2, next⟩ rest

/-- A walk to another member avoids a member, or goes on without it from one
that follows it. -/
theorem walks_last_visit (member start target : α) (differs : target ≠ member)
    (walk : Walks follows inside start target) :
    (start ≠ member ∧ Walks follows (inside \ {member}) start target) ∨
      ∃ next ∈ inside, next ≠ member ∧ follows member next ∧
        Walks follows (inside \ {member}) next target := by
  induction walk using Relation.ReflTransGen.head_induction_on with
  | refl => exact Or.inl ⟨differs, .refl⟩
  | @head source middle follow _ ih =>
    obtain ⟨avoids, rest⟩ | later := ih
    · by_cases same : source = member
      · rw [same] at follow
        exact Or.inr ⟨middle, follow.2, avoids, follow.1, rest⟩
      · exact Or.inl ⟨same, .head ⟨follow.1, follow.2, avoids⟩ rest⟩
    · exact Or.inr later

theorem Drops.refl {starts : α → Prop} (none : ∀ start ∈ inside, ¬ starts start) :
    Drops follows inside inside starts := by
  constructor
  · exact Set.Subset.refl inside
  · intro target isInside
    constructor
    · intro outside
      exact absurd isInside outside
    · intro reached
      obtain ⟨start, isStart, starts, _⟩ := reached
      exact absurd starts (none start isStart)

theorem Drops.congr {left : Set α} {starts others : α → Prop}
    (drops : Drops follows inside left starts)
    (same : ∀ start ∈ inside, starts start ↔ others start) :
    Drops follows inside left others := by
  refine ⟨drops.subset, fun target isInside => (drops.dropped target isInside).trans ?_⟩
  constructor
  · intro reached
    obtain ⟨start, isStart, starts, walk⟩ := reached
    exact ⟨start, isStart, (same start isStart).mp starts, walk⟩
  · intro reached
    obtain ⟨start, isStart, starts, walk⟩ := reached
    exact ⟨start, isStart, (same start isStart).mpr starts, walk⟩

theorem Drops.pop {left : Set α} {starts : α → Prop} (member : α) (isInside : member ∈ inside)
    (isStart : starts member)
    (drops : Drops follows (inside \ {member}) left
      fun next => starts next ∨ follows member next) :
    Drops follows inside left starts := by
  constructor
  · exact Set.Subset.trans drops.subset Set.sdiff_subset
  · intro target targetIn
    by_cases same : target = member
    · rw [same]
      constructor
      · intro _
        exact ⟨member, isInside, isStart, .refl⟩
      · intro _ stays
        exact (drops.subset stays).2 rfl
    · rw [drops.dropped target ⟨targetIn, same⟩]
      constructor
      · intro reached
        obtain ⟨start, startIn, starts | follow, walk⟩ := reached
        · exact ⟨start, startIn.1, starts, walks_mono Set.sdiff_subset walk⟩
        · exact ⟨member, isInside, isStart,
            .head ⟨follow, startIn.1⟩ (walks_mono Set.sdiff_subset walk)⟩
      · intro reached
        obtain ⟨start, startIn, starts, walk⟩ := reached
        rcases walks_last_visit member start target same walk with
          ⟨avoids, rest⟩ | ⟨next, nextIn, avoids, follow, rest⟩
        · exact ⟨start, ⟨startIn, avoids⟩, Or.inl starts, rest⟩
        · exact ⟨next, ⟨nextIn, avoids⟩, Or.inr follow, rest⟩

theorem Drops.closed {left : Set α} {starts : α → Prop}
    (drops : Drops follows inside left starts) :
    ∀ source ∈ inside \ left, ∀ target ∈ inside, follows source target →
      target ∈ inside \ left := by
  intro source gone target targetIn follow
  obtain ⟨start, startIn, starts, walk⟩ := (drops.dropped source gone.1).mp gone.2
  refine ⟨targetIn, (drops.dropped target targetIn).mpr ?_⟩
  exact ⟨start, startIn, starts, walk.tail ⟨follow, targetIn⟩⟩

theorem Drops.walks_left {left : Set α} {starts : α → Prop}
    (drops : Drops follows inside left starts) (start target : α) (isLeft : target ∈ left)
    (walk : Walks follows inside start target) :
    start ∉ inside \ left ∧ Walks follows left start target := by
  rcases walks_avoid (inside \ left) drops.closed start target (fun gone => gone.2 isLeft) walk with
    ⟨kept, rest⟩
  have remaining : inside \ (inside \ left) ⊆ left := by
    intro member stays
    by_contra gone
    exact stays.2 ⟨stays.1, gone⟩
  exact ⟨kept, walks_mono remaining rest⟩

theorem Drops.trans {middle left : Set α} {starts others : α → Prop}
    (first : Drops follows inside middle starts) (second : Drops follows middle left others) :
    Drops follows inside left fun start => starts start ∨ others start := by
  constructor
  · exact Set.Subset.trans second.subset first.subset
  · intro target targetIn
    by_cases inMiddle : target ∈ middle
    · rw [second.dropped target inMiddle]
      constructor
      · intro reached
        obtain ⟨start, startIn, isOther, walk⟩ := reached
        exact ⟨start, first.subset startIn, Or.inr isOther, walks_mono first.subset walk⟩
      · intro reached
        obtain ⟨start, startIn, isStart | isOther, walk⟩ := reached
        · exact absurd inMiddle
            ((first.dropped target targetIn).mpr ⟨start, startIn, isStart, walk⟩)
        · obtain ⟨kept, rest⟩ := first.walks_left start target inMiddle walk
          have startLeft : start ∈ middle := by
            by_contra gone
            exact kept ⟨startIn, gone⟩
          exact ⟨start, startLeft, isOther, rest⟩
    · constructor
      · intro _
        obtain ⟨start, startIn, isStart, walk⟩ := (first.dropped target targetIn).mp inMiddle
        exact ⟨start, startIn, Or.inl isStart, walk⟩
      · intro _ isLeft
        exact inMiddle (second.subset isLeft)

end ZenonCore.Library.Closures
