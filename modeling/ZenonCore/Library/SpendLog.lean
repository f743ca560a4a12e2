import Mathlib.Data.List.Induction

/-!
# What a log has created and not spent

Log entries create and spend items. An item is live if it was created and not spent from there
on.
-/

namespace ZenonCore.Library.SpendLog

open List

variable {ε α : Type*} (creates spends : ε → α → Prop)

def Live (log : List ε) (item : α) : Prop :=
  ∃ before entry after, log = before ++ entry :: after ∧ creates entry item ∧
    ∀ later ∈ entry :: after, ¬ spends later item

theorem not_live_nil (item : α) : ¬ Live creates spends [] item := by
  intro live
  obtain ⟨before, entry, after, split, _⟩ := live
  simp at split

theorem live_snoc (log : List ε) (entry : ε) (item : α) :
    Live creates spends (log ++ [entry]) item ↔
      (Live creates spends log item ∨ creates entry item) ∧ ¬ spends entry item := by
  constructor
  · intro live
    obtain ⟨before, maker, after, split, made, unspent⟩ := live
    obtain none | ⟨rest, last, isLast⟩ := eq_nil_or_concat after
    · rw [none] at split unspent
      obtain ⟨_, same⟩ := append_inj' split rfl
      cases same
      exact ⟨Or.inr made, unspent entry mem_cons_self⟩
    · rw [concat_eq_append] at isLast
      rw [isLast, ← cons_append, ← append_assoc] at split
      obtain ⟨earlier, same⟩ := append_inj' split rfl
      cases same
      rw [isLast] at unspent
      constructor
      · left
        refine ⟨before, maker, rest, earlier, made, fun later member => unspent later ?_⟩
        rw [← cons_append]
        exact mem_append_left _ member
      · exact unspent entry (by simp)
  · intro holds
    obtain ⟨live | made, unspent⟩ := holds
    · obtain ⟨before, maker, after, split, made, kept⟩ := live
      refine ⟨before, maker, after ++ [entry], by rw [split]; simp, made, ?_⟩
      intro later member
      rw [← cons_append, mem_append, mem_singleton] at member
      obtain old | new := member
      · exact kept later old
      · rw [new]
        exact unspent
    · refine ⟨log, entry, [], rfl, made, ?_⟩
      intro later member
      rw [mem_singleton.mp member]
      exact unspent

/-- Entries that create nothing, and spend nothing that is live, change
nothing. -/
theorem live_append_quiet (log more : List ε)
    (quiet : ∀ entry ∈ more, (∀ item, ¬ creates entry item) ∧
      ∀ item, Live creates spends log item → ¬ spends entry item) (item : α) :
    Live creates spends (log ++ more) item ↔ Live creates spends log item := by
  induction more using reverseRecOn with
  | nil => rw [append_nil]
  | append_singleton more entry ih =>
    have before := ih fun other member => quiet other (mem_append_left _ member)
    obtain ⟨nothing, unspent⟩ := quiet entry (by simp)
    rw [← append_assoc, live_snoc, before]
    constructor
    · intro live
      exact live.1.resolve_right (nothing item)
    · intro live
      exact ⟨Or.inl live, unspent item live⟩

end ZenonCore.Library.SpendLog
