import Mathlib.Data.List.Induction

/-!
# Receivers that look at a key once

A receiver that notes a key before it looks whether the message is genuine can lose a genuine
one behind it.
-/

namespace ZenonCore.Library.Shadowing

open List

variable {σ ε κ ρ ο : Type*}

/-- The laws of such a receiver: `rest` is the state without keys, `effect` that of a new genuine
message. -/
structure FirstOnly (step : σ → ε → σ) (noted : σ → κ → Prop) (rest : σ → ρ)
    (heard genuine : ε → Bool) (key : ε → κ) (effect : ρ → ε → ρ) : Prop where
  deaf : ∀ state message, heard message = false → step state message = state
  notes : ∀ state message, heard message = true → ∀ other,
    noted (step state message) other ↔ other = key message ∨ noted state other
  repeated : ∀ state message, noted state (key message) → rest (step state message) = rest state
  forged : ∀ state message, heard message = true → ¬ noted state (key message) →
    genuine message = false → rest (step state message) = rest state
  counted : ∀ state message, heard message = true → ¬ noted state (key message) →
    genuine message = true → rest (step state message) = effect (rest state) message

/-- A genuine message whose key a forged one had comes behind a genuine one with that key. -/
def Unshadowed (noted : κ → Prop) (heard genuine : ε → Bool) (key : ε → κ)
    (messages : List ε) : Prop :=
  ∀ before message, before ++ [message] <+: messages →
    heard message = true → genuine message = true → ¬ noted (key message) →
    (∃ other ∈ before, heard other = true ∧ genuine other = false ∧ key other = key message) →
    ∃ other ∈ before, heard other = true ∧ genuine other = true ∧ key other = key message

section Laws

variable {step : σ → ε → σ} {noted : σ → κ → Prop} {rest : σ → ρ} {heard genuine : ε → Bool}
  {key : ε → κ} {effect : ρ → ε → ρ}

theorem FirstOnly.noted_run (laws : FirstOnly step noted rest heard genuine key effect)
    (state : σ) (messages : List ε) (other : κ) :
    noted (messages.foldl step state) other ↔
      noted state other ∨ ∃ message ∈ messages, heard message = true ∧ key message = other := by
  induction messages using reverseRecOn with
  | nil => simp
  | append_singleton before message ih =>
    rw [foldl_append, foldl_cons, foldl_nil]
    simp only [mem_append, mem_singleton, or_and_right, exists_or, exists_eq_left]
    cases isHeard : heard message with
    | false =>
      rw [laws.deaf _ message isHeard, ih]
      simp
    | true =>
      rw [laws.notes _ message isHeard, ih]
      constructor
      · intro either
        obtain here | there | earlier := either
        · exact Or.inr (Or.inr ⟨rfl, here.symm⟩)
        · exact Or.inl there
        · exact Or.inr (Or.inl earlier)
      · intro either
        obtain there | earlier | ⟨_, here⟩ := either
        · exact Or.inr (Or.inl there)
        · exact Or.inr (Or.inr earlier)
        · exact Or.inl here.symm

/-- A key that the run with the forged messages has noted, and that shadows nothing, is noted
without them too. -/
theorem FirstOnly.noted_filter (laws : FirstOnly step noted rest heard genuine key effect)
    (state : σ) (messages : List ε) (other : κ) :
    noted ((messages.filter genuine).foldl step state) other ↔
      noted state other ∨
        ∃ message ∈ messages, heard message = true ∧ genuine message = true ∧
          key message = other := by
  rw [laws.noted_run]
  simp only [mem_filter]
  apply or_congr_right
  constructor
  · intro found
    obtain ⟨message, ⟨member, isGenuine⟩, isHeard, same⟩ := found
    exact ⟨message, member, isHeard, isGenuine, same⟩
  · intro found
    obtain ⟨message, member, isHeard, isGenuine, same⟩ := found
    exact ⟨message, ⟨member, isGenuine⟩, isHeard, same⟩

theorem FirstOnly.rest_run (laws : FirstOnly step noted rest heard genuine key effect)
    (state : σ) (messages : List ε)
    (unshadowed : Unshadowed (noted state) heard genuine key messages) :
    rest (messages.foldl step state) = rest ((messages.filter genuine).foldl step state) := by
  induction messages using reverseRecOn with
  | nil => rfl
  | append_singleton before message ih =>
    have earlier : Unshadowed (noted state) heard genuine key before := by
      intro front other isPrefix
      exact unshadowed front other (isPrefix.trans (prefix_append before [message]))
    have same := ih earlier
    rw [foldl_append, foldl_cons, foldl_nil, filter_append,
      foldl_append]
    cases isGenuine : genuine message with
    | false =>
      rw [filter_cons_of_neg (by simp [isGenuine]), filter_nil, foldl_nil,
        ← same]
      cases isHeard : heard message with
      | false => rw [laws.deaf _ message isHeard]
      | true =>
        by_cases isNoted : noted (before.foldl step state) (key message)
        · exact laws.repeated _ message isNoted
        · exact laws.forged _ message isHeard isNoted isGenuine
    | true =>
      rw [filter_cons_of_pos isGenuine, filter_nil, foldl_cons, foldl_nil]
      cases isHeard : heard message with
      | false =>
        rw [laws.deaf _ message isHeard, laws.deaf _ message isHeard]
        exact same
      | true =>
        by_cases isNoted : noted (before.foldl step state) (key message)
        · have isNotedToo :
              noted ((before.filter genuine).foldl step state) (key message) := by
            rw [laws.noted_filter]
            by_cases atStart : noted state (key message)
            · exact Or.inl atStart
            · rcases ((laws.noted_run state before _).mp isNoted).resolve_left atStart with
                ⟨other, member, otherHeard, sameKey⟩
              cases otherGenuine : genuine other with
              | true => exact Or.inr ⟨other, member, otherHeard, otherGenuine, sameKey⟩
              | false =>
                exact Or.inr (unshadowed before message (prefix_refl _) isHeard
                  isGenuine atStart ⟨other, member, otherHeard, otherGenuine, sameKey⟩)
          rw [laws.repeated _ message isNoted, laws.repeated _ message isNotedToo]
          exact same
        · have newToo :
              ¬ noted ((before.filter genuine).foldl step state) (key message) := by
            intro isNotedToo
            apply isNoted
            rw [laws.noted_run]
            obtain there | found := (laws.noted_filter state before _).mp isNotedToo
            · exact Or.inl there
            · obtain ⟨other, member, otherHeard, _, sameKey⟩ := found
              exact Or.inr ⟨other, member, otherHeard, sameKey⟩
          rw [laws.counted _ message isHeard isNoted isGenuine,
            laws.counted _ message isHeard newToo isGenuine, same]

/-- Where every genuine message can be observed, the deletion goes unnoticed all along only if no
message is shadowed. -/
theorem FirstOnly.unshadowed_iff (laws : FirstOnly step noted rest heard genuine key effect)
    (observe : ρ → ο) (state : σ) (messages : List ε)
    (moves : ∀ others message, heard message = true → genuine message = true →
      observe (effect others message) ≠ observe others) :
    (∀ before, before <+: messages →
      observe (rest (before.foldl step state)) =
        observe (rest ((before.filter genuine).foldl step state))) ↔
      Unshadowed (noted state) heard genuine key messages := by
  constructor
  · intro unnoticed before message isPrefix isHeard isGenuine new shadow
    by_contra first
    have atFirst := unnoticed before ((prefix_append before [message]).trans isPrefix)
    have after := unnoticed (before ++ [message]) isPrefix
    rw [foldl_append, foldl_cons, foldl_nil, filter_append,
      filter_cons_of_pos isGenuine, filter_nil, foldl_append, foldl_cons,
      foldl_nil] at after
    obtain ⟨other, member, otherHeard, _, sameKey⟩ := shadow
    have isNoted : noted (before.foldl step state) (key message) :=
      (laws.noted_run state before _).mpr (Or.inr ⟨other, member, otherHeard, sameKey⟩)
    have newThere : ¬ noted ((before.filter genuine).foldl step state) (key message) := by
      intro isNotedThere
      obtain there | found := (laws.noted_filter state before _).mp isNotedThere
      · exact new there
      · exact first found
    rw [laws.repeated _ message isNoted, laws.counted _ message isHeard newThere isGenuine,
      atFirst] at after
    exact moves _ message isHeard isGenuine after.symm
  · intro unshadowed before isPrefix
    have earlier : Unshadowed (noted state) heard genuine key before := by
      intro front other isFront
      exact unshadowed front other (isFront.trans isPrefix)
    rw [laws.rest_run state before earlier]

end Laws

end ZenonCore.Library.Shadowing
