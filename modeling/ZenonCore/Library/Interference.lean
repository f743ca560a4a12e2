import Mathlib.Data.List.Induction

/-!
# Receivers, and deleting messages from a run

A receiver is a function `step : σ → ε → σ`. A run of all the messages is compared with one of
the messages that are kept.
-/

namespace ZenonCore.Library.Interference

open List

variable {σ ε γ : Type*}

def Guarded (step : σ → ε → σ) (note : γ → ε → γ) (guard : γ → σ → ε → Prop) :
    γ → σ → List ε → Prop
  | _, _, [] => True
  | notes, state, message :: rest =>
    guard notes state message ∧ Guarded step note guard (note notes message) (step state message) rest

instance decidableGuarded (step : σ → ε → σ) (note : γ → ε → γ) (guard : γ → σ → ε → Prop)
    [decide : ∀ notes state message, Decidable (guard notes state message)] :
    ∀ notes state messages, Decidable (Guarded step note guard notes state messages)
  | _, _, [] => isTrue trivial
  | notes, state, message :: rest =>
    match decide notes state message,
        decidableGuarded step note guard (note notes message) (step state message) rest with
    | isTrue here, isTrue later => isTrue ⟨here, later⟩
    | isFalse fails, _ => isFalse fun all => fails all.1
    | _, isFalse fails => isFalse fun all => fails all.2

section Rules

variable (step : σ → ε → σ) (note : γ → ε → γ) (guard : γ → σ → ε → Prop) (kept : ε → Bool)

/-- The rule of deletion: if no message, deleted or kept, breaks the relation, the runs end related.
-/
theorem deletion_unnoticed (related : γ → σ → σ → Prop)
    (dropped : ∀ notes left right message, related notes left right →
      guard notes left message → kept message = false →
      related (note notes message) (step left message) right)
    (followed : ∀ notes left right message, related notes left right →
      guard notes left message → kept message = true →
      related (note notes message) (step left message) (step right message))
    (notes : γ) (left right : σ) (messages : List ε) (initially : related notes left right)
    (guarded : Guarded step note guard notes left messages) :
    related (messages.foldl note notes) (messages.foldl step left)
      ((messages.filter kept).foldl step right) := by
  induction messages generalizing notes left right with
  | nil => exact initially
  | cons message rest ih =>
    cases keeps : kept message with
    | false =>
      rw [filter_cons_of_neg (by simp [keeps])]
      exact ih _ _ _ (dropped notes left right message initially guarded.1 keeps) guarded.2
    | true =>
      rw [filter_cons_of_pos keeps]
      exact ih _ _ _ (followed notes left right message initially guarded.1 keeps) guarded.2

/-- The invariant rule: what every message that meets the guard preserves holds
at the end of every guarded run. -/
theorem invariant_of_guarded (invariant : γ → σ → Prop)
    (preserved : ∀ notes state message, invariant notes state → guard notes state message →
      invariant (note notes message) (step state message))
    (notes : γ) (state : σ) (messages : List ε) (initially : invariant notes state)
    (guarded : Guarded step note guard notes state messages) :
    invariant (messages.foldl note notes) (messages.foldl step state) := by
  induction messages generalizing notes state with
  | nil => exact initially
  | cons message rest ih =>
    exact ih _ _ (preserved notes state message initially guarded.1) guarded.2

theorem deletion_of_inert (state : σ) (messages : List ε)
    (inert : Guarded step (fun _ _ => ()) (fun _ state message =>
      kept message = false → step state message = state) () state messages) :
    messages.foldl step state = (messages.filter kept).foldl step state := by
  apply deletion_unnoticed step (fun _ _ => ()) _ kept (fun _ left right => left = right)
    _ _ () state state messages rfl inert
  · intro notes left right message same quiet deleted
    rw [quiet deleted]
    exact same
  · intro notes left right message same _ _
    rw [same]

variable (notes : γ) (state : σ) (messages : List ε)

/-- The guard holds at every message iff it holds at the last message of every
beginning of the run. -/
theorem guarded_iff_prefixes :
    Guarded step note guard notes state messages ↔
      ∀ before message, before ++ [message] <+: messages →
        guard (before.foldl note notes) (before.foldl step state) message := by
  induction messages generalizing notes state with
  | nil =>
    constructor
    · intro _ before message isPrefix
      exact absurd (prefix_nil.mp isPrefix) (by simp)
    · intro _
      trivial
  | cons first rest ih =>
    constructor
    · intro guarded before message isPrefix
      cases before with
      | nil =>
        have same : message = first := (cons_prefix_cons.mp isPrefix).1
        rw [same]
        exact guarded.1
      | cons head before =>
        have parts := cons_prefix_cons.mp isPrefix
        rw [parts.1]
        exact (ih _ _).mp guarded.2 before message parts.2
    · intro every
      constructor
      · exact every [] first (cons_prefix_cons.mpr ⟨rfl, nil_prefix⟩)
      · apply (ih _ _).mpr
        intro before message isPrefix
        exact every (first :: before) message (cons_prefix_cons.mpr ⟨rfl, isPrefix⟩)

/-- Where every message keeps the invariant exactly if it meets the guard, so does every run. -/
theorem throughout_iff_guarded (met : σ → ε → Prop) (invariant : σ → Prop)
    (kept : ∀ state message, invariant state →
      (invariant (step state message) ↔ met state message))
    (state : σ) (messages : List ε) (initially : invariant state) :
    (∀ before, before <+: messages → invariant (before.foldl step state)) ↔
      Guarded step (fun _ _ => ()) (fun _ state message => met state message) () state
        messages := by
  rw [guarded_iff_prefixes]
  constructor
  · intro throughout before message isPrefix
    have earlier := throughout before ((prefix_append before [message]).trans isPrefix)
    have later := throughout (before ++ [message]) isPrefix
    rw [foldl_append] at later
    exact (kept _ message earlier).mp later
  · intro guarded before
    induction before using reverseRecOn with
    | nil => exact fun _ => initially
    | append_singleton before message ih =>
      intro isPrefix
      have earlier := ih ((prefix_append before [message]).trans isPrefix)
      rw [foldl_append]
      exact (kept _ message earlier).mpr (guarded before message isPrefix)

theorem guarded_snoc (message : ε) :
    Guarded step note guard notes state (messages ++ [message]) ↔
      Guarded step note guard notes state messages ∧
        guard (messages.foldl note notes) (messages.foldl step state) message := by
  induction messages generalizing notes state with
  | nil => exact ⟨fun all => ⟨trivial, all.1⟩, fun all => ⟨all.2, trivial⟩⟩
  | cons first rest ih =>
    constructor
    · intro all
      have later := (ih _ _).mp all.2
      exact ⟨⟨all.1, later.1⟩, later.2⟩
    · intro all
      exact ⟨all.1.1, (ih _ _).mpr ⟨all.1.2, all.2⟩⟩

theorem history_of_guarded (invariant : List ε → σ → Prop) (notes : γ) (state : σ)
    (preserved : ∀ history message, invariant history (history.foldl step state) →
      guard (history.foldl note notes) (history.foldl step state) message →
      invariant (history ++ [message]) (step (history.foldl step state) message))
    (messages : List ε) (initially : invariant [] state)
    (guarded : Guarded step note guard notes state messages) :
    invariant messages (messages.foldl step state) := by
  induction messages using reverseRecOn with
  | nil => exact initially
  | append_singleton messages message ih =>
    rcases (guarded_snoc step note guard notes state messages message).mp guarded with
      ⟨before, here⟩
    rw [foldl_append]
    exact preserved messages message (ih before) here

end Rules

end ZenonCore.Library.Interference
