import Mathlib.Data.List.Basic

/-!
# Runs of a labelled step function

A step function `step : σ → ε → Option σ` has no result where an event cannot happen. The
rules turn what one step preserves into what a run preserves.
-/

namespace ZenonCore.Library.Runs

open List

variable {σ ε : Type*}

/-- The state after all the events, if each of them can happen in turn. -/
def run (step : σ → ε → Option σ) : σ → List ε → Option σ
  | state, [] => some state
  | state, event :: events => (step state event).bind fun next => run step next events

/-- Every event of the run meets `guard` in the state in which it happens. -/
def AllSteps (step : σ → ε → Option σ) (guard : σ → ε → Prop) : σ → List ε → Prop
  | _, [] => True
  | state, event :: events =>
    guard state event ∧ ∀ next, step state event = some next → AllSteps step guard next events

instance decidableAllSteps (step : σ → ε → Option σ) (guard : σ → ε → Prop)
    [decide : ∀ state event, Decidable (guard state event)] :
    ∀ state events, Decidable (AllSteps step guard state events)
  | _, [] => isTrue trivial
  | state, event :: events =>
    match decide state event with
    | isFalse fails => isFalse fun all => fails all.1
    | isTrue holds =>
      match stepped : step state event with
      | none => isTrue ⟨holds, fun next same => by rw [stepped] at same; cases same⟩
      | some next =>
        match decidableAllSteps step guard next events with
        | isTrue rest => isTrue ⟨holds, fun other same => by
            rw [stepped] at same; cases same; exact rest⟩
        | isFalse fails => isFalse fun all => fails (all.2 next stepped)

@[simp] theorem run_nil (step : σ → ε → Option σ) (state : σ) : run step state [] = some state :=
  rfl

variable (step : σ → ε → Option σ)

theorem run_cons_some (state last : σ) (event : ε) (events : List ε) :
    run step state (event :: events) = some last ↔
      ∃ next, step state event = some next ∧ run step next events = some last := by
  simp [run, Option.bind_eq_some_iff]

theorem run_append (state : σ) (first second : List ε) :
    run step state (first ++ second) =
      (run step state first).bind fun middle => run step middle second := by
  induction first generalizing state with
  | nil => rfl
  | cons event events ih =>
    simp only [cons_append, run, Option.bind_assoc]
    congr 1
    funext next
    exact ih next

theorem run_snoc_some (state middle last : σ) (events : List ε)
    (event : ε) (before : run step state events = some middle)
    (taken : step middle event = some last) :
    run step state (events ++ [event]) = some last := by
  rw [run_append, before]
  simp [run, taken]

@[simp] theorem all_steps_nil (step : σ → ε → Option σ) (guard : σ → ε → Prop) (state : σ) :
    AllSteps step guard state [] := trivial

theorem all_steps_of_forall (guard : σ → ε → Prop)
    (always : ∀ state event, guard state event) (state : σ) (events : List ε) :
    AllSteps step guard state events := by
  induction events generalizing state with
  | nil => trivial
  | cons event events ih => exact ⟨always state event, fun next _ => ih next⟩

theorem all_steps_of_events (guard : ε → Prop) (state : σ)
    (events : List ε) (each : ∀ event ∈ events, guard event) :
    AllSteps step (fun _ event => guard event) state events := by
  induction events generalizing state with
  | nil => trivial
  | cons event events ih =>
    exact ⟨each event (mem_cons_self ..),
      fun next _ => ih next fun other member => each other (mem_cons_of_mem _ member)⟩

theorem AllSteps.mono {step : σ → ε → Option σ} {first second : σ → ε → Prop}
    (implies : ∀ state event, first state event → second state event) {state : σ}
    {events : List ε} (all : AllSteps step first state events) :
    AllSteps step second state events := by
  induction events generalizing state with
  | nil => trivial
  | cons event events ih =>
    exact ⟨implies state event all.1, fun next taken => ih (all.2 next taken)⟩

theorem all_steps_and (first second : σ → ε → Prop) (state : σ)
    (events : List ε) (left : AllSteps step first state events)
    (right : AllSteps step second state events) :
    AllSteps step (fun state event => first state event ∧ second state event) state events := by
  induction events generalizing state with
  | nil => trivial
  | cons event events ih =>
    exact ⟨⟨left.1, right.1⟩, fun next taken => ih next (left.2 next taken) (right.2 next taken)⟩

variable (guard : σ → ε → Prop) (invariant : σ → Prop)

/-- The guarded invariant rule: what each guarded step preserves holds at the end of guarded runs.
-/
theorem invariant_of_guarded_run (preserved : ∀ state event next, invariant state → guard state event →
      step state event = some next → invariant next)
    (state last : σ) (events : List ε) (initially : invariant state)
    (guarded : AllSteps step guard state events) (reached : run step state events = some last) :
    invariant last := by
  induction events generalizing state with
  | nil =>
    cases reached
    exact initially
  | cons event events ih =>
    obtain ⟨next, taken, rest⟩ := (run_cons_some step state last event events).mp reached
    have after : invariant next := preserved state event next initially guarded.1 taken
    exact ih next after (guarded.2 next taken) rest

/-- What holds of a step between states with an invariant holds all along a run that keeps it. -/
theorem all_steps_of_throughout (allowed : ε → Prop)
    (each : ∀ state event next, allowed event → invariant state → step state event = some next →
      invariant next → guard state event)
    (state last : σ) (events : List ε) (all : ∀ event ∈ events, allowed event)
    (reached : run step state events = some last)
    (throughout : ∀ before middle, before <+: events → run step state before = some middle →
      invariant middle) :
    AllSteps step guard state events := by
  induction events generalizing state with
  | nil => trivial
  | cons event events ih =>
    obtain ⟨next, taken, rest⟩ := (run_cons_some step state last event events).mp reached
    have initially : invariant state := throughout [] state nil_prefix rfl
    have after : invariant next := by
      apply throughout [event] next (cons_prefix_cons.mpr ⟨rfl, nil_prefix⟩)
      exact (run_cons_some step state next event []).mpr ⟨next, taken, rfl⟩
    refine ⟨each state event next (all event mem_cons_self) initially taken after, ?_⟩
    intro other same
    rw [taken] at same
    cases same
    apply ih next (fun other there => all other (mem_cons_of_mem _ there)) rest
    intro before middle isPrefix passed
    apply throughout (event :: before) middle (cons_prefix_cons.mpr ⟨rfl, isPrefix⟩)
    exact (run_cons_some step state middle event before).mpr ⟨next, taken, passed⟩

theorem invariant_throughout_guarded_run (preserved : ∀ state event next, invariant state → guard state event →
      step state event = some next → invariant next)
    (state : σ) (events : List ε) (initially : invariant state)
    (guarded : AllSteps step guard state events) (before : List ε) (middle : σ)
    (isPrefix : before <+: events) (passed : run step state before = some middle) :
    invariant middle := by
  induction events generalizing state before with
  | nil =>
    rw [prefix_nil.mp isPrefix] at passed
    cases passed
    exact initially
  | cons event events ih =>
    cases before with
    | nil =>
      cases passed
      exact initially
    | cons first before =>
      obtain ⟨same, inRest⟩ := cons_prefix_cons.mp isPrefix
      rw [same] at passed
      obtain ⟨next, taken, later⟩ := (run_cons_some step state middle event before).mp passed
      have after := preserved state event next initially guarded.1 taken
      exact ih next after (guarded.2 next taken) before inRest later

theorem AllSteps.behind {step : σ → ε → Option σ} {guard : σ → ε → Prop} {state middle : σ}
    {before after : List ε} {event : ε}
    (all : AllSteps step guard state (before ++ event :: after))
    (passed : run step state before = some middle) : guard middle event := by
  induction before generalizing state with
  | nil =>
    cases passed
    exact all.1
  | cons first before ih =>
    obtain ⟨next, taken, later⟩ := (run_cons_some step state middle first before).mp passed
    exact ih (all.2 next taken) later

/-- What the invariant and the guard give for a step holds of every step of a
guarded run. -/
theorem all_steps_of_guarded_run (guard other : σ → ε → Prop)
    (invariant : σ → Prop)
    (preserved : ∀ state event next, invariant state → guard state event →
      step state event = some next → invariant next)
    (each : ∀ state event, invariant state → guard state event → other state event)
    (state : σ) (events : List ε) (initially : invariant state)
    (guarded : AllSteps step guard state events) : AllSteps step other state events := by
  induction events generalizing state with
  | nil => trivial
  | cons event events ih =>
    refine ⟨each state event initially guarded.1, ?_⟩
    intro next taken
    exact ih next (preserved state event next initially guarded.1 taken) (guarded.2 next taken)

/-- Where steps keep the invariant exactly under the guard, so do runs. -/
theorem invariant_iff_guarded_run (exact : ∀ state event next, invariant state → step state event = some next →
      (invariant next ↔ guard state event))
    (state last : σ) (events : List ε) (initially : invariant state)
    (reached : run step state events = some last) :
    (∀ before middle, before <+: events → run step state before = some middle →
      invariant middle) ↔ AllSteps step guard state events := by
  constructor
  · intro throughout
    apply all_steps_of_throughout step guard invariant (fun _ => True) _ state last events
      (fun _ _ => trivial) reached throughout
    intro before event after _ holds taken still
    exact (exact before event after holds taken).mp still
  · intro guarded before middle isPrefix passed
    apply invariant_throughout_guarded_run step guard invariant _ state events initially guarded
      before middle isPrefix passed
    intro current event next holds met taken
    exact (exact current event next holds taken).mpr met

theorem invariant_of_run (invariant : σ → Prop)
    (preserved : ∀ state event next, invariant state → step state event = some next →
      invariant next)
    (state last : σ) (events : List ε) (initially : invariant state)
    (reached : run step state events = some last) : invariant last :=
  invariant_of_guarded_run step (fun _ _ => True) invariant
    (fun current event next holds _ taken => preserved current event next holds taken)
    state last events initially
    (all_steps_of_forall step _ (fun _ _ => trivial) state events) reached

/-- The forward simulation rule with progress: if a related state can take every guarded event and
the abstract side follows, guarded runs go through and are followed. -/
theorem simulation_of_guarded_run {τ : Type*} (step : σ → ε → Option σ) (guard : σ → ε → Prop)
    (spec : τ → ε → τ) (related : σ → τ → Prop)
    (each : ∀ state abstract event, related state abstract → guard state event →
      ∃ next, step state event = some next ∧ related next (spec abstract event))
    (state : σ) (abstract : τ) (events : List ε) (initially : related state abstract)
    (guarded : AllSteps step guard state events) :
    ∃ last, run step state events = some last ∧ related last (events.foldl spec abstract) := by
  induction events generalizing state abstract with
  | nil => exact ⟨state, rfl, initially⟩
  | cons event events ih =>
    obtain ⟨next, taken, follows⟩ := each state abstract event initially guarded.1
    rcases ih next (spec abstract event) follows (guarded.2 next taken) with
      ⟨last, reached, lastRelated⟩
    exact ⟨last, (run_cons_some step state last event events).mpr ⟨next, taken, reached⟩,
      lastRelated⟩

/-- The lockstep rule: if each step that meets the guard can be followed by a
second system, so can every guarded run. -/
theorem lockstep_of_guarded_run {τ : Type*} (step : σ → ε → Option σ) (other : τ → ε → Option τ)
    (guard : σ → ε → Prop) (related : σ → τ → Prop)
    (each : ∀ state mirror event next, related state mirror → guard state event →
      step state event = some next →
      ∃ after, other mirror event = some after ∧ related next after)
    (state last : σ) (mirror : τ) (events : List ε) (initially : related state mirror)
    (guarded : AllSteps step guard state events) (reached : run step state events = some last) :
    ∃ follower, run other mirror events = some follower ∧ related last follower := by
  induction events generalizing state mirror with
  | nil =>
    cases reached
    exact ⟨mirror, rfl, initially⟩
  | cons event events ih =>
    obtain ⟨next, taken, rest⟩ := (run_cons_some step state last event events).mp reached
    obtain ⟨after, followed, still⟩ := each state mirror event next initially guarded.1 taken
    obtain ⟨follower, arrived, lastRelated⟩ := ih next after still (guarded.2 next taken) rest
    exact ⟨follower, (run_cons_some other mirror follower event events).mpr
      ⟨after, followed, arrived⟩, lastRelated⟩

theorem run_length_le_measure (measure : σ → Nat)
    (invariant : σ → Prop)
    (preserved : ∀ state event next, invariant state → step state event = some next →
      invariant next ∧ measure next < measure state)
    (state last : σ) (events : List ε) (initially : invariant state)
    (reached : run step state events = some last) :
    events.length + measure last ≤ measure state := by
  induction events generalizing state with
  | nil =>
    cases reached
    simp
  | cons event events ih =>
    obtain ⟨next, taken, rest⟩ := (run_cons_some step state last event events).mp reached
    have after := preserved state event next initially taken
    have tail := ih next after.1 rest
    simp only [length_cons]
    omega

end ZenonCore.Library.Runs
