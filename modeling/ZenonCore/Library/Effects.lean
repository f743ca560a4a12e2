import Mathlib.Data.List.Basic

/-!
# Computations that change a state before they fail

What a computation has changed when it fails stays changed; the state it leaves and its
outcome are asked for separately.
-/

namespace ZenonCore.Effects

universe u

/-- A computation over `State` whose failures leave the state as it is then. -/
abbrev Effect (State Failure : Type u) := ExceptT Failure (StateM State)

section Rules

variable {State Failure α β : Type u}

/-- The state a computation leaves, whether or not it succeeds. -/
def after (run : Effect State Failure α) (state : State) : State :=
  (StateT.run (ExceptT.run run) state).2

def outcome (run : Effect State Failure α) (state : State) : Except Failure α :=
  (StateT.run (ExceptT.run run) state).1

def check (result : Except Failure α) : Effect State Failure α := ExceptT.mk (pure result)

def write (change : State → State) : Effect State Failure PUnit := modify change

def inspect (next : State → Effect State Failure α) : Effect State Failure α := get >>= next

@[simp] theorem after_pure (value : α) (state : State) :
    after (pure value : Effect State Failure α) state = state := rfl

@[simp] theorem outcome_pure (value : α) (state : State) :
    outcome (pure value : Effect State Failure α) state = .ok value := rfl

@[simp] theorem after_check (result : Except Failure α) (state : State) :
    after (check result) state = state := rfl

@[simp] theorem outcome_check (result : Except Failure α) (state : State) :
    outcome (check result) state = result := rfl

@[simp] theorem after_write (change : State → State) (state : State) :
    after (write change : Effect State Failure PUnit) state = change state := rfl

@[simp] theorem outcome_write (change : State → State) (state : State) :
    outcome (write change : Effect State Failure PUnit) state = .ok ⟨⟩ := rfl

variable (next : State → Effect State Failure α) (state : State)

@[simp] theorem after_inspect :
    after (inspect next) state = after (next state) state := rfl

@[simp] theorem outcome_inspect :
    outcome (inspect next) state = outcome (next state) state := rfl

variable (first : Effect State Failure α) (next : α → Effect State Failure β) (state : State)

theorem after_bind :
    after (first >>= next) state =
      match outcome first state with
      | .ok value => after (next value) (after first state)
      | .error _ => after first state := by
  show (StateT.run (ExceptT.run first >>= ExceptT.bindCont next) state).2 = _
  unfold after outcome
  rw [StateT.run_bind]
  obtain ⟨result, left⟩ := StateT.run (ExceptT.run first) state
  cases result <;> rfl

theorem outcome_bind :
    outcome (first >>= next) state =
      match outcome first state with
      | .ok value => outcome (next value) (after first state)
      | .error failure => .error failure := by
  show (StateT.run (ExceptT.run first >>= ExceptT.bindCont next) state).1 = _
  unfold after outcome
  rw [StateT.run_bind]
  obtain ⟨result, left⟩ := StateT.run (ExceptT.run first) state
  cases result <;> rfl

theorem outcome_bind_eq_ok (value : β) :
    outcome (first >>= next) state = .ok value ↔
      ∃ middle, outcome first state = .ok middle ∧
        outcome (next middle) (after first state) = .ok value := by
  rw [outcome_bind]
  cases outcome first state with
  | error failure => simp
  | ok middle => simp

variable (Kept : State → Prop)

theorem bind_keeps (first : Effect State Failure α)
    (next : α → Effect State Failure β)
    (keepsFirst : ∀ state, Kept state → Kept (after first state))
    (keepsNext : ∀ value state, Kept state → Kept (after (next value) state)) (state : State)
    (held : Kept state) : Kept (after (first >>= next) state) := by
  rw [after_bind]
  split
  · rename_i value _
    exact keepsNext value _ (keepsFirst state held)
  · exact keepsFirst state held

theorem check_bind_keeps (result : Except Failure α)
    (next : α → Effect State Failure β)
    (keeps : ∀ value state, Kept state → Kept (after (next value) state)) (state : State)
    (held : Kept state) : Kept (after (check result >>= next) state) :=
  bind_keeps Kept (check result) next (fun _ same => same) keeps state held

theorem write_bind_keeps (change : State → State)
    (next : PUnit → Effect State Failure β)
    (keepsWrite : ∀ state, Kept state → Kept (change state))
    (keeps : ∀ done state, Kept state → Kept (after (next done) state)) (state : State)
    (held : Kept state) :
    Kept (after ((write change : Effect State Failure PUnit) >>= next) state) :=
  bind_keeps Kept (write change) next keepsWrite keeps state held

theorem after_check_bind (result : Except Failure α) (next : α → Effect State Failure β)
    (state : State) :
    after (check result >>= next) state =
      match result with
      | .ok value => after (next value) state
      | .error _ => state := by
  rw [after_bind]
  cases result <;> rfl

/-- A computation behind a read changes nothing, if it does so for what is
read. -/
theorem check_bind_unchanged (result : Except Failure α) (next : α → Effect State Failure β)
    (state : State) :
    after (check result >>= next) state = state ↔
      ∀ value, result = .ok value → after (next value) state = state := by
  rw [after_check_bind]
  cases result <;> simp

/-- A first part that changes nothing when it succeeds is asked for its own change. -/
theorem bind_unchanged
    (kept : ∀ value, outcome first state = .ok value → after first state = state) :
    after (first >>= next) state = state ↔
      after first state = state ∧
        ∀ value, outcome first state = .ok value → after (next value) state = state := by
  rw [after_bind]
  cases succeeds : outcome first state with
  | error failure => simp
  | ok value =>
    have same := kept value succeeds
    simp [same]

theorem forM_keeps (body : α → Effect State Failure PUnit)
    (list : List α)
    (keeps : ∀ element ∈ list, ∀ state, Kept state → Kept (after (body element) state))
    (state : State) (held : Kept state) : Kept (after (forM list body) state) := by
  induction list generalizing state with
  | nil => exact held
  | cons head tail ih =>
    rw [List.forM_cons, after_bind]
    have step := keeps head List.mem_cons_self state held
    split
    · apply ih _ _ step
      intro element member
      exact keeps element (List.mem_cons_of_mem head member)
    · exact step

end Rules

end ZenonCore.Effects
