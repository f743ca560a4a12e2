import ZenonCore.Library.Runs

/-!
# Checks that only restrict

The stricter of two computations restricts the laxer when the laxer returns whatever the
stricter returns.
-/

namespace ZenonCore.Strictness

universe u v

section Computations

variable {ε : Type u} {α β : Type v}

def Restricts (strict lax : Except ε α) : Prop :=
  ∀ result, strict = .ok result → lax = .ok result

theorem Restricts.refl (computation : Except ε α) : Restricts computation computation :=
  fun _ returned => returned

theorem Restricts.error (failure : ε) (lax : Except ε α) : Restricts (.error failure) lax := by
  intro result returned
  cases returned

theorem Restricts.bind {strict lax : Except ε α} {strictNext laxNext : α → Except ε β}
    (first : Restricts strict lax)
    (next : ∀ value, Restricts (strictNext value) (laxNext value)) :
    Restricts (strict >>= strictNext) (lax >>= laxNext) := by
  intro result returned
  cases reached : strict with
  | error failure =>
    rw [reached] at returned
    cases returned
  | ok value =>
    rw [reached] at returned
    rw [first value reached]
    exact next value result returned

theorem Restricts.after (first : Except ε α) {strictNext : α → Except ε β} {lax : Except ε β}
    (next : ∀ value, Restricts (strictNext value) lax) : Restricts (first >>= strictNext) lax := by
  cases first with
  | error failure => exact Restricts.error failure lax
  | ok value => exact next value

theorem Restricts.ite (condition : Prop) [Decidable condition]
    {strict lax strictElse laxElse : Except ε α} (holds : condition → Restricts strict lax)
    (fails : ¬condition → Restricts strictElse laxElse) :
    Restricts (if condition then strict else strictElse)
      (if condition then lax else laxElse) := by
  by_cases case : condition
  · rw [if_pos case, if_pos case]
    exact holds case
  · rw [if_neg case, if_neg case]
    exact fails case

def ensure (condition : Bool) (failure : ε) : Except ε PUnit :=
  if condition then .ok ⟨⟩ else .error failure

theorem ensure_eq_ok (condition : Bool) (failure : ε) :
    ensure condition failure = .ok ⟨⟩ ↔ condition = true := by
  cases condition with
  | false => exact iff_of_false (fun passed => by cases passed) Bool.false_ne_true
  | true => exact iff_of_true rfl rfl

def demand (demanded : Bool) (check : Except ε PUnit) : Except ε PUnit :=
  if demanded then check else .ok ⟨⟩

theorem Restricts.demand {strictly laxly : Bool} {strict lax : Except ε PUnit}
    (fewer : laxly = true → strictly = true) (check : Restricts strict lax) :
    Restricts (demand strictly strict) (demand laxly lax) := by
  intro result returned
  cases laxly with
  | false => rfl
  | true =>
    rw [fewer rfl] at returned
    exact check result returned

end Computations

section Loops

variable {ε : Type u} {σ : Type v}

def loop (more : σ → Bool) (step : σ → Except ε σ) : Nat → σ → Except ε σ
  | 0, state => .ok state
  | fuel + 1, state =>
    if more state then step state >>= loop more step fuel else .ok state

theorem Restricts.loop (more : σ → Bool) {strict lax : σ → Except ε σ}
    (step : ∀ state, Restricts (strict state) (lax state)) (fuel : Nat) (state : σ) :
    Restricts (Strictness.loop more strict fuel state) (Strictness.loop more lax fuel state) := by
  induction fuel generalizing state with
  | zero => exact Restricts.refl _
  | succ fuel ih =>
    apply Restricts.ite
    · intro _
      exact (step state).bind ih
    · intro _
      exact Restricts.refl _

variable (more : σ → Bool) (step : σ → Except ε σ)

theorem loop_keeps (Kept : σ → Prop)
    (keeps : ∀ state after, Kept state → step state = .ok after → Kept after) (fuel : Nat)
    (state after : σ) (held : Kept state) (ended : loop more step fuel state = .ok after) :
    Kept after := by
  induction fuel generalizing state with
  | zero =>
    cases ended
    exact held
  | succ fuel ih =>
    rw [loop] at ended
    split_ifs at ended
    · cases reached : step state with
      | error failure =>
        rw [reached] at ended
        cases ended
      | ok next =>
        rw [reached] at ended
        exact ih next (keeps state next held reached) ended
    · cases ended
      exact held

def nextRound (more : σ → Bool) (step : σ → Except ε σ) (state : σ) (_ : Unit) : Option σ :=
  if more state then (step state).toOption else none

theorem nextRound_eq_some (state next : σ)
    (round : Unit) :
    nextRound more step state round = some next ↔ more state = true ∧ step state = .ok next := by
  unfold nextRound
  cases more state with
  | false => simp
  | true => cases step state <;> simp [Except.toOption]

theorem loop_runs (fuel : Nat) (state after : σ)
    (ended : loop more step fuel state = .ok after) :
    ∃ rounds, Library.Runs.run (nextRound more step) state rounds = some after := by
  induction fuel generalizing state with
  | zero =>
    cases ended
    exact ⟨[], rfl⟩
  | succ fuel ih =>
    rw [loop] at ended
    split_ifs at ended with goesOn
    · cases reached : step state with
      | error failure =>
        rw [reached] at ended
        cases ended
      | ok next =>
        rw [reached] at ended
        obtain ⟨rounds, rest⟩ := ih next ended
        refine ⟨() :: rounds, ?_⟩
        apply (Library.Runs.run_cons_some _ state after () rounds).mpr
        exact ⟨next, (nextRound_eq_some more step state next ()).mpr ⟨goesOn, reached⟩, rest⟩
    · cases ended
      exact ⟨[], rfl⟩

/-- A loop whose rounds use up what is left of a measure ends by itself within
as many rounds as there is left. -/
theorem loop_ends (left : σ → Nat)
    (uses : ∀ state after, more state = true → step state = .ok after → left after < left state)
    (spent : ∀ state, left state = 0 → more state = false) (fuel : Nat) (state after : σ)
    (enough : left state ≤ fuel) (ended : loop more step fuel state = .ok after) :
    more after = false := by
  induction fuel generalizing state with
  | zero =>
    cases ended
    exact spent _ (Nat.le_zero.mp enough)
  | succ fuel ih =>
    rw [loop] at ended
    by_cases goesOn : more state = true
    · rw [if_pos goesOn] at ended
      cases reached : step state with
      | error failure =>
        rw [reached] at ended
        cases ended
      | ok next =>
        rw [reached] at ended
        have fewer := uses state next goesOn reached
        exact ih next (by omega) ended
    · rw [if_neg goesOn] at ended
      cases ended
      exact Bool.eq_false_iff.mpr goesOn

end Loops

end ZenonCore.Strictness
