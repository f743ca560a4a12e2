import Mathlib.Logic.Basic

/-!
# Computations that look things up

A computation that asks for values by keys gives the same over a table and over a state that
answers as the table does.
-/

namespace ZenonCore.Library.Lookups

universe u v w x

inductive Query (κ : Type u) (ν : Type v) (α : Type w)
  | done (value : α)
  | ask (key : κ) (next : ν → Query κ ν α)

namespace Query

variable {κ : Type u} {ν : Type v} {α : Type w} {σ : Type x}

def bind {β : Type*} : Query κ ν α → (α → Query κ ν β) → Query κ ν β
  | .done value, next => next value
  | .ask key later, next => .ask key fun value => (later value).bind next

def eval (table : κ → ν) : Query κ ν α → α
  | .done value => value
  | .ask key next => (next (table key)).eval table

def run (answer : σ → κ → ν × σ) : σ → Query κ ν α → α × σ
  | state, .done value => (value, state)
  | state, .ask key next => run answer (answer state key).2 (next (answer state key).1)

def AsksOnly (keys : κ → Prop) : Query κ ν α → Prop
  | .done _ => True
  | .ask key next => keys key ∧ ∀ value, (next value).AsksOnly keys

theorem asksOnly_bind {β : Type*} (keys : κ → Prop) (first : Query κ ν α)
    (next : α → Query κ ν β) (firstAsks : first.AsksOnly keys)
    (nextAsks : ∀ value, (next value).AsksOnly keys) : (first.bind next).AsksOnly keys := by
  induction first with
  | done value => exact nextAsks value
  | ask key later ih => exact ⟨firstAsks.1, fun value => ih value (firstAsks.2 value)⟩

theorem eval_bind {β : Type*} (table : κ → ν) (first : Query κ ν α) (next : α → Query κ ν β) :
    (first.bind next).eval table = (next (first.eval table)).eval table := by
  induction first with
  | done value => rfl
  | ask key later ih => exact ih (table key)

/-- A state that answers these keys as the table does, and keeps doing so after
each of them, can stand for the table. -/
theorem run_eq_eval (answer : σ → κ → ν × σ) (table : κ → ν) (keys : κ → Prop)
    (answers : σ → Prop)
    (right : ∀ state key, answers state → keys key → (answer state key).1 = table key)
    (kept : ∀ state key, answers state → keys key → answers (answer state key).2)
    (computation : Query κ ν α) (state : σ) (start : answers state)
    (asks : computation.AsksOnly keys) :
    (computation.run answer state).1 = computation.eval table := by
  induction computation generalizing state with
  | done value => rfl
  | ask key next ih =>
    unfold run eval
    rw [right state key start asks.1]
    exact ih _ _ (kept state key start asks.1) (asks.2 _)

end Query

end ZenonCore.Library.Lookups
