import Mathlib.Data.List.Basic

/-!
# Programs that read lists by index

A read behind the end of a list stops a computation and names its place, so that "never reads
outside" is a property of the result.
-/

namespace ZenonCore.BoundedReads

open List

universe u

/-- Why a computation has no value: a read went outside, or it failed. -/
inductive Stop (Site Failure : Type u)
  | outside (site : Site)
  | failed (failure : Failure)
deriving DecidableEq, Repr

abbrev Reading (Site Failure : Type u) := Except (Stop Site Failure)

section Reads

variable {Site Failure α β : Type u}

def readAt (site : Site) (list : List α) (index : Nat) : Reading Site Failure α :=
  match list[index]? with
  | none => .error (.outside site)
  | some element => .ok element

def attempt (result : Except Failure α) : Reading Site Failure α :=
  match result with
  | .ok value => .ok value
  | .error failure => .error (.failed failure)

def Inside (run : Reading Site Failure α) : Prop := ∀ site, run ≠ .error (.outside site)

@[simp] theorem attempt_ok (value : α) :
    (attempt (.ok value) : Reading Site Failure α) = .ok value := rfl

@[simp] theorem attempt_eq_ok (result : Except Failure α) (value : α) :
    (attempt result : Reading Site Failure α) = .ok value ↔ result = .ok value := by
  cases result <;> simp [attempt]

@[simp] theorem attempt_outside (result : Except Failure α) (site : Site) :
    attempt result = .error (.outside site) ↔ False := by
  cases result <;> simp [attempt]

theorem readAt_eq_ok (site : Site) (list : List α) (index : Nat) (element : α) :
    (readAt site list index : Reading Site Failure α) = .ok element ↔
      list[index]? = some element := by
  unfold readAt
  cases list[index]? <;> simp

theorem readAt_outside (place site : Site) (list : List α) (index : Nat) :
    (readAt place list index : Reading Site Failure α) = .error (.outside site) ↔
      place = site ∧ list.length ≤ index := by
  unfold readAt
  cases found : list[index]? with
  | none =>
    have beyond := getElem?_eq_none_iff.mp found
    simp [beyond]
  | some element =>
    have inside := (List.getElem?_eq_some_iff.mp found).1
    simp only [reduceCtorEq, false_iff, not_and]
    omega

theorem bind_outside (first : Reading Site Failure α) (next : α → Reading Site Failure β)
    (site : Site) :
    first >>= next = .error (.outside site) ↔
      first = .error (.outside site) ∨
        ∃ value, first = .ok value ∧ next value = .error (.outside site) := by
  cases first with
  | error stop => simp [bind, Except.bind]
  | ok value => simp [bind, Except.bind]

theorem foldlM_outside (round : β → α → Reading Site Failure β) (list : List α) (start : β)
    (site : Site) :
    list.foldlM round start = .error (.outside site) ↔
      ∃ before element after reached, list = before ++ element :: after ∧
        before.foldlM round start = .ok reached ∧
        round reached element = .error (.outside site) := by
  induction list generalizing start with
  | nil => simp [pure, Except.pure]
  | cons head tail ih =>
    rw [foldlM_cons, bind_outside]
    constructor
    · intro stops
      obtain here | ⟨next, taken, later⟩ := stops
      · exact ⟨[], head, tail, start, rfl, rfl, here⟩
      · obtain ⟨before, element, after, reached, split, done, stop⟩ := (ih next).mp later
        refine ⟨head :: before, element, after, reached, by rw [split, cons_append], ?_,
          stop⟩
        rw [foldlM_cons, taken]
        exact done
    · intro splits
      obtain ⟨before, element, after, reached, split, done, stop⟩ := splits
      cases before with
      | nil =>
        cases split
        cases done
        exact Or.inl stop
      | cons first rest =>
        cases split
        rw [foldlM_cons] at done
        cases taken : round start head with
        | error other =>
          rw [taken] at done
          cases done
        | ok next =>
          rw [taken] at done
          right
          exact ⟨next, rfl, (ih next).mpr ⟨rest, element, after, reached, rfl, done, stop⟩⟩

theorem foldlM_ok_iff {Stopped Other : Type u} (first : β → α → Except Stopped β)
    (second : β → α → Except Other β) (list : List α) (start last : β)
    (alike : ∀ element ∈ list, ∀ before after,
      first before element = .ok after ↔ second before element = .ok after) :
    list.foldlM first start = .ok last ↔ list.foldlM second start = .ok last := by
  induction list generalizing start with
  | nil => simp [pure, Except.pure]
  | cons head tail ih =>
    have later : ∀ next, tail.foldlM first next = .ok last ↔
        tail.foldlM second next = .ok last := by
      intro next
      apply ih
      intro element member
      exact alike element (mem_cons_of_mem head member)
    have here := alike head mem_cons_self start
    rw [foldlM_cons, foldlM_cons]
    cases taken : first start head with
    | ok next =>
      rw [(here next).mp taken]
      exact later next
    | error stop =>
      have stopped : ∀ next, second start head ≠ .ok next := by
        intro next other
        rw [(here next).mpr other] at taken
        cases taken
      cases other : second start head with
      | ok next => exact absurd other (stopped next)
      | error stop => simp [bind, Except.bind]

end Reads

end ZenonCore.BoundedReads
