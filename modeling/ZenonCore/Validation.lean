import ZenonCore.Script

/-!
# Validation results

`CValidationState` and the results of the checks: a check that fails leaves
its verdict in the state, or throws, or stops at an assertion.
-/

namespace ZenonCore.Validation

open Script

inductive ModeState
  | modeValid
  | modeInvalid
  | modeError
deriving DecidableEq, Repr

structure CValidationState where
  mode : ModeState
  nDoS : Nat
  strRejectReason : String
  corruptionPossible : Bool
deriving DecidableEq, Repr

namespace CValidationState

def initial : CValidationState :=
  { mode := .modeValid, nDoS := 0, strRejectReason := "", corruptionPossible := false }

/-- `DoS`: reason and corruption flag are the last call's, the levels add up unless there was an
error. -/
def dos (state : CValidationState) (level : Nat) (strRejectReasonIn : String)
    (corruptionIn : Bool) : CValidationState :=
  let noted :=
    { state with strRejectReason := strRejectReasonIn, corruptionPossible := corruptionIn }
  if state.mode = .modeError then noted
  else { noted with nDoS := state.nDoS + level, mode := .modeInvalid }

def error (state : CValidationState) (strRejectReasonIn : String) : CValidationState :=
  { state with
    strRejectReason :=
      if state.mode = .modeValid then strRejectReasonIn else state.strRejectReason
    mode := .modeError }

def isInvalid (state : CValidationState) : Bool := state.mode = .modeInvalid

end CValidationState

inductive Failure
  | rejected (state : CValidationState)
  | fault (fault : Fault)
  | assertion
deriving DecidableEq, Repr

abbrev Validated := Except Failure

/-- `return state.DoS(level, ..., reason)` from a check's initial state. -/
def dos {α : Type} (level : Nat) (strRejectReason : String) : Validated α :=
  .error (.rejected (CValidationState.initial.dos level strRejectReason false))

def dosCorruption {α : Type} (level : Nat) (strRejectReason : String) : Validated α :=
  .error (.rejected (CValidationState.initial.dos level strRejectReason true))

/-- `return false` or `return error(...)`, which leave the state as it is. -/
def refuse {α : Type} : Validated α := .error (.rejected CValidationState.initial)

def abort {α : Type} (strRejectReason : String) : Validated α :=
  .error (.rejected (CValidationState.initial.error strRejectReason))

def require (condition : Bool) (otherwise : Validated Unit) : Validated Unit :=
  if condition then .ok () else otherwise

def onlyIf (condition : Bool) (check : Validated Unit) : Validated Unit :=
  if condition then check else .ok ()

/-- A caller that calls `DoS` once more when its callee has failed. -/
def orDos {α : Type} (result : Validated α) (level : Nat) (strRejectReason : String)
    (corruption : Bool) : Validated α :=
  match result with
  | .error (.rejected state) => .error (.rejected (state.dos level strRejectReason corruption))
  | other => other

/-- A range fault or an exception of a parser ends the check. -/
def ofFault {α : Type} : Except Fault α → Validated α
  | .ok value => .ok value
  | .error fault => .error (.fault fault)

def ofOption {α : Type} (value : Option α) (otherwise : Validated α) : Validated α :=
  match value with
  | some value => .ok value
  | none => otherwise

theorem bind_eq_ok {ε α β : Type} (first : Except ε α) (next : α → Except ε β) (result : β) :
    first >>= next = .ok result ↔ ∃ value, first = .ok value ∧ next value = .ok result := by
  cases first with
  | error failure => simp [bind, Except.bind]
  | ok value => simp [bind, Except.bind]

theorem foldlM_visits {ε α β : Type} (round : β → α → Except ε β) (list : List α)
    (first last : β) (done : list.foldlM round first = .ok last) (element : α)
    (member : element ∈ list) : ∃ before after, round before element = .ok after := by
  induction list generalizing first with
  | nil => cases member
  | cons head tail ih =>
    rw [List.foldlM_cons, bind_eq_ok] at done
    obtain ⟨next, taken, rest⟩ := done
    obtain here | later := List.mem_cons.mp member
    · exact ⟨first, next, here ▸ taken⟩
    · exact ih next rest later

theorem foldlM_keeps {ε α β : Type} (Kept : β → Prop) (round : β → α → Except ε β)
    (keeps : ∀ before element after, round before element = .ok after → Kept before → Kept after)
    (list : List α) (first last : β) (done : list.foldlM round first = .ok last)
    (start : Kept first) : Kept last := by
  induction list generalizing first with
  | nil =>
    cases done
    exact start
  | cons head tail ih =>
    rw [List.foldlM_cons, bind_eq_ok] at done
    obtain ⟨next, taken, rest⟩ := done
    exact ih next rest (keeps first head next taken start)

theorem foldlM_establishes {ε α β : Type} (Kept : β → Prop) (round : β → α → Except ε β)
    (keeps : ∀ before element after, round before element = .ok after → Kept before → Kept after)
    (list : List α) (first last : β) (done : list.foldlM round first = .ok last) (element : α)
    (member : element ∈ list)
    (brings : ∀ before after, round before element = .ok after → Kept after) : Kept last := by
  induction list generalizing first with
  | nil => cases member
  | cons head tail ih =>
    rw [List.foldlM_cons, bind_eq_ok] at done
    obtain ⟨next, taken, rest⟩ := done
    obtain here | later := List.mem_cons.mp member
    · exact foldlM_keeps Kept round keeps tail next last rest (brings first next (here ▸ taken))
    · exact ih next rest later

@[simp] theorem require_eq_ok (condition : Bool) (failure : Failure) (done : Unit) :
    require condition (.error failure) = .ok done ↔ condition = true := by
  unfold require
  split_ifs with holds <;> simp [holds]

@[simp] theorem onlyIf_eq_ok (condition : Bool) (check : Validated Unit) (done : Unit) :
    onlyIf condition check = .ok done ↔ (condition = true → check = .ok done) := by
  unfold onlyIf
  split_ifs with holds <;> simp [holds]

@[simp] theorem orDos_eq_ok {α : Type} (result : Validated α) (level : Nat)
    (strRejectReason : String) (corruption : Bool) (value : α) :
    orDos result level strRejectReason corruption = .ok value ↔ result = .ok value := by
  rcases result with (state | fault | _) | found <;> simp [orDos]

@[simp] theorem ofFault_eq_ok {α : Type} (result : Except Fault α) (value : α) :
    ofFault result = .ok value ↔ result = .ok value := by
  cases result <;> simp [ofFault]

@[simp] theorem ofOption_eq_ok {α : Type} (found : Option α) (failure : Failure) (value : α) :
    ofOption found (.error failure) = .ok value ↔ found = some value := by
  cases found <;> simp [ofOption]

end ZenonCore.Validation
