import ZenonCore.Library.Strictness

/-!
# Stacks with checked accesses

The top of the stack comes first. A trap is what must never happen: an access to an element
that is not there, a pop of an empty stack, an assertion that fails, an overflow, a loop that
does not end.
-/

namespace ZenonCore.CheckedStacks

open Strictness

universe u v w

inductive Trap
  | outOfRange
  | emptyPop
  | assertion
  | overflow
  | endless
deriving DecidableEq, Repr

inductive Halt (ε : Type u)
  | failed (failure : ε)
  | trapped (trap : Trap)
deriving DecidableEq, Repr

abbrev Checked (ε : Type u) (α : Type v) := Except (Halt ε) α

section Computations

variable {ε : Type u} {α β : Type v}

def trap (kind : Trap) : Checked ε α := .error (.trapped kind)

def fail (failure : ε) : Checked ε α := .error (.failed failure)

def regular : Except ε α → Checked ε α
  | .ok value => .ok value
  | .error failure => .error (.failed failure)

def refuseIf (condition : Bool) (failure : ε) : Checked ε PUnit :=
  if condition then fail failure else .ok ⟨⟩

def assert (condition : Bool) : Checked ε PUnit :=
  if condition then .ok ⟨⟩ else trap .assertion

def Safe (computation : Checked ε α) : Prop := ∀ kind, computation ≠ trap kind

@[simp] theorem regular_ok (value : α) : regular (.ok value : Except ε α) = .ok value := rfl

theorem regular_safe (computation : Except ε α) : Safe (regular computation) := by
  intro kind same
  cases computation with
  | ok value => cases same
  | error failure => cases same

theorem fail_safe (failure : ε) : Safe (fail failure : Checked ε α) := by
  intro kind same
  cases same

theorem regular_bind (computation : Except ε α) (next : α → Except ε β) :
    regular (computation >>= next) = regular computation >>= fun value => regular (next value) := by
  cases computation with
  | ok value => rfl
  | error failure => rfl

theorem regular_ite (condition : Prop) [Decidable condition] (first second : Except ε α) :
    regular (if condition then first else second) =
      if condition then regular first else regular second :=
  apply_ite regular condition first second

theorem regular_ensure (condition : Bool) (failure : ε) :
    regular (ensure condition failure) = refuseIf (!condition) failure := by
  cases condition with
  | true => rfl
  | false => rfl

theorem regular_demand_error (demanded : Bool) (failure : ε) :
    regular (demand demanded (.error failure)) = refuseIf demanded failure := by
  cases demanded with
  | true => rfl
  | false => rfl

theorem regular_demand_ensure (demanded condition : Bool) (failure : ε) :
    regular (demand demanded (ensure condition failure)) =
      refuseIf (demanded && !condition) failure := by
  cases demanded with
  | true => exact regular_ensure condition failure
  | false => rfl

theorem refuseIf_false (failure : ε) : refuseIf false failure = .ok ⟨⟩ := rfl

theorem bind_eq_ok (computation : Checked ε α) (next : α → Checked ε β) (result : β) :
    computation >>= next = .ok result ↔
      ∃ value, computation = .ok value ∧ next value = .ok result := by
  constructor
  · intro ends
    cases computation with
    | error halt => cases ends
    | ok value => exact ⟨value, rfl, ends⟩
  · rintro ⟨value, same, ends⟩
    rw [same]
    exact ends

theorem refuseIf_eq_ok (condition : Bool) (failure : ε) (done : PUnit) :
    refuseIf condition failure = .ok done ↔ condition = false := by
  cases condition with
  | false => exact iff_of_true rfl rfl
  | true =>
    apply iff_of_false
    · intro passed
      cases passed
    · intro same
      cases same

theorem ok_bind (value : α) (next : α → Checked ε β) :
    (Except.ok value : Checked ε α) >>= next = next value := rfl

end Computations

section Stacks

variable {ε : Type u} {α : Type v}

def back (stack : List α) : Int → Checked ε α
  | .ofNat _ => trap .outOfRange
  | .negSucc depth =>
    match stack[depth]? with
    | none => trap .outOfRange
    | some value => .ok value

def setBack (stack : List α) (value : α) : Int → Checked ε (List α)
  | .ofNat _ => trap .outOfRange
  | .negSucc depth =>
    if depth < stack.length then .ok (stack.set depth value) else trap .outOfRange

def popBack : List α → Checked ε (List α)
  | [] => trap .emptyPop
  | _ :: rest => .ok rest

/-- `swap(stack.at(stack.size() + i), stack.at(stack.size() + j))`. -/
def swapBack (stack : List α) (i j : Int) : Checked ε (List α) := do
  let first ← back stack i
  let second ← back stack j
  let half ← setBack stack second i
  setBack half first j

def eraseBack (stack : List α) (first last : Nat) : Checked ε (List α) :=
  if last ≤ first ∧ first ≤ stack.length then .ok (stack.take last ++ stack.drop first)
  else trap .outOfRange

def insertBack (stack : List α) (position : Nat) (value : α) : Checked ε (List α) :=
  if position ≤ stack.length then .ok (stack.take position ++ value :: stack.drop position)
  else trap .outOfRange

def popTimes : Nat → List α → Checked ε (List α)
  | 0, stack => .ok stack
  | count + 1, stack => popBack stack >>= popTimes count

theorem back_of_getElem (stack : List α) (depth : Nat) (value : α)
    (there : stack[depth]? = some value) :
    back stack (-(depth + 1 : Nat)) = (.ok value : Checked ε α) := by
  change back stack (Int.negSucc depth) = _
  rw [back, there]

theorem eraseBack_one (stack : List α) (depth : Nat) (inside : depth < stack.length) :
    eraseBack stack (depth + 1) depth = (.ok (stack.eraseIdx depth) : Checked ε (List α)) := by
  rw [eraseBack, if_pos ⟨Nat.le_succ depth, inside⟩, List.eraseIdx_eq_take_drop_succ]

theorem popTimes_drop (count : Nat) (stack : List α) (enough : count ≤ stack.length) :
    popTimes count stack = (.ok (stack.drop count) : Checked ε (List α)) := by
  induction count generalizing stack with
  | zero => rfl
  | succ count ih =>
    cases stack with
    | nil => cases enough
    | cons value rest =>
      rw [List.length_cons] at enough
      exact ih rest (Nat.le_of_succ_le_succ enough)

variable (stack front : List α) (value : α) (depth : Nat)

theorem getElem_of_prefix_drop (lies : value :: front <+: stack.drop depth) : stack[depth]? = some value := by
  obtain ⟨rest, same⟩ := lies
  have first := congrArg (fun list => list[0]?) same
  simpa [List.getElem?_drop] using first.symm

theorem prefix_drop_succ (lies : value :: front <+: stack.drop depth) : front <+: stack.drop (depth + 1) := by
  obtain ⟨rest, same⟩ := lies
  refine ⟨rest, ?_⟩
  have tails := congrArg List.tail same
  rw [List.tail_drop] at tails
  exact tails

end Stacks

section Loops

variable {ε : Type u} {σ : Type v}

/-- `while (more) step`: a trap if it has not ended after `fuel` rounds. -/
def whileLoop (more : σ → Bool) (step : σ → Checked ε σ) : Nat → σ → Checked ε σ
  | 0, state => if more state then trap .endless else .ok state
  | fuel + 1, state =>
    if more state then step state >>= whileLoop more step fuel else .ok state

variable (more : σ → Bool) (step : σ → Checked ε σ)

theorem whileLoop_done (fuel : Nat) (state : σ)
    (done : more state = false) : whileLoop more step fuel state = .ok state := by
  cases fuel with
  | zero => rw [whileLoop, done, if_neg Bool.false_ne_true]
  | succ fuel => rw [whileLoop, done, if_neg Bool.false_ne_true]

/-- A loop that has nothing to check in its rounds, and uses up a measure, has
nothing to check. -/
theorem whileLoop_regular (plain : σ → Except ε σ)
    (invariant : σ → Prop) (measure : σ → Nat)
    (same : ∀ state, invariant state → step state = regular (plain state))
    (keeps : ∀ state after, invariant state → plain state = .ok after → invariant after)
    (shrinks : ∀ state after, plain state = .ok after → measure after < measure state)
    (done : ∀ state, measure state = 0 → more state = false) (fuel : Nat) (state : σ)
    (holds : invariant state) (enough : measure state ≤ fuel) :
    whileLoop more step fuel state = regular (loop more plain fuel state) := by
  induction fuel generalizing state with
  | zero =>
    rw [whileLoop, done state (Nat.le_zero.mp enough)]
    rfl
  | succ fuel ih =>
    rw [whileLoop, loop]
    by_cases goesOn : more state = true
    · rw [if_pos goesOn, if_pos goesOn, same state holds, regular_bind]
      cases reached : plain state with
      | error failure => rfl
      | ok after =>
        have smaller := shrinks state after reached
        exact ih after (keeps state after holds reached) (by omega)
    · rw [if_neg goesOn, if_neg goesOn]
      rfl

end Loops

section Agreement

variable {ε : Type u} {α β : Type v}

/-- A computation does what another one does that has nothing to check, or fails
in a case that is set apart. -/
def AgreesOr (apart : Prop) (failure : ε) (computation : Checked ε α) (plain : Except ε α) :
    Prop :=
  computation = regular plain ∨ apart ∧ computation = fail failure

variable {apart : Prop} {failure : ε} {computation : Checked ε α} {plain : Except ε α}

theorem AgreesOr.of_eq (same : computation = regular plain) :
    AgreesOr apart failure computation plain := Or.inl same

theorem AgreesOr.ok (value : α) :
    AgreesOr apart failure (.ok value) (.ok value : Except ε α) := Or.inl rfl

theorem AgreesOr.error (stopped : ε) :
    AgreesOr apart failure (fail stopped) (.error stopped : Except ε α) := Or.inl rfl

theorem AgreesOr.refuse (condition : Bool) (stopped : ε) :
    AgreesOr apart failure (refuseIf condition stopped) (ensure (!condition) stopped) := by
  left
  rw [regular_ensure, Bool.not_not]

theorem AgreesOr.refuse_above (count upper : Nat) (stopped : ε) :
    AgreesOr apart failure (refuseIf (decide (upper < count)) stopped)
      (ensure (decide (count ≤ upper)) stopped) := by
  have same : decide (count ≤ upper) = !decide (upper < count) := by
    rw [← decide_not, decide_eq_decide]
    exact Nat.not_lt.symm
  rw [same]
  exact AgreesOr.refuse _ stopped

theorem AgreesOr.safe (agrees : AgreesOr apart failure computation plain) : Safe computation := by
  obtain same | ⟨_, failed⟩ := agrees
  · rw [same]
    exact regular_safe plain
  · rw [failed]
    exact fail_safe failure

theorem AgreesOr.eq_of_not (agrees : AgreesOr apart failure computation plain)
    (usual : ¬apart) : computation = regular plain := by
  obtain same | ⟨exception, _⟩ := agrees
  · exact same
  · exact absurd exception usual

theorem AgreesOr.bind (agrees : AgreesOr apart failure computation plain)
    {next : α → Checked ε β} {plainNext : α → Except ε β}
    (each : ∀ value, plain = .ok value →
      AgreesOr apart failure (next value) (plainNext value)) :
    AgreesOr apart failure (computation >>= next) (plain >>= plainNext) := by
  obtain same | ⟨exception, failed⟩ := agrees
  · cases reached : plain with
    | error stopped =>
      left
      rw [same, reached]
      rfl
    | ok value =>
      rw [same, reached]
      exact each value reached
  · right
    rw [failed]
    exact ⟨exception, rfl⟩

theorem AgreesOr.ite (condition : Prop) [Decidable condition]
    {first second : Checked ε α} {plainFirst plainSecond : Except ε α}
    (holds : condition → AgreesOr apart failure first plainFirst)
    (fails : ¬condition → AgreesOr apart failure second plainSecond) :
    AgreesOr apart failure (if condition then first else second)
      (if condition then plainFirst else plainSecond) := by
  by_cases case : condition
  · rw [if_pos case, if_pos case]
    exact holds case
  · rw [if_neg case, if_neg case]
    exact fails case

end Agreement

end ZenonCore.CheckedStacks
