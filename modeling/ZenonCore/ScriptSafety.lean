import ZenonCore.ScriptAccesses
import ZenonCore.ScriptFlags

/-!
# The script engine is safe

The guards carry over from the opcodes to the whole evaluation, which ends at the latest with
the script.
-/

namespace ZenonCore.ScriptSafety

open CheckedStacks Interpreter Script ScriptAccesses
open ScriptEngine ScriptNum Strictness
open Library.Runs
open ScriptFlags (identityCrypto openChecker)

section Rounds

variable (crypto : Crypto) (flags : UInt32) (checker : BaseSignatureChecker)

theorem execute_agrees (opcode : UInt8) (fExec : Bool) (pc : CScript) (machine : Machine) :
    Agrees machine.stack (ScriptEngine.execute crypto flags checker opcode fExec pc machine)
      (Interpreter.execute crypto flags checker opcode fExec pc machine) := by
  unfold ScriptEngine.execute Interpreter.execute
  apply AgreesOr.ite _ (fun _ => AgreesOr.ok _)
  intro _
  apply AgreesOr.ite _ (fun _ => AgreesOr.ok _)
  intro _
  apply AgreesOr.ite _ (fun _ => AgreesOr.of_eq (lockTimeCase_regular flags checker machine))
  intro _
  apply AgreesOr.ite
  · intro _
    apply AgreesOr.bind (AgreesOr.of_eq (regular_demand_error _ _).symm)
    intro _ _
    exact AgreesOr.ok _
  intro _
  apply AgreesOr.ite _ (fun _ => AgreesOr.of_eq (openCase_regular opcode machine fExec))
  intro _
  apply AgreesOr.ite _ (fun _ => AgreesOr.of_eq (closeCase_regular opcode machine))
  intro _
  apply AgreesOr.ite
  · intro _
    obtain ⟨stack, altstack, vfExec, nOpCount, pbegincodehash⟩ := machine
    cases stack with
    | nil => exact AgreesOr.of_eq rfl
    | cons vch rest =>
      exact AgreesOr.of_eq
        (verifyCase_cons ⟨rest, altstack, vfExec, nOpCount, pbegincodehash⟩ vch rest)
  intro _
  apply AgreesOr.ite _ (fun _ => AgreesOr.error _)
  intro _
  apply AgreesOr.ite _ (fun _ => AgreesOr.of_eq (altstackCase_regular opcode machine))
  intro _
  apply AgreesOr.ite
  · intro member
    rw [stackCase_regular opcode member machine.stack]
    cases stackOp opcode machine.stack with
    | none => exact AgreesOr.of_eq rfl
    | some stack => exact AgreesOr.of_eq rfl
  intro _
  apply AgreesOr.ite _ (fun _ => pickCase_agrees flags opcode machine)
  intro _
  apply AgreesOr.ite _ (fun _ => AgreesOr.of_eq (equalCase_regular opcode machine))
  intro _
  apply AgreesOr.ite _
    (fun member => AgreesOr.of_eq (unaryCase_regular flags opcode machine member))
  intro _
  apply AgreesOr.ite _
    (fun member => AgreesOr.of_eq (binaryCase_regular flags opcode machine member))
  intro _
  apply AgreesOr.ite _ (fun _ => AgreesOr.of_eq (withinCase_regular flags machine))
  intro _
  apply AgreesOr.ite
  · intro _
    obtain ⟨stack, altstack, vfExec, nOpCount, pbegincodehash⟩ := machine
    cases stack with
    | nil => exact AgreesOr.of_eq rfl
    | cons vch rest => exact AgreesOr.of_eq rfl
  intro _
  apply AgreesOr.ite _ (fun _ => AgreesOr.ok _)
  intro _
  apply AgreesOr.ite _
    (fun _ => AgreesOr.of_eq (checkSigCase_regular crypto flags checker opcode machine))
  intro _
  apply AgreesOr.ite _ (fun _ => checkMultiSigCase_agrees crypto flags checker opcode machine)
  intro _
  exact AgreesOr.error _

variable (opcode : UInt8) (vchPushValue pc : CScript)

theorem pushOrSwitch_agrees (fExec : Bool)
    (machine : Machine) :
    Agrees machine.stack (pushOrSwitch crypto flags checker opcode vchPushValue pc fExec machine)
      (pushOrExecute crypto flags checker opcode vchPushValue pc fExec machine) := by
  unfold pushOrSwitch pushOrExecute
  apply AgreesOr.ite
  · intro _
    apply AgreesOr.bind (AgreesOr.of_eq (regular_demand_ensure _ _ _).symm)
    intro _ _
    exact AgreesOr.ok _
  · intro _
    apply AgreesOr.ite _ (fun _ => execute_agrees crypto flags checker opcode fExec pc machine)
    intro _
    exact AgreesOr.ok _

theorem evalOpcode_agrees (machine : Machine) :
    Agrees machine.stack (evalOpcode crypto flags checker opcode vchPushValue pc machine)
      (evalInstruction crypto flags checker opcode vchPushValue pc machine) := by
  have switched := pushOrSwitch_agrees crypto flags checker opcode vchPushValue pc
    (!machine.vfExec.contains false)
    { machine with
      nOpCount := if op16 < opcode then machine.nOpCount + 1 else machine.nOpCount }
  unfold evalOpcode evalInstruction
  dsimp only at switched ⊢
  apply AgreesOr.bind (AgreesOr.refuse_above _ _ _)
  intro _ _
  apply AgreesOr.bind (AgreesOr.refuse _ _)
  intro _ _
  apply AgreesOr.bind (AgreesOr.refuse _ _)
  intro _ _
  apply AgreesOr.bind switched
  intro after _
  apply AgreesOr.bind (AgreesOr.refuse_above _ _ _)
  intro _ _
  exact AgreesOr.ok after

theorem evalRound_agrees (state : CScript × Machine) :
    Agrees state.2.stack (evalRound crypto flags checker state)
      (evalStep crypto flags checker state) := by
  unfold evalRound evalStep
  cases getOp state.1 with
  | none => exact AgreesOr.error _
  | some found =>
    obtain ⟨opcode, vchPushValue, pc⟩ := found
    apply AgreesOr.bind
      (evalOpcode_agrees crypto flags checker opcode vchPushValue pc state.2)
    intro _ _
    exact AgreesOr.ok _

theorem evalOpcode_ok (machine after : Machine)
    (done : evalOpcode crypto flags checker opcode vchPushValue pc machine = .ok after) :
    vchPushValue.length ≤ maxScriptElementSize ∧
      after.stack.length + after.altstack.length ≤ 1000 ∧
      (machine.vfExec.contains false = false → opcode ≤ opPushData4 →
        after.stack = vchPushValue :: machine.stack) := by
  unfold evalOpcode at done
  simp only [CheckedStacks.bind_eq_ok, refuseIf_eq_ok, exists_and_left, exists_const,
    decide_eq_false_iff_not, Nat.not_lt] at done
  obtain ⟨small, _, _, executed, switched, size, same⟩ := done
  cases same
  refine ⟨small, size, ?_⟩
  intro executing isPush
  unfold pushOrSwitch at switched
  rw [executing, if_pos ⟨rfl, isPush⟩] at switched
  simp only [CheckedStacks.bind_eq_ok, refuseIf_eq_ok, exists_and_left, exists_const] at switched
  cases switched.2
  rfl

variable (state next : CScript × Machine)

theorem evalRound_ok (done : evalRound crypto flags checker state = .ok next) :
    ∃ opcode vchPushValue, getOp state.1 = some (opcode, vchPushValue, next.1) ∧
      evalOpcode crypto flags checker opcode vchPushValue next.1 state.2 = .ok next.2 := by
  unfold evalRound at done
  cases read : getOp state.1 with
  | none =>
    rw [read] at done
    cases done
  | some found =>
    obtain ⟨opcode, vchPushValue, pc⟩ := found
    rw [read] at done
    obtain ⟨machine, executed, same⟩ := (CheckedStacks.bind_eq_ok _ _ _).mp done
    cases same
    exact ⟨opcode, vchPushValue, rfl, executed⟩

theorem evalRound_shorter (done : evalRound crypto flags checker state = .ok next) : next.1.length < state.1.length := by
  obtain ⟨opcode, vchPushValue, read, _⟩ := evalRound_ok crypto flags checker state next done
  exact getOp_length state.1 opcode vchPushValue next.1 read

theorem evalRound_size (done : evalRound crypto flags checker state = .ok next) :
    next.2.stack.length + next.2.altstack.length ≤ 1000 := by
  obtain ⟨opcode, vchPushValue, _, executed⟩ := evalRound_ok crypto flags checker state next done
  exact (evalOpcode_ok crypto flags checker opcode vchPushValue next.1 state.2 next.2 executed).2.1

end Rounds

section Evaluation

variable (crypto : Crypto) (flags : UInt32) (checker : BaseSignatureChecker)

/-- The stack of a machine has a size that fits in an `int`. -/
def FitsInt (state : CScript × Machine) : Prop := state.2.stack.length < 2 ^ 31

theorem evalRound_regular (state : CScript × Machine) (fits : FitsInt state) :
    evalRound crypto flags checker state = regular (evalStep crypto flags checker state) :=
  (evalRound_agrees crypto flags checker state).eq_of_not (Nat.not_le.mpr fits)

theorem evalStep_fits (state after : CScript × Machine) (fits : FitsInt state)
    (stepped : evalStep crypto flags checker state = .ok after) : FitsInt after := by
  have done : evalRound crypto flags checker state = .ok after := by
    rw [evalRound_regular crypto flags checker state fits, stepped]
    rfl
  have size := evalRound_size crypto flags checker state after done
  unfold FitsInt
  omega

theorem loop_regular (fuel : Nat) (state : CScript × Machine) (fits : FitsInt state)
    (enough : state.1.length ≤ fuel) :
    whileLoop goesOn (evalRound crypto flags checker) fuel state =
      regular
        (loop (fun state => !state.1.isEmpty) (evalStep crypto flags checker) fuel state) := by
  apply whileLoop_regular goesOn (evalRound crypto flags checker) (evalStep crypto flags checker)
    FitsInt (fun state => state.1.length)
  · exact evalRound_regular crypto flags checker
  · exact evalStep_fits crypto flags checker
  · exact evalStep_shorter crypto flags checker
  · intro state none
    simp [goesOn, List.length_eq_zero_iff.mp none]
  · exact fits
  · exact enough

theorem loop_agrees (script : CScript) (machine : Machine) :
    Agrees machine.stack
      (whileLoop goesOn (evalRound crypto flags checker) script.length (script, machine))
      (loop (fun state => !state.1.isEmpty) (evalStep crypto flags checker) script.length
        (script, machine)) := by
  cases script with
  | nil => exact AgreesOr.ok _
  | cons opcode rest =>
    rw [List.length_cons, whileLoop, loop, if_pos (by rfl), if_pos (by rfl)]
    rcases evalRound_agrees crypto flags checker (opcode :: rest, machine) with
      same | ⟨large, failed⟩
    · left
      rw [same]
      cases stepped : evalStep crypto flags checker (opcode :: rest, machine) with
      | error failure => rfl
      | ok after =>
        rw [stepped] at same
        have shorter := evalRound_shorter crypto flags checker _ after same
        have size := evalRound_size crypto flags checker _ after same
        rw [List.length_cons] at shorter
        apply loop_regular crypto flags checker rest.length after
        · unfold FitsInt
          omega
        · omega
    · right
      rw [failed]
      exact ⟨large, rfl⟩

theorem evalScript_agrees (stack : List Bytes) (script : CScript) :
    Agrees stack (ScriptEngine.evalScript crypto flags checker stack script)
      (Interpreter.evalScript crypto flags checker stack script) := by
  unfold ScriptEngine.evalScript Interpreter.evalScript
  apply AgreesOr.bind (AgreesOr.refuse_above _ _ _)
  intro _ _
  apply AgreesOr.bind (loop_agrees crypto flags checker script (atStart stack script))
  intro ended _
  apply AgreesOr.bind (AgreesOr.of_eq (regular_ensure _ _).symm)
  intro _ _
  exact AgreesOr.ok _

/-- In a run of rounds each one shortens the script, and behind the first one the
stacks are small. -/
theorem rounds_bounded (start state : CScript × Machine) (rounds : List Unit)
    (reached : run (nextRound goesOn (evalRound crypto flags checker)) start rounds =
      some state) :
    rounds.length + state.1.length ≤ start.1.length ∧
      (rounds ≠ [] → state.2.stack.length + state.2.altstack.length ≤ 1000) := by
  constructor
  · apply run_length_le_measure _ (fun state => state.1.length) (fun _ => True) _ start state
      rounds trivial reached
    intro before event after _ taken
    have done := ((nextRound_eq_some _ _ before after event).mp taken).2
    exact ⟨trivial, evalRound_shorter crypto flags checker before after done⟩
  · intro some
    obtain none | ⟨before, event, split⟩ := List.eq_nil_or_concat rounds
    · exact absurd none some
    · rw [split, List.concat_eq_append, run_append] at reached
      obtain ⟨middle, _, last⟩ := Option.bind_eq_some_iff.mp reached
      obtain ⟨next, taken, same⟩ := (run_cons_some _ middle state event []).mp last
      cases same
      exact evalRound_size crypto flags checker middle state
        ((nextRound_eq_some _ _ middle state event).mp taken).2

/-- Every evaluation reaches no trap and ends within as many rounds as the script has bytes. Where
it goes on, the stacks have at most a thousand elements and an operand at most 520 bytes; it leaves
the stack that `Interpreter` gives. -/
theorem script_engine_safe (stack : List Bytes) (script : CScript) :
    Safe (ScriptEngine.evalScript crypto flags checker stack script) ∧
      (∀ state, Safe (evalRound crypto flags checker state)) ∧
      (∀ rounds state,
        run (nextRound goesOn (evalRound crypto flags checker)) (script, atStart stack script)
          rounds = some state →
        rounds.length ≤ script.length ∧
          (rounds ≠ [] → state.2.stack.length + state.2.altstack.length ≤ 1000)) ∧
      (∀ state next opcode vchPushValue pc,
        evalRound crypto flags checker state = .ok next →
        getOp state.1 = some (opcode, vchPushValue, pc) →
        vchPushValue.length ≤ 520 ∧
          (state.2.vfExec.contains false = false → opcode ≤ opPushData4 →
            next.2.stack = vchPushValue :: state.2.stack)) ∧
      (stack.length < 2 ^ 31 →
        ScriptEngine.evalScript crypto flags checker stack script =
          regular (Interpreter.evalScript crypto flags checker stack script)) := by
  have agrees := evalScript_agrees crypto flags checker stack script
  refine ⟨agrees.safe, fun state => (evalRound_agrees crypto flags checker state).safe, ?_, ?_, ?_⟩
  · intro rounds state reached
    have bounds := rounds_bounded crypto flags checker _ state rounds reached
    exact ⟨le_trans (Nat.le_add_right _ _) bounds.1, bounds.2⟩
  · intro state next opcode vchPushValue pc done read
    rcases evalRound_ok crypto flags checker state next done with
      ⟨found, operand, readFound, executed⟩
    rw [read] at readFound
    cases readFound
    have facts := evalOpcode_ok crypto flags checker opcode vchPushValue next.1 state.2 next.2
      executed
    exact ⟨facts.1, facts.2.2⟩
  · intro fits
    exact agrees.eq_of_not (Nat.not_le.mpr fits)

end Evaluation

def sumScript : CScript := [op1, op1 + 1, opAdd, op1 + 2, opEqual]

theorem sumScript_safe :
    ScriptEngine.evalScript identityCrypto 0 openChecker [] sumScript = .ok [[1]] ∧
      Safe (ScriptEngine.evalScript identityCrypto 0 openChecker [] sumScript) := by
  have evaluated : Interpreter.evalScript identityCrypto 0 openChecker [] sumScript =
      .ok [[1]] := by
    rfl
  have rule := script_engine_safe identityCrypto 0 openChecker [] sumScript
  rw [rule.2.2.2.2 (by decide), evaluated]
  exact ⟨rfl, regular_safe _⟩

end ZenonCore.ScriptSafety
