import Mathlib.Algebra.Group.Int.Defs
import Mathlib.Algebra.Group.Nat.Defs
import Mathlib.Logic.Function.Basic
import ZenonCore.Library.Runs

/-!
# The parallel check queue

`CCheckQueue` as a system of threads: each critical section of `Loop`, `Add` and `Wait` is one
atomic step, and so is each check.
-/

namespace ZenonCore.CheckQueue

/-- Where a thread stands in `Loop`, with its local variables. -/
inductive Phase (T : Type)
  /-- Not inside `Loop`. -/
  | outside
  /-- About to lock the mutex at the head of the do-loop. -/
  | locking (nNow : Nat) (fOk : Bool)
  /-- Holds the mutex, the clean-up of the previous round being done. -/
  | holding
  /-- Blocked in `cond.wait`. -/
  | waiting (notified : Bool)
  /-- Executes its batch without the mutex. -/
  | working (nNow : Nat) (fOk : Bool) (vChecks : List T)
deriving DecidableEq, Repr

/-- The fields of `CCheckQueue`, the threads, and the checks added since `Wait` returned last. -/
structure CCheckQueue (T ι : Type) where
  queue : List T
  nIdle : Int
  nTotal : Int
  fAllOk : Bool
  nTodo : Nat
  fQuit : Bool
  nBatchSize : Nat
  threads : Option ι → Phase T
  fRet : Option Bool
  added : List T
  performed : List T
  skipped : List T

/-- The constructor `CCheckQueue(nBatchSizeIn)`, before any thread runs. -/
def construct (T ι : Type) (nBatchSizeIn : Nat) : CCheckQueue T ι where
  queue := []
  nIdle := 0
  nTotal := 0
  fAllOk := true
  nTodo := 0
  fQuit := false
  nBatchSize := nBatchSizeIn
  threads := fun _ => .outside
  fRet := none
  added := []
  performed := []
  skipped := []

/-- `scriptcheckqueue(128)` and the most threads `-par` allows. -/
def scriptCheckBatchSize : Nat := 128

def maxScriptCheckThreads : Nat := 16

section Operations

variable {T ι : Type} [DecidableEq ι]

/-- `notify_one` on a condition variable at which only `thread` can wait. -/
def notify (thread : Option ι) (threads : Option ι → Phase T) : Option ι → Phase T :=
  match threads thread with
  | .waiting _ => Function.update threads thread (.waiting true)
  | _ => threads

def notifyAll (threads : Option ι → Phase T) : Option ι → Phase T
  | none => threads none
  | some worker =>
    match threads (some worker) with
    | .waiting _ => .waiting true
    | phase => phase

/-- The clean-up of the previous loop run, or the start of the first one. -/
def cleanUp (thread : Option ι) (nNow : Nat) (fOk : Bool) (state : CCheckQueue T ι) :
    CCheckQueue T ι :=
  let threads := Function.update state.threads thread .holding
  if nNow ≠ 0 then
    let nTodo := (state.nTodo + (2 ^ 32 - nNow % 2 ^ 32)) % 2 ^ 32
    { state with
      fAllOk := state.fAllOk && fOk
      nTodo := nTodo
      threads := if nTodo = 0 ∧ thread ≠ none then notify none threads else threads }
  else
    { state with nTotal := state.nTotal + 1, threads := threads }

/-- How many checks a thread takes, between one and `nBatchSize`; the division is one of unsigned
integers. -/
def batchSize (state : CCheckQueue T ι) : Nat :=
  max 1 (min state.nBatchSize
    (state.queue.length % 2 ^ 32 / ((state.nTotal + state.nIdle + 1) % 2 ^ 32).toNat))

/-- The rest of the critical section: return, which ends a round of the history, wait, or take a
batch from the back. -/
def loopHead (thread : Option ι) (state : CCheckQueue T ι) : CCheckQueue T ι :=
  if state.queue = [] then
    if (thread = none ∨ state.fQuit = true) ∧ state.nTodo = 0 then
      if thread = none then
        { state with
          nTotal := state.nTotal - 1
          fRet := some state.fAllOk
          fAllOk := true
          threads := Function.update state.threads thread .outside
          added := []
          performed := []
          skipped := [] }
      else
        { state with
          nTotal := state.nTotal - 1
          threads := Function.update state.threads thread .outside }
    else
      { state with
        nIdle := state.nIdle + 1
        threads := Function.update state.threads thread (.waiting false) }
  else
    let nNow := batchSize state
    { state with
      queue := state.queue.take (state.queue.length - nNow)
      threads := Function.update state.threads thread
        (.working nNow state.fAllOk (state.queue.reverse.take nNow)) }

/-- `Add`: one check wakes one worker (the operating system's choice), more
wake all of them. -/
def add (vChecks : List T) (woken : ι) (state : CCheckQueue T ι) : CCheckQueue T ι :=
  { state with
    queue := state.queue ++ vChecks
    nTodo := (state.nTodo + vChecks.length) % 2 ^ 32
    threads :=
      if vChecks.length = 1 then notify (some woken) state.threads
      else if 1 < vChecks.length then notifyAll state.threads
      else state.threads
    added := state.added ++ vChecks }

/-- `IsIdle`, which the constructor of `CCheckQueueControl` asserts. -/
def isIdle (state : CCheckQueue T ι) : Bool :=
  state.nTotal == state.nIdle && state.nTodo == 0 && state.fAllOk == true

inductive Event (T ι : Type)
  /-- The master calls `Add`. -/
  | add (vChecks : List T) (woken : ι)
  /-- The master calls `Wait`. -/
  | wait
  /-- A worker thread enters `Thread`. -/
  | thread (worker : ι)
  /-- A thread gets the mutex at the head of the do-loop. -/
  | acquire (thread : Option ι)
  /-- A thread comes back from `cond.wait`, notified or not. -/
  | wake (thread : Option ι)
  /-- A thread executes the next check of its batch, or clears the batch. -/
  | perform (thread : Option ι)
deriving DecidableEq, Repr

def step (check : T → Bool) (state : CCheckQueue T ι) : Event T ι → Option (CCheckQueue T ι)
  | .add vChecks woken =>
    match state.threads none with
    | .outside => some (add vChecks woken state)
    | _ => none
  | .wait =>
    match state.threads none with
    | .outside => some
        { state with
          fRet := none
          threads := Function.update state.threads none (.locking 0 true) }
    | _ => none
  | .thread worker =>
    match state.threads (some worker) with
    | .outside => some
        { state with threads := Function.update state.threads (some worker) (.locking 0 true) }
    | _ => none
  | .acquire thread =>
    match state.threads thread with
    | .locking nNow fOk => some (loopHead thread (cleanUp thread nNow fOk state))
    | _ => none
  | .wake thread =>
    match state.threads thread with
    | .waiting _ => some (loopHead thread
        { state with
          nIdle := state.nIdle - 1
          threads := Function.update state.threads thread .holding })
    | _ => none
  | .perform thread =>
    match state.threads thread with
    | .working nNow fOk [] => some
        { state with threads := Function.update state.threads thread (.locking nNow fOk) }
    | .working nNow true (check' :: rest) => some
        { state with
          performed := state.performed ++ [check']
          threads := Function.update state.threads thread (.working nNow (check check') rest) }
    | .working nNow false (check' :: rest) => some
        { state with
          skipped := state.skipped ++ [check']
          threads := Function.update state.threads thread (.working nNow false rest) }
    | _ => none

end Operations

end ZenonCore.CheckQueue
