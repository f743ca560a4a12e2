import Mathlib.Algebra.BigOperators.Group.Finset.Basic
import Mathlib.Algebra.Order.BigOperators.Group.Finset
import Mathlib.Algebra.BigOperators.Ring.Finset
import Mathlib.Data.Fintype.Option
import Mathlib.Data.Fintype.BigOperators
import Mathlib.Tactic
import ZenonCore.CheckQueue

/-!
# What the check queue keeps between two critical sections

`nTodo`, `nTotal` and `nIdle` are sums over the threads, and every check is in the queue, in a
batch, executed, or skipped after a failure.
-/

namespace ZenonCore.CheckQueue

open Function Finset

/-- The checks a thread took and has not executed or skipped yet. -/
def Phase.pending {T : Type} : Phase T → Multiset T
  | .working _ _ vChecks => vChecks
  | _ => 0

def Phase.outstanding {T : Type} : Phase T → Nat
  | .locking nNow _ => nNow
  | .working nNow _ _ => nNow
  | _ => 0

def Phase.inLoop {T : Type} : Phase T → Int
  | .outside => 0
  | .locking 0 _ => 0
  | _ => 1

def Phase.idle {T : Type} : Phase T → Int
  | .waiting _ => 1
  | _ => 0

/-- The thread has seen a failure it has not published in `fAllOk` yet. -/
def Phase.failed {T : Type} : Phase T → Bool
  | .locking _ fOk => !fOk
  | .working _ fOk _ => !fOk
  | _ => false

/-- A batch is never empty, and the first iteration has no failure to publish. -/
def Phase.WellFormed {T : Type} : Phase T → Prop
  | .locking 0 fOk => fOk = true
  | .working nNow _ _ => 1 ≤ nNow
  | _ => True

def Phase.Free {T : Type} (phase : Phase T) : Prop :=
  phase.pending = 0 ∧ phase.outstanding = 0 ∧ phase.failed = false

def Phase.profile {T : Type} (phase : Phase T) : Multiset T × Nat × Int × Int × Bool :=
  (phase.pending, phase.outstanding, phase.inLoop, phase.idle, phase.failed)

section Invariant

variable {T ι : Type} [DecidableEq ι] [Fintype ι]

/-- `nTodo` does not wrap around to zero: fewer than `2 ^ 32` checks are held, or were added since
`Wait`. -/
def Fits (state : CCheckQueue T ι) (count : Nat) : Prop :=
  Fintype.card ι * max 1 state.nBatchSize < 2 ^ 32 ∨ count < 2 ^ 32

/-- The counters and the history agree with what the threads hold. -/
structure Tallied (check : T → Bool) (state : CCheckQueue T ι) : Prop where
  quit : state.fQuit = false
  conserved : (state.added : Multiset T) = (state.queue : Multiset T) +
    ∑ thread, (state.threads thread).pending + (state.performed : Multiset T) +
      (state.skipped : Multiset T)
  todo : state.nTodo =
    (state.queue.length + ∑ thread, (state.threads thread).outstanding) % 2 ^ 32
  total : state.nTotal = ∑ thread, (state.threads thread).inLoop
  idle : state.nIdle = ∑ thread, (state.threads thread).idle
  covered : state.queue.length + ∑ thread, (state.threads thread).outstanding ≤
    state.added.length
  batch : ∀ thread, (state.threads thread).outstanding ≤ max 1 state.nBatchSize
  wellFormed : ∀ thread, (state.threads thread).WellFormed
  verdict : (state.fAllOk = false ∨ ∃ thread, (state.threads thread).failed = true) ↔
    ∃ one ∈ state.performed, check one = false
  skips : state.skipped ≠ [] → ∃ one ∈ state.performed, check one = false
  fits : Fits state state.added.length

/-- The invariant between two critical sections: a master that waits has nothing to take, and is
notified at the end. -/
structure Consistent (check : T → Bool) (state : CCheckQueue T ι) : Prop
    extends Tallied check state where
  drained : ∀ notified, state.threads none = .waiting notified → state.queue = []
  awaited : state.threads none = .waiting false → state.nTodo ≠ 0

omit [DecidableEq ι] in
theorem construct_consistent (check : T → Bool) (nBatchSizeIn : Nat) :
    Consistent check (construct T ι nBatchSizeIn) where
  quit := rfl
  conserved := by simp [construct, Phase.pending]
  todo := by simp [construct, Phase.outstanding]
  total := by simp [construct, Phase.inLoop]
  idle := by simp [construct, Phase.idle]
  covered := by simp [construct, Phase.outstanding]
  batch := by simp [construct, Phase.outstanding]
  wellFormed := by simp [construct, Phase.WellFormed]
  verdict := by simp [construct, Phase.failed]
  skips := by simp [construct]
  fits := Or.inr (by simp [construct])
  drained := by simp [construct]
  awaited := by simp [construct]

theorem sum_update {M : Type} [AddCommMonoid M] (value : Phase T → M)
    (threads : Option ι → Phase T) (thread : Option ι) (phase : Phase T) (old new : M)
    (was : value (threads thread) = old) (becomes : value phase = new) :
    (∑ other, value (update threads thread phase other)) + old =
      (∑ other, value (threads other)) + new := by
  have rest : ∑ other ∈ univ.erase thread,
      value (update threads thread phase other) =
        ∑ other ∈ univ.erase thread, value (threads other) := by
    apply sum_congr rfl
    intro other member
    rw [update_of_ne (ne_of_mem_erase member)]
  have before := add_sum_erase univ (fun other => value (threads other))
    (mem_univ thread)
  have after := add_sum_erase univ
    (fun other => value (update threads thread phase other)) (mem_univ thread)
  simp only [update_self] at after
  rw [← after, rest, ← before, was, becomes]
  abel

omit [DecidableEq ι] in
theorem sum_eq_of_forall {M : Type} [AddCommMonoid M] (value : Phase T → M)
    (threads threads' : Option ι → Phase T)
    (same : ∀ thread, value (threads' thread) = value (threads thread)) :
    ∑ thread, value (threads' thread) = ∑ thread, value (threads thread) :=
  sum_congr rfl fun thread _ => same thread

omit [Fintype ι] in
theorem exists_update_failed (threads : Option ι → Phase T) (thread : Option ι)
    (phase : Phase T) :
    (∃ other, (update threads thread phase other).failed = true) ↔
      phase.failed = true ∨ ∃ other, other ≠ thread ∧ (threads other).failed = true := by
  constructor
  · rintro ⟨other, failed⟩
    by_cases same : other = thread
    · subst same
      left
      simpa using failed
    · right
      exact ⟨other, same, by simpa [update_of_ne same] using failed⟩
  · rintro (failed | ⟨other, different, failed⟩)
    · exact ⟨thread, by simpa using failed⟩
    · exact ⟨other, by simpa [update_of_ne different] using failed⟩

omit [Fintype ι] in
theorem failed_update_quiet (threads : Option ι → Phase T) (thread : Option ι)
    (phase : Phase T) (was : (threads thread).failed = false) (becomes : phase.failed = false) :
    (∃ other, (update threads thread phase other).failed = true) ↔
      ∃ other, (threads other).failed = true := by
  rw [exists_update_failed]
  constructor
  · rintro (failed | ⟨other, _, failed⟩)
    · rw [becomes] at failed
      cases failed
    · exact ⟨other, failed⟩
  · rintro ⟨other, failed⟩
    by_cases same : other = thread
    · subst same
      rw [was] at failed
      cases failed
    · exact Or.inr ⟨other, same, failed⟩

omit [Fintype ι] in
theorem forall_update (holds : Phase T → Prop) (threads : Option ι → Phase T)
    (thread : Option ι) (phase : Phase T) (new : holds phase)
    (old : ∀ other, holds (threads other)) :
    ∀ other, holds (update threads thread phase other) := by
  intro other
  by_cases same : other = thread
  · subst same
    simpa using new
  · simpa [update_of_ne same] using old other

omit [Fintype ι] in
theorem waits_of_update (threads : Option ι → Phase T) (thread : Option ι) (phase : Phase T)
    (awake : ∀ notified, phase ≠ .waiting notified) (notified : Bool)
    (waits : update threads thread phase none = .waiting notified) :
    thread ≠ none ∧ threads none = .waiting notified := by
  by_cases master : thread = none
  · subst master
    rw [update_self] at waits
    exact absurd waits (awake notified)
  · rw [update_of_ne (Ne.symm master)] at waits
    exact ⟨master, waits⟩

omit [DecidableEq ι] in
theorem tallied_of_profile (check : T → Bool) (state : CCheckQueue T ι)
    (threads : Option ι → Phase T) (fRet : Option Bool) (holds : Tallied check state)
    (same : ∀ thread, (threads thread).profile = (state.threads thread).profile)
    (wellFormed : ∀ thread, (threads thread).WellFormed) :
    Tallied check { state with threads := threads, fRet := fRet } := by
  simp only [Phase.profile, Prod.mk.injEq] at same
  have pending := sum_eq_of_forall Phase.pending state.threads threads fun t => (same t).1
  have outstanding :=
    sum_eq_of_forall Phase.outstanding state.threads threads fun t => (same t).2.1
  have inLoop := sum_eq_of_forall Phase.inLoop state.threads threads fun t => (same t).2.2.1
  have idle := sum_eq_of_forall Phase.idle state.threads threads fun t => (same t).2.2.2.1
  have failed : ∀ thread, (threads thread).failed = (state.threads thread).failed :=
    fun t => (same t).2.2.2.2
  constructor
  case quit => exact holds.quit
  case conserved => simpa only [pending] using holds.conserved
  case todo => simpa only [outstanding] using holds.todo
  case total => simpa only [inLoop] using holds.total
  case idle => simpa only [idle] using holds.idle
  case covered => simpa only [outstanding] using holds.covered
  case batch =>
    intro thread
    simpa only [(same thread).2.1] using holds.batch thread
  case wellFormed => exact wellFormed
  case verdict => simpa only [failed] using holds.verdict
  case skips => exact holds.skips
  case fits => exact holds.fits

omit [Fintype ι] in
theorem notify_apply (threads : Option ι → Phase T) (thread other : Option ι) :
    notify thread threads other =
      if other = thread then
        match threads thread with
        | .waiting _ => .waiting true
        | phase => phase
      else threads other := by
  unfold notify
  cases phase : threads thread <;> by_cases same : other = thread <;>
    simp [same, phase]

omit [Fintype ι] in
theorem notify_profile (threads : Option ι → Phase T) (thread other : Option ι) :
    (notify thread threads other).profile = (threads other).profile := by
  rw [notify_apply]
  by_cases same : other = thread
  · subst same
    cases phase : threads other <;> simp [Phase.profile, Phase.pending, Phase.outstanding,
      Phase.inLoop, Phase.idle, Phase.failed]
  · simp [same]

omit [Fintype ι] in
theorem notify_wellFormed (threads : Option ι → Phase T) (thread other : Option ι)
    (wellFormed : (threads other).WellFormed) : (notify thread threads other).WellFormed := by
  rw [notify_apply]
  by_cases same : other = thread
  · subst same
    cases phase : threads other <;> simp_all [Phase.WellFormed]
  · simpa [same] using wellFormed

omit [DecidableEq ι] [Fintype ι] in
theorem notifyAll_profile (threads : Option ι → Phase T) (other : Option ι) :
    (notifyAll threads other).profile = (threads other).profile := by
  cases other with
  | none => rfl
  | some worker =>
    simp only [notifyAll]
    cases phase : threads (some worker) <;> simp [Phase.profile, Phase.pending,
      Phase.outstanding, Phase.inLoop, Phase.idle, Phase.failed]

omit [DecidableEq ι] [Fintype ι] in
theorem notifyAll_wellFormed (threads : Option ι → Phase T) (other : Option ι)
    (wellFormed : (threads other).WellFormed) : (notifyAll threads other).WellFormed := by
  cases other with
  | none => exact wellFormed
  | some worker =>
    simp only [notifyAll]
    cases phase : threads (some worker) <;> simp_all [Phase.WellFormed]

omit [DecidableEq ι] in
theorem outstanding_le_total (threads : Option ι → Phase T) (thread : Option ι) :
    (threads thread).outstanding ≤ ∑ other, (threads other).outstanding :=
  single_le_sum (f := fun other => (threads other).outstanding)
    (fun _ _ => Nat.zero_le _) (mem_univ thread)

omit [DecidableEq ι] in
/-- Where the master holds the mutex, the queue is empty and `nTodo` is zero, no thread gives back
more. -/
theorem nothing_outstanding (check : T → Bool) (state : CCheckQueue T ι)
    (holds : Tallied check state) (empty : state.queue = []) (done : state.nTodo = 0)
    (master : state.threads none = .holding) :
    ∀ thread, (state.threads thread).outstanding = 0 := by
  have remainder : (∑ thread, (state.threads thread).outstanding) % 2 ^ 32 = 0 := by
    have todo := holds.todo
    rw [done, empty] at todo
    simpa using todo.symm
  have bound : ∑ thread, (state.threads thread).outstanding < 2 ^ 32 := by
    obtain few | few := holds.fits
    · have workers : ∑ thread, (state.threads thread).outstanding ≤
          Fintype.card ι * max 1 state.nBatchSize := by
        rw [Fintype.sum_option, master]
        simp only [Phase.outstanding, Nat.zero_add]
        calc ∑ worker, (state.threads (some worker)).outstanding
            ≤ ∑ _worker : ι, max 1 state.nBatchSize :=
              sum_le_sum fun worker _ => holds.batch (some worker)
          _ = Fintype.card ι * max 1 state.nBatchSize := by simp
      omega
    · have covered := holds.covered
      omega
  have zero : ∑ thread, (state.threads thread).outstanding = 0 := by
    rwa [Nat.mod_eq_of_lt bound] at remainder
  intro thread
  have upper := outstanding_le_total state.threads thread
  omega

variable (check : T → Bool) (state : CCheckQueue T ι) (thread : Option ι)

/-- Giving a batch back: `nTodo` drops by its size, and its failure, if any, moves to `fAllOk`. -/
theorem give_back_tallied
    (nNow : Nat) (fOk : Bool) (holds : Tallied check state) (positive : nNow ≠ 0)
    (locking : state.threads thread = .locking nNow fOk) :
    Tallied check
      { state with
        fAllOk := state.fAllOk && fOk
        nTodo := (state.nTodo + (2 ^ 32 - nNow % 2 ^ 32)) % 2 ^ 32
        threads := update state.threads thread .holding } := by
  have joined : Phase.inLoop (.locking nNow fOk : Phase T) = 1 := by
    unfold Phase.inLoop
    split <;> simp_all
  have pending := sum_update Phase.pending state.threads thread .holding 0 0
    (by rw [locking]; rfl) rfl
  have outstanding := sum_update Phase.outstanding state.threads thread .holding nNow 0
    (by rw [locking]; rfl) rfl
  have inLoop := sum_update Phase.inLoop state.threads thread .holding 1 1
    (by rw [locking, joined]) rfl
  have idle := sum_update Phase.idle state.threads thread .holding 0 0
    (by rw [locking]; rfl) rfl
  simp only [add_zero] at pending outstanding idle
  have covered := holds.covered
  have todo := holds.todo
  constructor
  case quit => exact holds.quit
  case conserved => simpa only [pending] using holds.conserved
  case todo =>
    simp only
    omega
  case total =>
    have total := holds.total
    simp only
    omega
  case idle => simpa only [idle] using holds.idle
  case covered =>
    simp only
    omega
  case batch =>
    exact forall_update (fun phase => phase.outstanding ≤ max 1 state.nBatchSize)
      state.threads thread .holding (Nat.zero_le _) holds.batch
  case wellFormed =>
    exact forall_update Phase.WellFormed state.threads thread .holding trivial holds.wellFormed
  case verdict =>
    rw [← holds.verdict, exists_update_failed]
    constructor
    · rintro (published | published | ⟨other, _, failed⟩)
      · obtain old | new := Bool.and_eq_false_iff.mp published
        · exact Or.inl old
        · exact Or.inr ⟨thread, by simp [locking, Phase.failed, new]⟩
      · simp [Phase.failed] at published
      · exact Or.inr ⟨other, failed⟩
    · rintro (old | ⟨other, failed⟩)
      · left
        simp [old]
      · by_cases same : other = thread
        · subst same
          rw [locking] at failed
          left
          simp only [Phase.failed, Bool.not_eq_true'] at failed
          simp [failed]
        · exact Or.inr (Or.inr ⟨other, same, failed⟩)
  case skips => exact holds.skips
  case fits => exact holds.fits

theorem move_tallied
    (phase : Phase T) (nIdle nTotal : Int) (holds : Tallied check state)
    (before : (state.threads thread).Free) (after : phase.Free) (wellFormed : phase.WellFormed)
    (total : nTotal + (state.threads thread).inLoop = state.nTotal + phase.inLoop)
    (idle : nIdle + (state.threads thread).idle = state.nIdle + phase.idle) :
    Tallied check
      { state with
        nIdle := nIdle
        nTotal := nTotal
        threads := update state.threads thread phase } := by
  obtain ⟨noPending, noneOut, fine⟩ := before
  obtain ⟨staysPending, staysOut, staysFine⟩ := after
  have pending := sum_update Phase.pending state.threads thread phase 0 0 noPending staysPending
  have outstanding := sum_update Phase.outstanding state.threads thread phase 0 0 noneOut staysOut
  have inLoop := sum_update Phase.inLoop state.threads thread phase _ _ rfl rfl
  have idles := sum_update Phase.idle state.threads thread phase _ _ rfl rfl
  simp only [add_zero] at pending outstanding
  constructor
  case quit => exact holds.quit
  case conserved => simpa only [pending] using holds.conserved
  case todo => simpa only [outstanding] using holds.todo
  case total =>
    have counted := holds.total
    simp only
    omega
  case idle =>
    have counted := holds.idle
    simp only
    omega
  case covered => simpa only [outstanding] using holds.covered
  case batch =>
    apply forall_update (fun phase => phase.outstanding ≤ max 1 state.nBatchSize) state.threads
      thread phase _ holds.batch
    rw [staysOut]
    exact Nat.zero_le _
  case wellFormed =>
    exact forall_update Phase.WellFormed state.threads thread phase wellFormed holds.wellFormed
  case verdict =>
    rw [← holds.verdict, failed_update_quiet state.threads thread phase fine staysFine]
  case skips => exact holds.skips
  case fits => exact holds.fits

omit [DecidableEq ι] [Fintype ι] in
theorem holding_free : (.holding : Phase T).Free := ⟨rfl, rfl, rfl⟩

omit [DecidableEq ι] [Fintype ι] in
theorem waiting_free (notified : Bool) : (.waiting notified : Phase T).Free := ⟨rfl, rfl, rfl⟩

theorem join_tallied
    (fOk : Bool) (holds : Tallied check state)
    (locking : state.threads thread = .locking 0 fOk) :
    Tallied check
      { state with
        nTotal := state.nTotal + 1
        threads := update state.threads thread .holding } := by
  have good : fOk = true := by
    simpa [locking, Phase.WellFormed] using holds.wellFormed thread
  apply move_tallied check state thread .holding _ _ holds
  · rw [locking, good]
    exact ⟨rfl, rfl, rfl⟩
  · exact holding_free
  · trivial
  · rw [locking]
    exact add_zero _
  · rw [locking]
    rfl

theorem cleanUp_consistent
    (nNow : Nat) (fOk : Bool) (holds : Consistent check state)
    (locking : state.threads thread = .locking nNow fOk) :
    Consistent check (cleanUp thread nNow fOk state) ∧
      (cleanUp thread nNow fOk state).threads thread = .holding := by
  have waits_before := waits_of_update state.threads thread .holding (by simp)
  by_cases first : nNow = 0
  · subst first
    simp only [cleanUp, ne_eq, not_true_eq_false, if_false]
    refine ⟨⟨join_tallied check state thread fOk holds.toTallied locking, ?_, ?_⟩, by simp⟩
    · intro notified waits
      exact holds.drained notified (waits_before notified waits).2
    · intro waits
      exact holds.awaited (waits_before false waits).2
  · have given := give_back_tallied check state thread nNow fOk holds.toTallied first locking
    simp only [cleanUp, ne_eq, first, not_false_eq_true, if_true]
    by_cases last : (state.nTodo + (2 ^ 32 - nNow % 2 ^ 32)) % 2 ^ 32 = 0 ∧ ¬thread = none
    · rw [if_pos last]
      have master : update state.threads thread .holding none = state.threads none :=
        update_of_ne (Ne.symm last.2) _ _
      refine ⟨⟨tallied_of_profile check _ _ state.fRet given (notify_profile _ none)
        (fun other => notify_wellFormed _ none other (given.wellFormed other)), ?_, ?_⟩, ?_⟩
      · intro notified waits
        simp only [notify_apply, if_true, master] at waits
        cases phase : state.threads none with
        | waiting before => exact holds.drained before phase
        | _ => rw [phase] at waits; cases waits
      · intro waits
        simp only [notify_apply, if_true, master] at waits
        cases phase : state.threads none <;> rw [phase] at waits <;> cases waits
      · simp [notify_apply, last.2]
    · rw [if_neg last]
      refine ⟨⟨given, ?_, ?_⟩, by simp⟩
      · intro notified waits
        exact holds.drained notified (waits_before notified waits).2
      · intro waits zero
        exact last ⟨zero, (waits_before false waits).1⟩

theorem wake_consistent
    (notified : Bool) (holds : Consistent check state)
    (waiting : state.threads thread = .waiting notified) :
    Consistent check
      { state with
        nIdle := state.nIdle - 1
        threads := update state.threads thread .holding } := by
  constructor
  case toTallied =>
    apply move_tallied check state thread .holding _ _ holds.toTallied
    · rw [waiting]
      exact waiting_free notified
    · exact holding_free
    · trivial
    · rw [waiting]
      rfl
    · rw [waiting]
      change state.nIdle - 1 + 1 = state.nIdle + 0
      omega
  case drained =>
    intro before waits
    exact holds.drained before (waits_of_update _ _ _ (by simp) before waits).2
  case awaited =>
    intro waits
    exact holds.awaited (waits_of_update _ _ _ (by simp) false waits).2

omit [DecidableEq ι] [Fintype ι] in
theorem batchSize_bounds (state : CCheckQueue T ι) (nonempty : state.queue ≠ []) :
    1 ≤ batchSize state ∧ batchSize state ≤ max 1 state.nBatchSize ∧
      batchSize state ≤ state.queue.length := by
  have positive : 0 < state.queue.length := List.length_pos_of_ne_nil nonempty
  have share : state.queue.length % 2 ^ 32 /
      ((state.nTotal + state.nIdle + 1) % 2 ^ 32).toNat ≤ state.queue.length :=
    le_trans (Nat.div_le_self _ _) (Nat.mod_le _ _)
  unfold batchSize
  omega

omit [DecidableEq ι] [Fintype ι] in
theorem take_batch (queue : List T) (nNow : Nat) :
    (queue.take (queue.length - nNow) : Multiset T) + (queue.reverse.take nNow : Multiset T) =
      queue := by
  rw [List.take_reverse, Multiset.coe_reverse, Multiset.coe_add, List.take_append_drop]

theorem start_waiting_consistent (holds : Consistent check state)
    (holding : state.threads thread = .holding) (empty : state.queue = [])
    (busy : thread = none → state.nTodo ≠ 0) :
    Consistent check
      { state with
        nIdle := state.nIdle + 1
        threads := update state.threads thread (.waiting false) } := by
  constructor
  case toTallied =>
    apply move_tallied check state thread (.waiting false) _ _ holds.toTallied
    · rw [holding]
      exact holding_free
    · exact waiting_free false
    · trivial
    · rw [holding]
      rfl
    · rw [holding]
      exact add_zero _
  case drained => exact fun _ _ => empty
  case awaited =>
    intro waits
    by_cases master : thread = none
    · exact busy master
    · simp only [update_of_ne (Ne.symm master)] at waits
      exact holds.awaited waits

theorem take_consistent (holds : Consistent check state)
    (holding : state.threads thread = .holding) (nonempty : state.queue ≠ []) :
    Consistent check
      { state with
        queue := state.queue.take (state.queue.length - batchSize state)
        threads := update state.threads thread
          (.working (batchSize state) state.fAllOk
            (state.queue.reverse.take (batchSize state))) } := by
  obtain ⟨positive, small, available⟩ := batchSize_bounds state nonempty
  have split := take_batch state.queue (batchSize state)
  set nNow := batchSize state
  set phase : Phase T := .working nNow state.fAllOk (state.queue.reverse.take nNow)
  have pending := sum_update Phase.pending state.threads thread phase 0
    (state.queue.reverse.take nNow : Multiset T) (by rw [holding]; rfl) rfl
  have outstanding := sum_update Phase.outstanding state.threads thread phase 0 nNow
    (by rw [holding]; rfl) rfl
  have inLoop := sum_update Phase.inLoop state.threads thread phase 1 1
    (by rw [holding]; rfl) rfl
  have idle := sum_update Phase.idle state.threads thread phase 0 0
    (by rw [holding]; rfl) rfl
  simp only [add_zero] at pending outstanding idle
  have length : (state.queue.take (state.queue.length - nNow)).length =
      state.queue.length - nNow := by
    rw [List.length_take]
    omega
  constructor
  case toTallied =>
    constructor
    case quit => exact holds.quit
    case conserved =>
      have conserved := holds.conserved
      simp only [pending]
      rw [conserved, ← split]
      abel
    case todo =>
      have todo := holds.todo
      simp only [outstanding, length]
      rw [todo]
      congr 1
      omega
    case total =>
      have total := holds.total
      simp only
      omega
    case idle => simpa only [idle] using holds.idle
    case covered =>
      have covered := holds.covered
      simp only [outstanding, length]
      omega
    case batch =>
      exact forall_update (fun phase => phase.outstanding ≤ max 1 state.nBatchSize)
        state.threads thread phase small holds.batch
    case wellFormed =>
      exact forall_update Phase.WellFormed state.threads thread phase positive holds.wellFormed
    case verdict =>
      rw [← holds.verdict, exists_update_failed]
      constructor
      · rintro (published | published | ⟨other, _, failed⟩)
        · exact Or.inl published
        · exact Or.inl (by simpa [phase, Phase.failed] using published)
        · exact Or.inr ⟨other, failed⟩
      · rintro (old | ⟨other, failed⟩)
        · exact Or.inl old
        · refine Or.inr (Or.inr ⟨other, ?_, failed⟩)
          rintro rfl
          rw [holding] at failed
          cases failed
    case skips => exact holds.skips
    case fits => exact holds.fits
  case drained =>
    intro before waits
    have empty := holds.drained before (waits_of_update _ _ _ (by simp [phase]) before waits).2
    exact absurd empty nonempty
  case awaited =>
    intro waits
    exact holds.awaited (waits_of_update _ _ _ (by simp [phase]) false waits).2

end Invariant

end ZenonCore.CheckQueue
