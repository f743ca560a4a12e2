import ZenonCore.CheckQueueInvariant

/-!
# The verdict of `CCheckQueue::Wait`

Where the master may return, what it returns, and why it gets there: a measure of the
remaining work falls with every step that is not a spurious wake-up.
-/

namespace ZenonCore.CheckQueue

open Library.Runs List

section Wait

variable {T ι : Type} [DecidableEq ι] [Fintype ι]

/-- What `Wait` promises when it returns `fRet`, over the checks added since
it returned last and the queue it leaves. -/
structure Returns (check : T → Bool) (before after : CCheckQueue T ι) (fRet : Bool) : Prop where
  sequential : fRet = before.added.all check
  complete : fRet = true → before.performed.Perm before.added
  queueEmpty : after.queue = []
  nothingTodo : after.nTodo = 0
  allOk : after.fAllOk = true
  idle : isIdle after = true

variable (check : T → Bool) (state : CCheckQueue T ι)

omit [DecidableEq ι] in
/-- The master can return: every check was executed, or skipped after a failure `fAllOk` knows of.
-/
theorem finished (holds : Consistent check state)
    (master : state.threads none = .holding) (empty : state.queue = [])
    (done : state.nTodo = 0) :
    (∀ thread, (state.threads thread).pending = 0 ∧ (state.threads thread).failed = false) ∧
      (state.added : Multiset T) = (state.performed : Multiset T) + state.skipped ∧
      (state.fAllOk = false ↔ ∃ one ∈ state.performed, check one = false) := by
  have none_left := nothing_outstanding check state holds.toTallied empty done master
  have quiet : ∀ thread, (state.threads thread).pending = 0 ∧
      (state.threads thread).failed = false := by
    intro thread
    have given := none_left thread
    have wellFormed := holds.wellFormed thread
    cases phase : state.threads thread with
    | outside => exact ⟨rfl, rfl⟩
    | holding => exact ⟨rfl, rfl⟩
    | waiting notified => exact ⟨rfl, rfl⟩
    | locking nNow fOk =>
      rw [phase] at given wellFormed
      change nNow = 0 at given
      subst given
      exact ⟨rfl, by simpa [Phase.failed, Phase.WellFormed] using wellFormed⟩
    | working nNow fOk vChecks =>
      rw [phase] at given wellFormed
      change nNow = 0 at given
      change 1 ≤ nNow at wellFormed
      omega
  refine ⟨quiet, ?_, ?_⟩
  · have conserved := holds.conserved
    have nothing : ∑ thread, (state.threads thread).pending = 0 :=
      Finset.sum_eq_zero fun thread _ => (quiet thread).1
    rw [empty, nothing] at conserved
    simpa using conserved
  · rw [← holds.verdict]
    constructor
    · exact Or.inl
    · rintro (known | ⟨thread, failed⟩)
      · exact known
      · rw [(quiet thread).2] at failed
        cases failed

/-- A phase between two critical sections that owes nothing counts in
`nTotal` exactly if it counts in `nIdle`. -/
theorem inLoop_eq_idle (phase : Phase T) (unlocked : phase ≠ .holding)
    (nothing : phase.outstanding = 0) (wellFormed : phase.WellFormed) :
    phase.inLoop = phase.idle := by
  cases phase with
  | outside => rfl
  | holding => exact absurd rfl unlocked
  | waiting notified => rfl
  | locking nNow fOk =>
    change nNow = 0 at nothing
    subst nothing
    rfl
  | working nNow fOk vChecks =>
    change nNow = 0 at nothing
    change 1 ≤ nNow at wellFormed
    omega

theorem return_consistent
    (holds : Consistent check state) (master : state.threads none = .holding)
    (alone : ∀ thread, thread ≠ none → state.threads thread ≠ .holding)
    (empty : state.queue = []) (done : state.nTodo = 0) :
    Consistent check (loopHead none state) ∧
      Returns check state (loopHead none state) state.fAllOk := by
  obtain ⟨quiet, accounted, verdict⟩ := finished check state holds master empty done
  have none_left := nothing_outstanding check state holds.toTallied empty done master
  have inLoop := sum_update Phase.inLoop state.threads none .outside 1 0
    (by rw [master]; rfl) rfl
  have idle := sum_update Phase.idle state.threads none .outside 0 0
    (by rw [master]; rfl) rfl
  have total := holds.total
  have counted := holds.idle
  have still : ∀ thread,
      (Function.update state.threads none .outside thread : Phase T).pending = 0 ∧
      (Function.update state.threads none .outside thread : Phase T).outstanding = 0 ∧
      (Function.update state.threads none .outside thread : Phase T).failed = false :=
    forall_update (fun phase => phase.pending = 0 ∧ phase.outstanding = 0 ∧ phase.failed = false)
      state.threads none .outside ⟨rfl, rfl, rfl⟩
      fun thread => ⟨(quiet thread).1, none_left thread, (quiet thread).2⟩
  have owed : ∑ thread, (Function.update state.threads none .outside thread).outstanding = 0 :=
    Finset.sum_eq_zero fun thread _ => (still thread).2.1
  have equal : ∑ thread, (Function.update state.threads none .outside thread).inLoop =
      ∑ thread, (Function.update state.threads none .outside thread).idle := by
    apply Finset.sum_congr rfl
    intro thread _
    by_cases same : thread = none
    · simp [same, Phase.inLoop, Phase.idle]
    · rw [Function.update_of_ne same]
      exact inLoop_eq_idle _ (alone thread same) (none_left thread) (holds.wellFormed thread)
  simp only [add_zero] at inLoop idle
  simp only [loopHead, empty, done, if_true, true_or, and_self]
  constructor
  · constructor
    case toTallied =>
      constructor
      case quit => exact holds.quit
      case conserved =>
        have nothing : ∑ thread,
            (Function.update state.threads none .outside thread).pending = 0 :=
          Finset.sum_eq_zero fun thread _ => (still thread).1
        simp [nothing]
      case todo => simp [owed]
      case total =>
        simp only
        omega
      case idle => simpa only [idle] using holds.idle
      case covered => simp [owed]
      case batch =>
        intro thread
        rw [(still thread).2.1]
        exact Nat.zero_le _
      case wellFormed =>
        exact forall_update Phase.WellFormed state.threads none .outside trivial holds.wellFormed
      case verdict => simp [(still _).2.2]
      case skips => simp
      case fits => exact Or.inr (by simp)
    case drained => exact fun _ _ => rfl
    case awaited =>
      intro waits
      simp at waits
  · constructor
    case sequential =>
      have members : ∀ one, one ∈ state.added ↔ one ∈ state.performed ∨ one ∈ state.skipped := by
        intro one
        rw [← Multiset.mem_coe, accounted, Multiset.mem_add, Multiset.mem_coe, Multiset.mem_coe]
      cases result : state.fAllOk with
      | false =>
        obtain ⟨one, member, fails⟩ := verdict.mp result
        symm
        rw [all_eq_false]
        exact ⟨one, (members one).mpr (Or.inl member), by simp [fails]⟩
      | true =>
        symm
        rw [all_eq_true]
        intro one member
        have succeeds : ∀ other ∈ state.performed, check other = true := by
          intro other performed
          by_contra fails
          have known := verdict.mpr ⟨other, performed, by simpa using fails⟩
          rw [result] at known
          cases known
        obtain performed | skipped := (members one).mp member
        · exact succeeds one performed
        · obtain ⟨other, performed, fails⟩ := holds.skips (ne_nil_of_mem skipped)
          rw [succeeds other performed] at fails
          cases fails
    case complete =>
      intro result
      have nothing : state.skipped = [] := by
        by_contra skipped
        have known := verdict.mpr (holds.skips skipped)
        rw [result] at known
        cases known
      rw [nothing] at accounted
      exact (Multiset.coe_eq_coe.mp (by simpa using accounted)).symm
    case queueEmpty => rfl
    case nothingTodo => rfl
    case allOk => rfl
    case idle =>
      have agree : state.nTotal - 1 = state.nIdle := by omega
      simp [isIdle, agree]

variable (thread : Option ι)

theorem loopHead_consistent (holds : Consistent check state) (holding : state.threads thread = .holding)
    (alone : ∀ other, other ≠ thread → state.threads other ≠ .holding) :
    Consistent check (loopHead thread state) := by
  by_cases empty : state.queue = []
  · by_cases leave : (thread = none ∨ state.fQuit = true) ∧ state.nTodo = 0
    · have master : thread = none := by
        obtain master | quit := leave.1
        · exact master
        · rw [holds.quit] at quit
          cases quit
      subst master
      exact (return_consistent check state holds holding alone empty leave.2).1
    · simp only [loopHead, if_pos empty, if_neg leave]
      exact start_waiting_consistent check state thread holds holding empty
        fun master done => leave ⟨Or.inl master, done⟩
  · simp only [loopHead, if_neg empty]
    exact take_consistent check state thread holds holding empty

theorem perform_consistent (nNow : Nat) (fOk : Bool) (one : T) (rest : List T) (holds : Consistent check state)
    (working : state.threads thread = .working nNow fOk (one :: rest)) :
    Consistent check
      { state with
        performed := if fOk then state.performed ++ [one] else state.performed
        skipped := if fOk then state.skipped else state.skipped ++ [one]
        threads := Function.update state.threads thread
          (.working nNow (fOk && check one) rest) } := by
  set phase : Phase T := .working nNow (fOk && check one) rest
  have pending := sum_update Phase.pending state.threads thread phase
    (one ::ₘ (rest : Multiset T)) rest (by rw [working]; rfl) rfl
  have outstanding := sum_update Phase.outstanding state.threads thread phase nNow nNow
    (by rw [working]; rfl) rfl
  have inLoop := sum_update Phase.inLoop state.threads thread phase 1 1
    (by rw [working]; rfl) rfl
  have idle := sum_update Phase.idle state.threads thread phase 0 0
    (by rw [working]; rfl) rfl
  have owed : ∑ other, (Function.update state.threads thread phase other).outstanding =
      ∑ other, (state.threads other).outstanding := by omega
  have positive : 1 ≤ nNow := by
    have wellFormed := holds.wellFormed thread
    rwa [working] at wellFormed
  have small : nNow ≤ max 1 state.nBatchSize := by
    have batch := holds.batch thread
    rwa [working] at batch
  constructor
  case toTallied =>
    constructor
    case quit => exact holds.quit
    case conserved =>
      have split : ∑ other, (state.threads other).pending =
          (∑ other, (Function.update state.threads thread phase other).pending) + {one} := by
        have moved : ((∑ other, (state.threads other).pending) + (rest : Multiset T)) =
            ((∑ other, (Function.update state.threads thread phase other).pending) + {one}) +
              (rest : Multiset T) := by
          rw [← pending, ← Multiset.singleton_add]
          abel
        exact add_right_cancel moved
      have conserved := holds.conserved
      rw [split] at conserved
      cases fOk <;> simp only [conserved, Bool.false_eq_true, if_true, if_false,
        ← Multiset.coe_add, Multiset.coe_singleton] <;> abel
    case todo =>
      simp only [owed]
      exact holds.todo
    case total =>
      have total := holds.total
      simp only
      omega
    case idle =>
      have counted := holds.idle
      simp only
      omega
    case covered =>
      simp only [owed]
      exact holds.covered
    case batch =>
      exact forall_update (fun phase => phase.outstanding ≤ max 1 state.nBatchSize)
        state.threads thread phase small holds.batch
    case wellFormed =>
      exact forall_update Phase.WellFormed state.threads thread phase positive holds.wellFormed
    case verdict =>
      have verdict := holds.verdict
      have others : (∃ other, (state.threads other).failed = true) ↔
          fOk = false ∨ ∃ other, other ≠ thread ∧ (state.threads other).failed = true := by
        constructor
        · rintro ⟨other, failed⟩
          by_cases same : other = thread
          · subst same
            rw [working] at failed
            exact Or.inl (by simpa [Phase.failed] using failed)
          · exact Or.inr ⟨other, same, failed⟩
        · rintro (failed | ⟨other, _, failed⟩)
          · exact ⟨thread, by simp [working, Phase.failed, failed]⟩
          · exact ⟨other, failed⟩
      rw [others] at verdict
      rw [exists_update_failed]
      cases fOk with
      | false =>
        have known := verdict.mp (Or.inr (Or.inl rfl))
        have failedNow : phase.failed = true := by
          simp [phase, Phase.failed]
        simp only [Bool.false_eq_true, if_false, failedNow, true_or, or_true, true_iff]
        exact known
      | true =>
        have failedNow : phase.failed = !check one := by
          simp [phase, Phase.failed]
        simp only [if_true, failedNow, Bool.not_eq_true', mem_append,
          mem_singleton, or_and_right, exists_or, exists_eq_left]
        rw [← verdict]
        simp only [Bool.true_eq_false, false_or]
        rw [← or_assoc]
        exact or_right_comm
    case skips =>
      intro skipped
      cases fOk with
      | false =>
        have known := holds.verdict.mp (Or.inr ⟨thread, by simp [working, Phase.failed]⟩)
        simpa using known
      | true =>
        obtain ⟨other, member, fails⟩ := holds.skips (by simpa using skipped)
        exact ⟨other, by simp [member], fails⟩
    case fits => exact holds.fits
  case drained =>
    intro before waits
    exact holds.drained before (waits_of_update _ _ _ (by simp [phase]) before waits).2
  case awaited =>
    intro waits
    exact holds.awaited (waits_of_update _ _ _ (by simp [phase]) false waits).2

theorem clear_consistent (nNow : Nat) (fOk : Bool) (holds : Consistent check state)
    (working : state.threads thread = .working nNow fOk []) :
    Consistent check
      { state with threads := Function.update state.threads thread (.locking nNow fOk) } := by
  have positive : 1 ≤ nNow := by
    have wellFormed := holds.wellFormed thread
    rwa [working] at wellFormed
  obtain ⟨count, rfl⟩ : ∃ count, nNow = count + 1 := ⟨nNow - 1, by omega⟩
  have same : ∀ other, (Function.update state.threads thread
      (.locking (count + 1) fOk) other).profile = (state.threads other).profile := by
    intro other
    by_cases here : other = thread
    · subst here
      simp [working, Phase.profile, Phase.pending, Phase.outstanding, Phase.inLoop, Phase.idle,
        Phase.failed]
    · rw [Function.update_of_ne here]
  refine ⟨tallied_of_profile check state _ state.fRet holds.toTallied same ?_, ?_, ?_⟩
  · exact forall_update Phase.WellFormed state.threads thread _ trivial holds.wellFormed
  · intro before waits
    exact holds.drained before (waits_of_update _ _ _ (by simp) before waits).2
  · intro waits
    exact holds.awaited (waits_of_update _ _ _ (by simp) false waits).2

theorem enter_consistent (fRet : Option Bool) (holds : Consistent check state)
    (outside : state.threads thread = .outside) :
    Consistent check
      { state with
        fRet := fRet
        threads := Function.update state.threads thread (.locking 0 true) } := by
  have same : ∀ other, (Function.update state.threads thread
      (.locking 0 true) other).profile = (state.threads other).profile := by
    intro other
    by_cases here : other = thread
    · subst here
      simp [outside, Phase.profile, Phase.pending, Phase.outstanding, Phase.inLoop, Phase.idle,
        Phase.failed]
    · rw [Function.update_of_ne here]
  refine ⟨tallied_of_profile check state _ fRet holds.toTallied same ?_, ?_, ?_⟩
  · exact forall_update Phase.WellFormed state.threads thread _ rfl holds.wellFormed
  · intro before waits
    exact holds.drained before (waits_of_update _ _ _ (by simp) before waits).2
  · intro waits
    exact holds.awaited (waits_of_update _ _ _ (by simp) false waits).2

theorem add_consistent (vChecks : List T)
    (woken : ι) (holds : Consistent check state) (outside : state.threads none = .outside)
    (fits : Fits state (state.added.length + vChecks.length)) :
    Consistent check (add vChecks woken state) := by
  have cases : (add vChecks woken state).threads = notify (some woken) state.threads ∨
      (add vChecks woken state).threads = notifyAll state.threads ∨
      (add vChecks woken state).threads = state.threads := by
    simp only [add]
    split_ifs <;> simp
  generalize threadsEq : (add vChecks woken state).threads = threads at cases
  have same : ∀ other, (threads other).profile = (state.threads other).profile := by
    intro other
    rcases cases with chosen | chosen | chosen <;> rw [chosen]
    · exact notify_profile state.threads (some woken) other
    · exact notifyAll_profile state.threads other
  have wellFormed : ∀ other, (threads other).WellFormed := by
    intro other
    rcases cases with chosen | chosen | chosen <;> rw [chosen]
    · exact notify_wellFormed _ _ _ (holds.wellFormed other)
    · exact notifyAll_wellFormed _ _ (holds.wellFormed other)
    · exact holds.wellFormed other
  have master : threads none = .outside := by
    rcases cases with chosen | chosen | chosen <;> rw [chosen]
    · simp [notify_apply, outside]
    · exact outside
    · exact outside
  have tallied :=
    tallied_of_profile check state threads state.fRet holds.toTallied same wellFormed
  have shape : add vChecks woken state =
      { state with
        queue := state.queue ++ vChecks
        nTodo := (state.nTodo + vChecks.length) % 2 ^ 32
        threads := threads
        added := state.added ++ vChecks } := by
    rw [← threadsEq]
    rfl
  rw [shape]
  constructor
  case toTallied =>
    constructor
    case quit => exact tallied.quit
    case conserved =>
      have conserved := tallied.conserved
      simp only at conserved
      simp only [← Multiset.coe_add, conserved]
      abel
    case todo =>
      have todo := tallied.todo
      simp only at todo
      simp only [length_append]
      omega
    case total => exact tallied.total
    case idle => exact tallied.idle
    case covered =>
      have covered := tallied.covered
      simp only at covered
      simp only [length_append]
      omega
    case batch => exact tallied.batch
    case wellFormed => exact wellFormed
    case verdict => exact tallied.verdict
    case skips => exact tallied.skips
    case fits => simpa only [Fits, length_append] using fits
  case drained =>
    intro notified waits
    simp [master] at waits
  case awaited =>
    intro waits
    simp [master] at waits

def Unlocked (state : CCheckQueue T ι) : Prop :=
  ∀ thread, state.threads thread ≠ .holding

omit [Fintype ι] in
theorem cleanUp_alone (state : CCheckQueue T ι) (thread : Option ι) (nNow : Nat) (fOk : Bool)
    (unlocked : Unlocked state) (other : Option ι) (different : other ≠ thread) :
    (cleanUp thread nNow fOk state).threads other ≠ .holding := by
  have before := unlocked other
  simp only [cleanUp]
  split_ifs
  · simp only [notify_apply, Function.update_of_ne different]
    by_cases master : other = none
    · subst master
      rw [if_pos rfl, Function.update_of_ne different]
      cases phase : state.threads none <;> simp_all
    · rwa [if_neg master]
  · simpa only [Function.update_of_ne different] using before
  · simpa only [Function.update_of_ne different] using before

omit [Fintype ι] in
theorem loopHead_unlocked (state : CCheckQueue T ι) (thread : Option ι)
    (alone : ∀ other, other ≠ thread → state.threads other ≠ .holding) :
    Unlocked (loopHead thread state) := by
  have released : ∀ phase : Phase T, phase ≠ .holding →
      ∀ other, Function.update state.threads thread phase other ≠ .holding := by
    intro phase free other
    by_cases same : other = thread
    · subst same
      simpa using free
    · rw [Function.update_of_ne same]
      exact alone other same
  unfold Unlocked loopHead
  split_ifs
  all_goals exact released _ (by simp)

def AddsFit (state : CCheckQueue T ι) : Event T ι → Prop
  | .add vChecks _ => Fits state (state.added.length + vChecks.length)
  | _ => True

omit [Fintype ι] in
theorem critical_section (check : T → Bool) (state after : CCheckQueue T ι)
    (event : Event T ι) (thread : Option ι)
    (locks : event = .acquire thread ∨ event = .wake thread)
    (taken : step check state event = some after) :
    ∃ entered, after = loopHead thread entered ∧ entered.added = state.added ∧
      entered.performed = state.performed ∧
      ((∃ nNow fOk, state.threads thread = .locking nNow fOk ∧
          entered = cleanUp thread nNow fOk state) ∨
        ∃ notified, state.threads thread = .waiting notified ∧ entered =
          { state with
            nIdle := state.nIdle - 1
            threads := Function.update state.threads thread .holding }) := by
  obtain rfl | rfl := locks
  · simp only [step] at taken
    cases phase : state.threads thread <;> rw [phase] at taken <;> simp only [Option.some.injEq,
      reduceCtorEq] at taken
    case locking nNow fOk =>
      refine ⟨_, taken.symm, ?_, ?_, Or.inl ⟨nNow, fOk, rfl, rfl⟩⟩ <;>
        · simp only [cleanUp]
          split_ifs <;> rfl
  · simp only [step] at taken
    cases phase : state.threads thread <;> rw [phase] at taken <;> simp only [Option.some.injEq,
      reduceCtorEq] at taken
    case waiting notified =>
      exact ⟨_, taken.symm, rfl, rfl, Or.inr ⟨notified, rfl, rfl⟩⟩

theorem entered_consistent (check : T → Bool) (state entered : CCheckQueue T ι)
    (thread : Option ι) (holds : Consistent check state) (unlocked : Unlocked state)
    (enters : (∃ nNow fOk, state.threads thread = .locking nNow fOk ∧
        entered = cleanUp thread nNow fOk state) ∨
      ∃ notified, state.threads thread = .waiting notified ∧ entered =
        { state with
          nIdle := state.nIdle - 1
          threads := Function.update state.threads thread .holding }) :
    Consistent check entered ∧ entered.threads thread = .holding ∧
      ∀ other, other ≠ thread → entered.threads other ≠ .holding := by
  obtain ⟨nNow, fOk, locking, rfl⟩ | ⟨notified, waiting, rfl⟩ := enters
  · obtain ⟨consistent, holding⟩ := cleanUp_consistent check state thread nNow fOk holds locking
    exact ⟨consistent, holding, cleanUp_alone state thread nNow fOk unlocked⟩
  · refine ⟨wake_consistent check state thread notified holds waiting, by simp, ?_⟩
    intro other different
    simpa only [Function.update_of_ne different] using unlocked other

theorem step_consistent (event : Event T ι)
    (after : CCheckQueue T ι) (holds : Consistent check state ∧ Unlocked state)
    (fits : AddsFit state event) (taken : step check state event = some after) :
    Consistent check after ∧ Unlocked after := by
  obtain ⟨consistent, unlocked⟩ := holds
  have still : ∀ (thread : Option ι) (phase : Phase T), phase ≠ .holding → ∀ other,
      Function.update state.threads thread phase other ≠ .holding :=
    fun thread phase free => forall_update (· ≠ .holding) state.threads thread phase free unlocked
  have locks : ∀ thread, event = .acquire thread ∨ event = .wake thread →
      Consistent check after ∧ Unlocked after := by
    intro thread locking
    obtain ⟨entered, rfl, _, _, enters⟩ := critical_section check state after event thread
      locking taken
    obtain ⟨entering, holding, alone⟩ := entered_consistent check state entered thread
      consistent unlocked enters
    exact ⟨loopHead_consistent check entered thread entering holding alone,
      loopHead_unlocked entered thread alone⟩
  cases event with
  | add vChecks woken =>
    cases phase : state.threads none <;> simp only [step, phase, Option.some.injEq,
      reduceCtorEq] at taken
    subst taken
    refine ⟨add_consistent check state vChecks woken consistent phase fits, ?_⟩
    intro other
    have same := unlocked other
    simp only [add]
    split_ifs
    · rw [notify_apply]
      by_cases here : other = some woken
      · subst here
        rw [if_pos rfl]
        cases known : state.threads (some woken) <;> simp_all
      · rwa [if_neg here]
    · cases other with
      | none => exact same
      | some worker =>
        simp only [notifyAll]
        cases known : state.threads (some worker) <;> simp_all
    · exact same
  | wait =>
    cases phase : state.threads none <;> simp only [step, phase, Option.some.injEq,
      reduceCtorEq] at taken
    subst taken
    exact ⟨enter_consistent check state none none consistent phase, still _ _ (by simp)⟩
  | thread worker =>
    cases phase : state.threads (some worker) <;> simp only [step, phase, Option.some.injEq,
      reduceCtorEq] at taken
    subst taken
    exact ⟨enter_consistent check state (some worker) state.fRet consistent phase,
      still _ _ (by simp)⟩
  | acquire thread => exact locks thread (Or.inl rfl)
  | wake thread => exact locks thread (Or.inr rfl)
  | perform thread =>
    cases phase : state.threads thread with
    | working nNow fOk vChecks =>
      cases vChecks with
      | nil =>
        simp only [step, phase, Option.some.injEq] at taken
        subst taken
        exact ⟨clear_consistent check state thread nNow fOk consistent phase,
          still _ _ (by simp)⟩
      | cons one rest =>
        have performed :=
          perform_consistent check state thread nNow fOk one rest consistent phase
        cases fOk <;> simp only [step, phase, Option.some.injEq] at taken <;> subst taken
        · exact ⟨performed, still _ _ (by simp)⟩
        · exact ⟨performed, still _ _ (by simp)⟩
    | _ => simp [step, phase] at taken

theorem run_consistent (check : T → Bool) (nBatchSizeIn : Nat) (events : List (Event T ι))
    (state : CCheckQueue T ι)
    (fits : AllSteps (step check) AddsFit (construct T ι nBatchSizeIn) events)
    (reached : run (step check) (construct T ι nBatchSizeIn) events = some state) :
    Consistent check state ∧ Unlocked state :=
  invariant_of_guarded_run (step check) AddsFit (fun state => Consistent check state ∧
    Unlocked state) (step_consistent check) _ state events
    ⟨construct_consistent check nBatchSizeIn, by simp [Unlocked, construct]⟩ fits reached

omit [Fintype ι] in
theorem loopHead_other (state : CCheckQueue T ι) (thread other : Option ι)
    (different : other ≠ thread) :
    (loopHead thread state).threads other = state.threads other := by
  unfold loopHead
  split_ifs <;> simp only [Function.update_of_ne different]

omit [Fintype ι] in
theorem entered_outside (state entered : CCheckQueue T ι) (thread other : Option ι)
    (different : other ≠ thread)
    (enters : (∃ nNow fOk, state.threads thread = .locking nNow fOk ∧
        entered = cleanUp thread nNow fOk state) ∨
      ∃ notified, state.threads thread = .waiting notified ∧ entered =
        { state with
          nIdle := state.nIdle - 1
          threads := Function.update state.threads thread .holding })
    (outside : entered.threads other = .outside) : state.threads other = .outside := by
  obtain ⟨nNow, fOk, _, rfl⟩ | ⟨notified, _, rfl⟩ := enters
  · simp only [cleanUp] at outside
    split_ifs at outside
    · simp only [notify_apply, Function.update_of_ne different] at outside
      by_cases master : other = none
      · subst master
        rw [if_pos rfl, Function.update_of_ne different] at outside
        cases phase : state.threads none <;> rw [phase] at outside <;> simp_all
      · rwa [if_neg master] at outside
    · simpa only [Function.update_of_ne different] using outside
    · simpa only [Function.update_of_ne different] using outside
  · simpa only [Function.update_of_ne different] using outside

theorem step_returns (check : T → Bool) (state after : CCheckQueue T ι) (event : Event T ι)
    (consistent : Consistent check state) (unlocked : Unlocked state)
    (taken : step check state event = some after) (inside : state.threads none ≠ .outside)
    (returned : after.threads none = .outside) :
    ∃ fRet, after.fRet = some fRet ∧ Returns check state after fRet := by
  have locks : ∀ thread, event = .acquire thread ∨ event = .wake thread →
      ∃ fRet, after.fRet = some fRet ∧ Returns check state after fRet := by
    intro thread locking
    obtain ⟨entered, rfl, added, performed, enters⟩ := critical_section check state after event
      thread locking taken
    by_cases master : none = thread
    · subst master
      obtain ⟨entering, holding, alone⟩ := entered_consistent check state entered none
        consistent unlocked enters
      have leaves : entered.queue = [] ∧ entered.nTodo = 0 := by
        by_contra stays
        have going : (loopHead none entered).threads none ≠ .outside := by
          unfold loopHead
          by_cases empty : entered.queue = []
          · have busy : entered.nTodo ≠ 0 := fun done => stays ⟨empty, done⟩
            simp [empty, busy]
          · simp [empty]
        exact going returned
      obtain ⟨_, promise⟩ := return_consistent check entered entering holding alone
        leaves.1 leaves.2
      refine ⟨entered.fAllOk, by simp [loopHead, leaves.1, leaves.2], ?_⟩
      exact
        { sequential := by rw [← added]; exact promise.sequential
          complete := by rw [← added, ← performed]; exact promise.complete
          queueEmpty := promise.queueEmpty
          nothingTodo := promise.nothingTodo
          allOk := promise.allOk
          idle := promise.idle }
    · rw [loopHead_other entered thread none master] at returned
      exact absurd (entered_outside state entered thread none master enters returned) inside
  have unmoved : ∀ (thread : Option ι) (phase : Phase T), phase ≠ .outside →
      Function.update state.threads thread phase none ≠ .outside := by
    intro thread phase stays
    by_cases master : none = thread
    · subst master
      simpa using stays
    · rwa [Function.update_of_ne master]
  cases event with
  | add vChecks woken =>
    cases phase : state.threads none <;> simp [step, phase] at taken
    exact absurd phase inside
  | wait =>
    cases phase : state.threads none <;> simp [step, phase] at taken
    exact absurd phase inside
  | thread worker =>
    cases phase : state.threads (some worker) <;> simp only [step, phase, Option.some.injEq,
      reduceCtorEq] at taken
    subst taken
    exact absurd returned (unmoved (some worker) (.locking 0 true) (by simp))
  | acquire thread => exact locks thread (Or.inl rfl)
  | wake thread => exact locks thread (Or.inr rfl)
  | perform thread =>
    cases phase : state.threads thread with
    | working nNow fOk vChecks =>
      obtain _ | ⟨one, rest⟩ := vChecks
      · simp only [step, phase, Option.some.injEq] at taken
        subst taken
        exact absurd returned (unmoved thread (.locking nNow fOk) (by simp))
      · cases fOk <;> simp only [step, phase, Option.some.injEq] at taken <;> subst taken
        · exact absurd returned (unmoved thread (.working nNow false rest) (by simp))
        · exact absurd returned (unmoved thread (.working nNow (check one) rest) (by simp))
    | _ => simp [step, phase] at taken

/-- How much work is left at most: four for each check in the queue, and what each thread still does
with its batch. -/
def Phase.weight : Phase T → Nat
  | .outside => 3
  | .locking _ _ => 2
  | .holding => 1
  | .waiting notified => if notified then 1 else 0
  | .working _ _ vChecks => vChecks.length + 3

def remaining (state : CCheckQueue T ι) : Nat :=
  match state.threads none with
  | .outside => 0
  | _ => 1 + 4 * state.queue.length + ∑ thread, (state.threads thread).weight

/-- The steps while the master is in `Wait`, without spurious wake-ups. -/
def scheduled (check : T → Bool) (state : CCheckQueue T ι) (event : Event T ι) :
    Option (CCheckQueue T ι) :=
  match state.threads none, event with
  | .outside, _ => none
  | _, .wake thread =>
    match state.threads thread with
    | .waiting true => step check state event
    | _ => none
  | _, _ => step check state event

omit [Fintype ι] in
theorem scheduled_step (check : T → Bool) (state after : CCheckQueue T ι) (event : Event T ι)
    (taken : scheduled check state event = some after) :
    step check state event = some after ∧ state.threads none ≠ .outside ∧
      ∀ thread, event = .wake thread → state.threads thread = .waiting true := by
  unfold scheduled at taken
  split at taken
  · cases taken
  · rename_i thread inside
    cases phase : state.threads thread with
    | waiting notified =>
      cases notified with
      | true =>
        rw [phase] at taken
        refine ⟨taken, inside, ?_⟩
        intro other same
        cases same
        exact phase
      | false => simp [phase] at taken
    | _ => simp [phase] at taken
  · rename_i notWake inside
    exact ⟨taken, inside, fun thread same => absurd same (notWake thread)⟩

theorem cleanUp_weight (state : CCheckQueue T ι) (thread : Option ι) (nNow : Nat) (fOk : Bool)
    (locking : state.threads thread = .locking nNow fOk) :
    (cleanUp thread nNow fOk state).queue = state.queue ∧
      ∑ other, ((cleanUp thread nNow fOk state).threads other).weight ≤
        ∑ other, (state.threads other).weight := by
  have held := sum_update Phase.weight state.threads thread .holding 2 1
    (by rw [locking]; rfl) rfl
  have notified : ∀ threads : Option ι → Phase T,
      ∑ other, (notify none threads other).weight ≤ (∑ other, (threads other).weight) + 1 := by
    intro threads
    unfold notify
    cases phase : threads none with
    | waiting before =>
      have raised := sum_update Phase.weight threads none (.waiting true)
        (if before then 1 else 0) 1 (by rw [phase]; rfl) rfl
      simp only
      omega
    | _ => simp
  have first := notified (Function.update state.threads thread .holding)
  simp only [cleanUp]
  split_ifs
  · exact ⟨rfl, by simp only; omega⟩
  · exact ⟨rfl, by simp only; omega⟩
  · exact ⟨rfl, by simp only; omega⟩

theorem loopHead_weight (state : CCheckQueue T ι) (thread : Option ι)
    (quit : state.fQuit = false) (holding : state.threads thread = .holding) :
    (loopHead thread state).threads none = .outside ∨
      4 * (loopHead thread state).queue.length +
          ∑ other, ((loopHead thread state).threads other).weight <
        4 * state.queue.length + ∑ other, (state.threads other).weight := by
  by_cases empty : state.queue = []
  · by_cases leave : (thread = none ∨ state.fQuit = true) ∧ state.nTodo = 0
    · have master : thread = none := by simpa [quit] using leave.1
      subst master
      left
      simp [loopHead, empty, leave.2]
    · right
      have waits := sum_update Phase.weight state.threads thread (.waiting false) 1 0
        (by rw [holding]; rfl) rfl
      simp only [loopHead, if_pos empty, if_neg leave]
      omega
  · right
    obtain ⟨positive, _, available⟩ := batchSize_bounds state empty
    have takes := sum_update Phase.weight state.threads thread
      (.working (batchSize state) state.fAllOk (state.queue.reverse.take (batchSize state)))
      1 (batchSize state + 3) (by rw [holding]; rfl)
      (by simp [Phase.weight, available])
    simp only [loopHead, if_neg empty, length_take]
    omega

theorem scheduled_decreases (check : T → Bool) (state after : CCheckQueue T ι)
    (event : Event T ι) (consistent : Consistent check state) (unlocked : Unlocked state)
    (taken : scheduled check state event = some after) : remaining after < remaining state := by
  obtain ⟨stepped, inside, effective⟩ := scheduled_step check state after event taken
  have before : remaining state =
      1 + 4 * state.queue.length + ∑ thread, (state.threads thread).weight := by
    unfold remaining
    split
    · exact absurd ‹_› inside
    · rfl
  have bounded : ∀ queue : CCheckQueue T ι, remaining queue ≤
      1 + 4 * queue.queue.length + ∑ thread, (queue.threads thread).weight := by
    intro queue
    unfold remaining
    split
    · exact Nat.zero_le _
    · exact le_rfl
  have upper := bounded after
  have atHead : ∀ (entered : CCheckQueue T ι) (thread : Option ι),
      after = loopHead thread entered → Consistent check entered →
      entered.threads thread = .holding →
      4 * entered.queue.length + ∑ other, (entered.threads other).weight ≤
        4 * state.queue.length + ∑ other, (state.threads other).weight →
      remaining after < remaining state := by
    intro entered thread same entering holding noMore
    obtain returned | less := loopHead_weight entered thread entering.quit holding
    · rw [← same] at returned
      have zero : remaining after = 0 := by simp [remaining, returned]
      omega
    · rw [← same] at less
      omega
  have locks : ∀ thread, event = .acquire thread ∨ event = .wake thread →
      remaining after < remaining state := by
    intro thread locking
    obtain ⟨entered, same, _, _, enters⟩ := critical_section check state after event thread
      locking stepped
    obtain ⟨entering, holding, _⟩ := entered_consistent check state entered thread consistent
      unlocked enters
    refine atHead entered thread same entering holding ?_
    obtain ⟨nNow, fOk, phase, rfl⟩ | ⟨notified, phase, rfl⟩ := enters
    · obtain ⟨queue, weight⟩ := cleanUp_weight state thread nNow fOk phase
      rw [queue]
      omega
    · have awake : notified = true := by
        obtain rfl | rfl := locking
        · simp [step, phase] at stepped
        · have known := effective thread rfl
          rw [phase] at known
          simpa using known
      subst awake
      have held := sum_update Phase.weight state.threads thread .holding 1 1
        (by rw [phase]; rfl) rfl
      simp only
      omega
  cases event with
  | add vChecks woken =>
    cases phase : state.threads none <;> simp [step, phase] at stepped
    exact absurd phase inside
  | wait =>
    cases phase : state.threads none <;> simp [step, phase] at stepped
    exact absurd phase inside
  | thread worker =>
    cases phase : state.threads (some worker) <;> simp only [step, phase, Option.some.injEq,
      reduceCtorEq] at stepped
    have starts := sum_update Phase.weight state.threads (some worker) (.locking 0 true) 3 2
      (by rw [phase]; rfl) rfl
    subst stepped
    simp only at upper
    omega
  | acquire thread => exact locks thread (Or.inl rfl)
  | wake thread => exact locks thread (Or.inr rfl)
  | perform thread =>
    cases phase : state.threads thread with
    | working nNow fOk vChecks =>
      obtain _ | ⟨one, rest⟩ := vChecks
      · simp only [step, phase, Option.some.injEq] at stepped
        have clears := sum_update Phase.weight state.threads thread (.locking nNow fOk) 3 2
          (by rw [phase]; rfl) rfl
        subst stepped
        simp only at upper
        omega
      · have performs : ∀ verdict, (∑ other, (Function.update state.threads thread
            (.working nNow verdict rest) other).weight) + (rest.length + 4) =
            (∑ other, (state.threads other).weight) + (rest.length + 3) :=
          fun verdict => sum_update Phase.weight state.threads thread
            (.working nNow verdict rest) _ _ (by rw [phase]; rfl) rfl
        cases fOk <;> simp only [step, phase, Option.some.injEq] at stepped <;> subst stepped
        · have moved := performs false
          simp only at upper
          omega
        · have moved := performs (check one)
          simp only at upper
          omega
    | _ => simp [step, phase] at stepped

/-- While the master is in `Wait`, some thread can always go on: nobody waits
for a notification that was lost. -/
theorem scheduled_enabled
    (consistent : Consistent check state) (unlocked : Unlocked state)
    (inside : state.threads none ≠ .outside) :
    ∃ event, (scheduled check state event).isSome := by
  have others : ∀ thread event, (event = .acquire thread ∨ event = .perform thread) →
      (step check state event).isSome → (scheduled check state event).isSome := by
    intro thread event shape enabled
    unfold scheduled
    split
    · exact absurd ‹_› inside
    · rcases shape with shape | shape <;> cases shape
    · exact enabled
  have working : ∀ thread nNow fOk vChecks, state.threads thread = .working nNow fOk vChecks →
      (step check state (.perform thread)).isSome := by
    intro thread nNow fOk vChecks phase
    cases vChecks <;> cases fOk <;> simp [step, phase]
  cases master : state.threads none with
  | outside => exact absurd master inside
  | holding => exact absurd master (unlocked none)
  | locking nNow fOk =>
    exact ⟨.acquire none, others none _ (Or.inl rfl) (by simp [step, master])⟩
  | working nNow fOk vChecks =>
    exact ⟨.perform none, others none _ (Or.inr rfl) (working none nNow fOk vChecks master)⟩
  | waiting notified =>
    cases notified with
    | true =>
      exact ⟨.wake none, by simp [scheduled, step, master]⟩
    | false =>
      have busy := consistent.awaited master
      have todo := consistent.todo
      rw [consistent.drained false master] at todo
      have owing : ∑ thread, (state.threads thread).outstanding ≠ 0 := by
        intro zero
        rw [zero] at todo
        exact busy todo
      obtain ⟨thread, _, owes⟩ := Finset.exists_ne_zero_of_sum_ne_zero owing
      cases phase : state.threads thread with
      | locking nNow fOk =>
        exact ⟨.acquire thread, others thread _ (Or.inl rfl) (by simp [step, phase])⟩
      | working nNow fOk vChecks =>
        exact ⟨.perform thread, others thread _ (Or.inr rfl)
          (working thread nNow fOk vChecks phase)⟩
      | _ => simp [phase, Phase.outstanding] at owes

/-- `Wait` returns the verdict of sequential checking, loses no check when it returns true and
leaves a queue that is ready. Without spurious wake-ups at most `remaining` steps follow, and some
thread can always take one. -/
theorem wait_agrees_with_sequential_checking (check : T → Bool) (nBatchSizeIn : Nat)
    (events : List (Event T ι)) (state : CCheckQueue T ι)
    (fits : AllSteps (step check) AddsFit (construct T ι nBatchSizeIn) events)
    (reached : run (step check) (construct T ι nBatchSizeIn) events = some state) :
    (∀ event after, step check state event = some after → state.threads none ≠ .outside →
      after.threads none = .outside →
      ∃ fRet, after.fRet = some fRet ∧ Returns check state after fRet) ∧
    (∀ schedule after, run (scheduled check) state schedule = some after →
      schedule.length ≤ remaining state ∧
        (after.threads none = .outside ∨ ∃ event, (scheduled check after event).isSome)) := by
  obtain ⟨consistent, unlocked⟩ := run_consistent check nBatchSizeIn events state fits reached
  have keeps : ∀ (current : CCheckQueue T ι) event next, Consistent check current ∧ Unlocked current →
      scheduled check current event = some next →
      Consistent check next ∧ Unlocked next := by
    intro current event next holds taken
    obtain ⟨stepped, inside, _⟩ := scheduled_step check current next event taken
    refine step_consistent check current event next holds ?_ stepped
    cases event with
    | add vChecks woken =>
      cases phase : current.threads none <;> simp [step, phase] at stepped
      exact absurd phase inside
    | _ => trivial
  refine ⟨fun event after => step_returns check state after event consistent unlocked, ?_⟩
  intro schedule after scheduledRun
  have bound := run_length_le_measure (scheduled check) remaining
    (fun current : CCheckQueue T ι => Consistent check current ∧ Unlocked current)
    (fun current event next holds taken => ⟨keeps current event next holds taken,
      scheduled_decreases check current next event holds.1 holds.2 taken⟩)
    state after schedule (⟨consistent, unlocked⟩ : Consistent check state ∧ Unlocked state)
    scheduledRun
  obtain ⟨consistentAfter, unlockedAfter⟩ := invariant_of_run (scheduled check)
    (fun current => Consistent check current ∧ Unlocked current) keeps state after schedule
    ⟨consistent, unlocked⟩ scheduledRun
  refine ⟨by omega, ?_⟩
  by_cases outside : after.threads none = .outside
  · exact Or.inl outside
  · exact Or.inr (scheduled_enabled check after consistentAfter unlockedAfter outside)

omit [Fintype ι] in
theorem step_nBatchSize (check : T → Bool) (state after : CCheckQueue T ι) (event : Event T ι)
    (taken : step check state event = some after) : after.nBatchSize = state.nBatchSize := by
  have atHead : ∀ (thread : Option ι) (entered : CCheckQueue T ι),
      (loopHead thread entered).nBatchSize = entered.nBatchSize := by
    intro thread entered
    unfold loopHead
    split_ifs <;> rfl
  have cleaned : ∀ (thread : Option ι) nNow fOk,
      (cleanUp thread nNow fOk state).nBatchSize = state.nBatchSize := by
    intro thread nNow fOk
    unfold cleanUp
    split_ifs <;> rfl
  unfold step at taken
  split at taken <;> split at taken <;> simp only [Option.some.injEq, reduceCtorEq] at taken <;>
    subst taken
  all_goals first | rfl | rw [atHead, cleaned] | rw [atHead]

/-- The queue of the script checks never comes near the range of `nTodo`,
however many checks are added. -/
theorem script_check_queue_fits (check : T → Bool) (events : List (Event T ι))
    (workers : Fintype.card ι ≤ maxScriptCheckThreads) :
    AllSteps (step check) AddsFit (construct T ι scriptCheckBatchSize) events := by
  have all : ∀ state : CCheckQueue T ι, state.nBatchSize = scriptCheckBatchSize →
      AllSteps (step check) AddsFit state events := by
    induction events with
    | nil => exact fun _ _ => trivial
    | cons event events ih =>
      intro state size
      refine ⟨?_, fun next taken => ih next ?_⟩
      · cases event with
        | add vChecks woken =>
          left
          rw [size]
          calc Fintype.card ι * max 1 scriptCheckBatchSize
              ≤ maxScriptCheckThreads * max 1 scriptCheckBatchSize :=
                Nat.mul_le_mul_right _ workers
            _ < 2 ^ 32 := by decide
        | _ => trivial
      · rw [step_nBatchSize check state next event taken, size]
  exact all _ rfl

end Wait

/-- One worker and the master share two checks, of which the second fails. -/
theorem wait_reports_a_failed_check :
    ∃ before after : CCheckQueue Bool (Fin 1),
      before.added = [true, false] ∧ Returns id before after false := by
  obtain ⟨before, reached, inside, added, after, returns, outside, result⟩ :
      ∃ before, run (step id) (construct Bool (Fin 1) scriptCheckBatchSize)
        [.thread 0, .acquire (some 0), .add [true, false] 0, .wait, .acquire none,
          .wake (some 0), .perform none, .perform none, .acquire none, .perform (some 0),
          .perform (some 0), .acquire (some 0)] = some before ∧
        before.threads none ≠ .outside ∧ before.added = [true, false] ∧
        ∃ after, step id before (.wake none) = some after ∧ after.threads none = .outside ∧
          after.fRet = some false :=
    ⟨_, rfl, by decide, rfl, _, rfl, rfl, rfl⟩
  obtain ⟨fRet, same, promise⟩ := (wait_agrees_with_sequential_checking id
    scriptCheckBatchSize _ before (script_check_queue_fits id _ (by decide)) reached).1
    (.wake none) after returns inside outside
  rw [result] at same
  cases same
  exact ⟨before, after, added, promise⟩

end ZenonCore.CheckQueue
