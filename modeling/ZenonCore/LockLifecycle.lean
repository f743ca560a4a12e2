import ZenonCore.LockAuthority

/-!
# How long an input is locked

The cleanup frees the inputs of the request on record for an expired lock, which should be
those that are locked.
-/

namespace ZenonCore.LockLifecycle

open Primitives Chainstate Masternode ValueGate List
open SwiftTX LockAuthority Library.Maps
open Library.Interference
open Budget (exampleBudget)

/-- Every input is locked for a transaction that has a lock. -/
def HoldersHaveLocks (state : SwiftState) : Prop :=
  Everywhere (fun _ holder => holder ∈ state.mapTxLocks) state.mapLockedInputs

def lockExpired (view : SwiftView) (state : SwiftState) (txHash : Uint256) : Bool :=
  (state.mapTxLocks.lookup txHash).any (hasExpired view)

/-- The cleanup frees the inputs locked for the transactions of expired locks,
and no others. -/
def CleansExactly (view : SwiftView) (state : SwiftState) : Prop :=
  ∀ outpoint, (cleanTransactionLocksList view state).mapLockedInputs.lookup outpoint =
    (state.mapLockedInputs.lookup outpoint).filter fun holder => !lockExpired view state holder

/-- The outpoint is an input of the request on record for an expired lock, when
there is a tip. -/
def OnRecord (view : SwiftView) (state : SwiftState) (outpoint : COutPoint) : Prop :=
  view.node.chainActive.isEmpty = false ∧ ∃ hash tx, lockExpired view state hash = true ∧
    state.mapTxLockReq.lookup hash = some tx ∧ outpoint ∈ tx.vin.map CTxIn.prevout

/-- A refused request has no free input, or a lock; the locked inputs of an expired lock are those
of its transaction. -/
def RecordsInputs (services : Services) (state : SwiftState) : Event → Prop
  | .ix view tx => isRefused services view state tx = true →
      (∀ txin ∈ tx.vin, txin.prevout ∈ state.mapLockedInputs) ∨
        tx.hash ∈ (createNewLock view state tx).1.mapTxLocks
  | .clean view => ∀ outpoint holder, state.mapLockedInputs.lookup outpoint = some holder →
      (OnRecord view state outpoint ↔ lockExpired view state holder = true)
  | _ => True

section Cleaning

variable (view : SwiftView) (state : SwiftState)

theorem expires_iff (hash : Uint256) :
    Expires view state.mapTxLocks.entries hash ↔ lockExpired view state hash = true := by
  unfold lockExpired
  rw [Option.any_eq_true]
  constructor
  · intro expires
    obtain ⟨entry, member, same, expired⟩ := expires
    rw [← same]
    exact ⟨entry.2, (mem_entries_iff state entry).mp member, expired⟩
  · intro found
    obtain ⟨lock, entry, expired⟩ := found
    exact ⟨⟨hash, lock⟩, (mem_entries_iff state ⟨hash, lock⟩).mpr entry, rfl, expired⟩

theorem releases_iff (tip : view.node.chainActive.isEmpty = false) (outpoint : COutPoint) :
    Releases view state.mapTxLocks.entries state outpoint ↔ OnRecord view state outpoint := by
  constructor
  · intro releases
    obtain ⟨entry, member, expired, tx, request, spends⟩ := releases
    refine ⟨tip, entry.1, tx, ?_, request, spends⟩
    exact (expires_iff view state entry.1).mp ⟨entry, member, rfl, expired⟩
  · intro onRecord
    obtain ⟨_, hash, tx, expired, request, spends⟩ := onRecord
    obtain ⟨entry, member, same, isExpired⟩ := (expires_iff view state hash).mpr expired
    rw [← same] at request
    exact ⟨entry, member, isExpired, tx, request, spends⟩

theorem clean_locked (keyed : Keyed state) (outpoint : COutPoint) :
    (OnRecord view state outpoint →
      (cleanTransactionLocksList view state).mapLockedInputs.lookup outpoint = none) ∧
    (¬ OnRecord view state outpoint →
      (cleanTransactionLocksList view state).mapLockedInputs.lookup outpoint =
        state.mapLockedInputs.lookup outpoint) := by
  cases tip : view.node.chainActive.isEmpty with
  | true =>
    have same : cleanTransactionLocksList view state = state := if_pos tip
    rw [same]
    constructor
    · intro onRecord
      have hasTip := onRecord.1
      rw [tip] at hasTip
      cases hasTip
    · exact fun _ => rfl
  | false =>
    have cleaned := cleanTransactionLocksList_cleaned view state keyed tip
    rw [← releases_iff view state tip outpoint]
    exact ⟨cleaned.released outpoint, cleaned.held outpoint⟩

theorem cleansExactly_iff (keyed : Keyed state) :
    CleansExactly view state ↔
      ∀ outpoint holder, state.mapLockedInputs.lookup outpoint = some holder →
        (OnRecord view state outpoint ↔ lockExpired view state holder = true) := by
  constructor
  · intro exactly outpoint holder held
    have after := exactly outpoint
    rw [held] at after
    obtain ⟨freed, kept⟩ := clean_locked view state keyed outpoint
    by_cases onRecord : OnRecord view state outpoint
    · rw [freed onRecord] at after
      cases expired : lockExpired view state holder with
      | true => exact ⟨fun _ => rfl, fun _ => onRecord⟩
      | false =>
        rw [Option.filter_some, expired] at after
        cases after
    · rw [kept onRecord, held] at after
      cases expired : lockExpired view state holder with
      | true =>
        rw [Option.filter_some, expired] at after
        cases after
      | false => exact ⟨fun found => absurd found onRecord, fun found => by cases found⟩
  · intro same outpoint
    obtain ⟨freed, kept⟩ := clean_locked view state keyed outpoint
    cases held : state.mapLockedInputs.lookup outpoint with
    | none =>
      by_cases onRecord : OnRecord view state outpoint
      · exact freed onRecord
      · exact (kept onRecord).trans held
    | some holder =>
      rw [Option.filter_some]
      cases expired : lockExpired view state holder with
      | true => exact freed ((same outpoint holder held).mpr expired)
      | false =>
        have notRecorded : ¬ OnRecord view state outpoint := by
          intro onRecord
          have also := (same outpoint holder held).mp onRecord
          rw [expired] at also
          cases also
        exact (kept notRecorded).trans held

end Cleaning

section Steps

variable (services : Services) (signer : Signer) (state : SwiftState)

theorem clean_locks (view : SwiftView) (keyed : Keyed state) (hash : Uint256) :
    (cleanTransactionLocksList view state).mapTxLocks.lookup hash = state.mapTxLocks.lookup hash ∨
      lockExpired view state hash = true ∧
        (cleanTransactionLocksList view state).mapTxLocks.lookup hash = none := by
  cases tip : view.node.chainActive.isEmpty with
  | true =>
    have same : cleanTransactionLocksList view state = state := if_pos tip
    rw [same]
    exact Or.inl rfl
  | false =>
    have cleaned := cleanTransactionLocksList_cleaned view state keyed tip
    by_cases expires : Expires view state.mapTxLocks.entries hash
    · exact Or.inr ⟨(expires_iff view state hash).mp expires, cleaned.removed hash expires⟩
    · exact Or.inl (cleaned.kept hash expires)

theorem step_keyed (event : Event) (keyed : Keyed state) :
    Keyed (step services signer state event) := by
  cases event with
  | ix view tx =>
    change Keyed (processRequest services signer view state tx)
    unfold Keyed
    rcases processRequest_effect services signer view state tx with
      same | ⟨created, _, _, all, ⟨requests, votes, same, _⟩ | refused⟩
    · rw [same]
      exact keyed
    · rw [same]
      exact all _ keyed rfl
    · obtain ⟨_, requests, rejected, locks, same, kept⟩ := refused
      rw [same]
      exact kept.all (all _ keyed rfl)
  | txlvote view ctx =>
    change Keyed (processVote signer view state ctx)
    unfold Keyed
    obtain same | ⟨_, same | recorded⟩ := processVote_effect signer view state ctx
    · rw [same]
      exact keyed
    · rw [same]
      exact keyed
    · obtain ⟨_, requests, locks, inputs, unknown, same, kept, _⟩ := recorded
      rw [same]
      apply kept.all
      exact recordVote_all view state ctx keyed rfl (fun _ _ _ own => own) fun _ _ own => own
  | request view tx =>
    change Keyed (requestLock view state tx)
    unfold Keyed requestLock
    rcases createNewLock_effect view
      { state with mapTxLockReq := insertNew state.mapTxLockReq tx.hash tx } tx with
      ⟨created, made, _, all⟩
    rw [made]
    exact all _ keyed rfl
  | clean view =>
    change Keyed (cleanTransactionLocksList view state)
    intro hash lock found
    obtain same | ⟨_, gone⟩ := clean_locks state view keyed hash
    · rw [same] at found
      exact keyed hash lock found
    · rw [gone] at found
      cases found

/-- An event that meets the condition leaves every input locked for a
transaction with a lock. -/
theorem step_holders (event : Event) (keyed : Keyed state) (holders : HoldersHaveLocks state)
    (condition : RecordsInputs services state event) :
    HoldersHaveLocks (step services signer state event) := by
  cases event with
  | ix view tx =>
    change HoldersHaveLocks (processRequest services signer view state tx)
    rcases processRequest_effect services signer view state tx with
      same | ⟨created, made, grows, _, ⟨requests, votes, same, _⟩ | refused⟩
    · rw [same]
      exact holders
    · rw [same]
      exact holders.mono fun outpoint holder present => grows holder present
    · obtain ⟨isRefused, requests, rejected, locks, same, kept⟩ := refused
      rw [same]
      intro outpoint holder found
      apply (kept.mem holder).mpr
      obtain before | ⟨listed, free, isOwn⟩ := insertAll_some _ _ _ _ _ found
      · exact grows holder (holders outpoint holder before)
      · obtain taken | hasLock := condition isRefused
        · obtain ⟨txin, input, prevout⟩ := mem_map.mp listed
          rw [← prevout] at free
          exact absurd (taken txin input) free
        · rw [made] at hasLock
          rw [isOwn]
          exact hasLock
  | txlvote view ctx =>
    change HoldersHaveLocks (processVote signer view state ctx)
    obtain same | ⟨_, same | recorded⟩ := processVote_effect signer view state ctx
    · rw [same]
      exact holders
    · rw [same]
      exact holders
    · obtain ⟨_, requests, locks, inputs, unknown, same, kept, _⟩ := recorded
      rw [same]
      intro outpoint holder found
      apply (kept.mem holder).mpr
      apply recordVote_mem
      obtain before | ⟨_, _, isOwn⟩ := insertAll_some _ _ _ _ _ found
      · exact Or.inl (holders outpoint holder before)
      · exact Or.inr isOwn
  | request view tx =>
    change HoldersHaveLocks (requestLock view state tx)
    unfold requestLock
    rcases createNewLock_effect view
      { state with mapTxLockReq := insertNew state.mapTxLockReq tx.hash tx } tx with
      ⟨created, made, grows, _⟩
    rw [made]
    exact holders.mono fun outpoint holder present => grows holder present
  | clean view =>
    change HoldersHaveLocks (cleanTransactionLocksList view state)
    have exactly := (cleansExactly_iff view state keyed).mpr condition
    intro outpoint holder found
    rw [exactly outpoint] at found
    obtain ⟨held, stays⟩ := Option.filter_eq_some_iff.mp found
    obtain same | ⟨expired, _⟩ := clean_locks state view keyed holder
    · rw [← AList.lookup_isSome, same, AList.lookup_isSome]
      exact holders outpoint holder held
    · rw [expired] at stays
      cases stays

/-- A request that does not meet the condition leaves an input locked without a
lock. -/
theorem refused_without_lock (view : SwiftView) (tx : CTransaction)
    (refused : isRefused services view state tx = true)
    (free : ∃ txin ∈ tx.vin, txin.prevout ∉ state.mapLockedInputs)
    (noLock : tx.hash ∉ (createNewLock view state tx).1.mapTxLocks) :
    ¬ HoldersHaveLocks (step services signer state (.ix view tx)) := by
  intro holders
  change HoldersHaveLocks (processRequest services signer view state tx) at holders
  rw [processRequest_refused services signer view state tx refused] at holders
  obtain ⟨created, made, _, _⟩ := createNewLock_effect view state tx
  rcases rejectRequest_effect view (createNewLock view state tx).1 tx with
    ⟨requests, rejected, locks, result, kept⟩
  rw [result] at holders
  obtain ⟨txin, input, notHeld⟩ := free
  have locked : (insertAll tx.hash (tx.vin.map CTxIn.prevout)
      (createNewLock view state tx).1.mapLockedInputs).lookup txin.prevout = some tx.hash := by
    rw [lookup_insertAll, made]
    dsimp only
    rw [AList.lookup_eq_none.mpr notHeld, Option.none_or, if_pos (mem_map_of_mem input)]
  exact noLock ((kept.mem tx.hash).mp (holders txin.prevout tx.hash locked))

end Steps

section Runs

variable (services : Services) (signer : Signer)

theorem run_keyed (events : List Event) :
    Keyed (events.foldl (step services signer) .empty) := by
  induction events using reverseRecOn with
  | nil => exact everywhere_empty
  | append_singleton events event ih =>
    rw [foldl_append]
    exact step_keyed services signer _ event ih

/-- Every input is locked for a transaction with a lock all along, and every cleanup frees exactly
the inputs of expired locks, if and only if all steps meet the condition. -/
theorem locks_outlive_holders_iff (events : List Event) :
    ((∀ before, before <+: events →
        HoldersHaveLocks (before.foldl (step services signer) .empty)) ∧
      ∀ before view, before ++ [.clean view] <+: events →
        CleansExactly view (before.foldl (step services signer) .empty)) ↔
    Guarded (step services signer) (fun _ _ => ())
      (fun _ state event => RecordsInputs services state event) () .empty events := by
  rw [guarded_iff_prefixes]
  constructor
  · intro lifecycle before event isPrefix
    obtain ⟨holders, exactly⟩ := lifecycle
    cases event with
    | ix view tx =>
      intro refused
      by_contra neither
      rw [not_or, not_forall] at neither
      obtain ⟨⟨txin, free⟩, noLock⟩ := neither
      rw [Classical.not_imp] at free
      have after := holders (before ++ [.ix view tx]) isPrefix
      rw [foldl_append] at after
      exact refused_without_lock services signer _ view tx refused ⟨txin, free⟩ noLock after
    | txlvote view ctx => trivial
    | request view tx => trivial
    | clean view =>
      exact (cleansExactly_iff view _ (run_keyed services signer before)).mp
        (exactly before view isPrefix)
  · intro condition
    have holders : ∀ before, before <+: events →
        HoldersHaveLocks (before.foldl (step services signer) .empty) := by
      intro before
      induction before using reverseRecOn with
      | nil => exact fun _ => everywhere_empty
      | append_singleton before event ih =>
        intro isPrefix
        have earlier := ih ((prefix_append before [event]).trans isPrefix)
        rw [foldl_append]
        exact step_holders services signer _ event (run_keyed services signer before) earlier
          (condition before event isPrefix)
    refine ⟨holders, ?_⟩
    intro before view isPrefix
    exact (cleansExactly_iff view _ (run_keyed services signer before)).mpr
      (condition before (.clean view) isPrefix)

end Runs

/-- Another payment of the same funds, some time after the first, which is in
the pool by then. -/
def laterView (seconds : Int) : SwiftView :=
  { swiftView with
    node := { swiftView.node with mempool := Mempool.CTxMemPool.empty.addUnchecked payment }
    here := { quietNode with getTime := quietNode.getTime + seconds } }

def secondPayment : CTransaction := { payment with hash := 24 }

/-- Ten minutes after the payment the pool refuses the second one. -/
def conflictingRequests : List Event :=
  [.ix swiftView payment, .ix (laterView 600) secondPayment]

/-- A refused request has locked an input without a lock; and the cleanup frees the input of a lock
that has ten minutes left. -/
theorem cleanup_frees_other_inputs :
    ¬ ∀ (services : Services) (signer : Signer) (events : List Event),
      HoldersHaveLocks (events.foldl (step services signer) .empty) ∧
      ∀ view, CleansExactly view (events.foldl (step services signer) .empty) := by
  intro lifecycle
  have exactly := (lifecycle mainnetServices exampleBudget.signer conflictingRequests).2
    (laterView 3601) { hash := 21, n := 0 }
  have freed : (cleanTransactionLocksList (laterView 3601) (conflictingRequests.foldl
      (step mainnetServices exampleBudget.signer) .empty)).mapLockedInputs.lookup
      { hash := 21, n := 0 } = none := by
    decide +kernel
  have held : (conflictingRequests.foldl (step mainnetServices exampleBudget.signer)
      .empty).mapLockedInputs.lookup { hash := 21, n := 0 } = some 24 := by
    decide +kernel
  have current : lockExpired (laterView 3601) (conflictingRequests.foldl
      (step mainnetServices exampleBudget.signer) .empty) 24 = false := by
    decide +kernel
  rw [freed, held, Option.filter_some, current] at exactly
  cases exactly

end ZenonCore.LockLifecycle
