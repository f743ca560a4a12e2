import ZenonCore.LockLifecycle

/-!
# The transactions that have asked for a lock

`ProcessConsensusVote` reads `mapTxLockReq` with `operator[]`, which files an empty
transaction for a refused request.
-/

namespace ZenonCore.LockRequests

open Primitives Chainstate Masternode SwiftTX
open ValueGate LockAuthority LockLifecycle
open Budget (exampleBudget)
open Library.Maps Library.Interference

def RequestsKeyed (state : SwiftState) : Prop :=
  Everywhere (fun hash tx => tx.hash = hash) state.mapTxLockReq

/-- A peer or the node itself has asked for a lock for the transaction. -/
def Requested (events : List Event) (tx : CTransaction) : Prop :=
  ∃ view, .ix view tx ∈ events ∨ .request view tx ∈ events

def isNewVote (signer : Signer) (view : SwiftView) (state : SwiftState) (ctx : CConsensusVote) :
    Bool :=
  view.listens && decide (ctx.getHash ∉ state.mapTxLockVote) && ctx.isVerified signer view

def completesLock (state : SwiftState) (ctx : CConsensusVote) : Bool :=
  (state.mapTxLocks.lookup ctx.txHash).any fun lock => (lock.addSignature ctx).isComplete

/-- The condition on an event: a new vote that completes a lock finds the
transaction among the requests. -/
def RequestKnown (signer : Signer) (state : SwiftState) : Event → Prop
  | .txlvote view ctx => isNewVote signer view state ctx = true → completesLock state ctx = true →
      ctx.txHash ∈ state.mapTxLockReq ∨ ctx.txHash = 0
  | _ => True

section Effects

variable (services : Services) (signer : Signer) (view : SwiftView) (state : SwiftState)

theorem createNewLock_requests (tx : CTransaction) :
    (createNewLock view state tx).1.mapTxLockReq = state.mapTxLockReq := by
  obtain ⟨created, made, _⟩ := createNewLock_effect view state tx
  rw [made]

theorem processRequest_requests (tx : CTransaction) :
    (processRequest services signer view state tx).mapTxLockReq = state.mapTxLockReq ∨
      (processRequest services signer view state tx).mapTxLockReq =
        insertNew state.mapTxLockReq tx.hash tx := by
  have created := createNewLock_requests view state tx
  unfold processRequest
  split
  · exact Or.inl rfl
  · dsimp only
    split
    · right
      unfold acceptRequest
      rcases doConsensusVote_effect signer view (createNewLock view state tx).1 tx
        (createNewLock view state tx).2 with ⟨votes, voted, _⟩
      rw [voted, ← created]
    · unfold rejectRequest
      dsimp only
      split
      · rcases checkForConflictingLocks_effect view.getTime (lockInputs tx.hash tx.vin
          { (createNewLock view state tx).1 with
            mapTxLockReqRejected :=
              insertNew (createNewLock view state tx).1.mapTxLockReqRejected tx.hash tx }) tx with
          ⟨locks, checked, _⟩
        split
        · rename_i after found
          left
          rw [found] at checked
          dsimp only at checked ⊢
          rw [checked, ← created]
          rfl
        · rename_i after found
          right
          rw [found] at checked
          dsimp only at checked ⊢
          rw [checked, ← created]
          rfl
      · exact Or.inl created

theorem recordVote_complete (ctx : CConsensusVote) :
    ((recordVote view state ctx).mapTxLocks.lookup ctx.txHash).any CTransactionLock.isComplete =
      completesLock state ctx := by
  unfold recordVote completesLock
  dsimp only
  rw [lookup_adjust, if_pos rfl, lookup_insertNew, if_pos rfl]
  cases state.mapTxLocks.lookup ctx.txHash with
  | none => rfl
  | some lock => rfl

theorem completeLock_requests (txHash : Uint256) :
    (completeLock view state txHash).mapTxLockReq =
      insertNew state.mapTxLockReq txHash emptyTransaction := by
  unfold completeLock
  dsimp only
  split
  · rfl
  · rename_i tx _
    rcases checkForConflictingLocks_effect view.getTime
      { state with mapTxLockReq := insertNew state.mapTxLockReq txHash emptyTransaction } tx with
      ⟨locks, checked, _⟩
    split
    · rename_i found
      rw [found] at checked
      exact congrArg SwiftState.mapTxLockReq checked
    · rename_i found
      rw [found] at checked
      exact congrArg SwiftState.mapTxLockReq checked

theorem processVote_requests (ctx : CConsensusVote) :
    (processVote signer view state ctx).mapTxLockReq =
      if isNewVote signer view state ctx && completesLock state ctx then
        insertNew state.mapTxLockReq ctx.txHash emptyTransaction
      else state.mapTxLockReq := by
  unfold processVote isNewVote
  cases view.listens with
  | false => rfl
  | true =>
    by_cases stored : ctx.getHash ∈ state.mapTxLockVote
    · rw [if_neg (by decide), if_pos stored]
      simp [stored]
    · rw [if_neg (by decide), if_neg stored, decide_eq_true stored]
      dsimp only
      unfold processConsensusVote
      cases verified : ctx.isVerified signer view with
      | false => rfl
      | true =>
        have complete := recordVote_complete view
          { state with mapTxLockVote := state.mapTxLockVote.insert ctx.getHash ctx } ctx
        rw [if_neg (by decide)]
        dsimp only
        rw [complete]
        have same : completesLock
            { state with mapTxLockVote := state.mapTxLockVote.insert ctx.getHash ctx } ctx =
              completesLock state ctx := rfl
        rw [same]
        cases completesLock state ctx with
        | true =>
          rw [if_pos rfl]
          rcases noteUnknownVote_effect view (completeLock view (recordVote view
            { state with mapTxLockVote := state.mapTxLockVote.insert ctx.getHash ctx } ctx)
            ctx.txHash) ctx with ⟨unknown, noted⟩
          exact (congrArg SwiftState.mapTxLockReq noted).trans
            (completeLock_requests view _ ctx.txHash)
        | false =>
          rw [if_neg (by decide)]
          rcases noteUnknownVote_effect view (recordVote view
            { state with mapTxLockVote := state.mapTxLockVote.insert ctx.getHash ctx } ctx)
            ctx with ⟨unknown, noted⟩
          have requests := congrArg SwiftState.mapTxLockReq noted
          rw [Bool.and_false, if_neg (by decide)]
          exact requests

theorem releaseLock_requests (lock : CTransactionLock) (hash : Uint256) (tx : CTransaction)
    (found : (releaseLock state lock).mapTxLockReq.lookup hash = some tx) :
    state.mapTxLockReq.lookup hash = some tx := by
  unfold releaseLock at found
  split at found
  · exact found
  · dsimp only at found
    by_cases same : hash = lock.txHash
    · rw [same, AList.lookup_erase] at found
      cases found
    · rw [AList.lookup_erase_ne same] at found
      exact found

theorem clean_requests (hash : Uint256) (tx : CTransaction)
    (found : (cleanTransactionLocksList view state).mapTxLockReq.lookup hash = some tx) :
    state.mapTxLockReq.lookup hash = some tx := by
  have loop : ∀ (entries : List LockEntry) (before : SwiftState),
      (entries.foldl (cleanLock view) before).mapTxLockReq.lookup hash = some tx →
        before.mapTxLockReq.lookup hash = some tx := by
    intro entries
    induction entries with
    | nil => exact fun _ there => there
    | cons entry rest ih =>
      intro before there
      have later := ih (cleanLock view before entry) there
      unfold cleanLock at later
      split at later
      · exact releaseLock_requests before entry.2 hash tx later
      · exact later
  unfold cleanTransactionLocksList at found
  split at found
  · exact found
  · exact loop _ state found

end Effects

section Steps

variable (services : Services) (signer : Signer) (state : SwiftState)

/-- What an event adds to the requests is its own transaction, or the empty one
of a vote that completes a lock. -/
theorem step_requests (property : Uint256 → CTransaction → Prop) (event : Event)
    (holds : Everywhere property state.mapTxLockReq)
    (asked : ∀ tx, Requested [event] tx → property tx.hash tx)
    (voted : ∀ view ctx, event = .txlvote view ctx → isNewVote signer view state ctx = true →
      completesLock state ctx = true → ctx.txHash ∉ state.mapTxLockReq →
        property ctx.txHash emptyTransaction) :
    Everywhere property (step services signer state event).mapTxLockReq := by
  cases event with
  | ix view tx =>
    have result : step services signer state (.ix view tx) =
        processRequest services signer view state tx := rfl
    rw [result]
    obtain same | added := processRequest_requests services signer view state tx
    · rw [same]
      exact holds
    · rw [added]
      apply holds.insertNew
      exact fun _ => asked tx ⟨view, Or.inl List.mem_cons_self⟩
  | txlvote view ctx =>
    have result : step services signer state (.txlvote view ctx) =
        processVote signer view state ctx := rfl
    rw [result, processVote_requests]
    split
    · rename_i both
      obtain ⟨new, complete⟩ := (Bool.and_eq_true_iff).mp both
      apply holds.insertNew
      exact voted view ctx rfl new complete
    · exact holds
  | request view tx =>
    have result : step services signer state (.request view tx) =
        requestLock view state tx := rfl
    rw [result]
    unfold requestLock
    rw [createNewLock_requests]
    apply holds.insertNew
    exact fun _ => asked tx ⟨view, Or.inr List.mem_cons_self⟩
  | clean view =>
    intro hash tx found
    exact holds hash tx (clean_requests view state hash tx found)

/-- Where the requests are well keyed they stay so exactly if the event meets
the condition. -/
theorem step_keyed_iff (event : Event) (keyed : RequestsKeyed state) :
    RequestsKeyed (step services signer state event) ↔ RequestKnown signer state event := by
  constructor
  · intro after
    cases event with
    | txlvote view ctx =>
      intro new complete
      by_cases known : ctx.txHash ∈ state.mapTxLockReq
      · exact Or.inl known
      · right
        have filed : (step services signer state (.txlvote view ctx)).mapTxLockReq.lookup
            ctx.txHash = some emptyTransaction := by
          have result : step services signer state (.txlvote view ctx) =
              processVote signer view state ctx := rfl
          rw [result, processVote_requests, new, complete, Bool.and_true, if_pos rfl,
            lookup_insertNew, if_pos rfl, AList.lookup_eq_none.mpr known, Option.none_or]
        exact (after ctx.txHash emptyTransaction filed).symm
    | ix view tx => trivial
    | request view tx => trivial
    | clean view => trivial
  · intro condition
    apply step_requests services signer state _ event keyed
    · exact fun tx _ => rfl
    · intro view ctx isVote new complete unknown
      rw [isVote] at condition
      obtain known | zero := condition new complete
      · exact absurd known unknown
      · exact zero.symm

end Steps

section Runs

variable (services : Services) (signer : Signer)

/-- Every transaction in `mapTxLockReq` is filed under its hash all along if and only if all steps
meet the condition; and then one found under a hash that is not zero was requested. -/
theorem requests_well_keyed_iff (events : List Event) :
    ((∀ before, before <+: events →
        RequestsKeyed (before.foldl (step services signer) .empty)) ↔
      Guarded (step services signer) (fun _ _ => ())
        (fun _ state event => RequestKnown signer state event) () .empty events) ∧
    (Guarded (step services signer) (fun _ _ => ())
        (fun _ state event => RequestKnown signer state event) () .empty events →
      ∀ hash tx, hash ≠ 0 →
        (events.foldl (step services signer) .empty).mapTxLockReq.lookup hash = some tx →
          Requested events tx) := by
  constructor
  · exact throughout_iff_guarded (step services signer) (RequestKnown signer) RequestsKeyed
      (step_keyed_iff services signer) .empty events everywhere_empty
  · intro condition hash tx notZero found
    have requested : Everywhere (fun hash tx => hash ≠ 0 → Requested events tx)
        (events.foldl (step services signer) .empty).mapTxLockReq := by
      apply history_of_guarded (step services signer) (fun _ _ => ())
        (fun _ state event => RequestKnown signer state event)
        (fun history state => Everywhere (fun hash tx => hash ≠ 0 → Requested history tx)
          state.mapTxLockReq) () .empty _ events everywhere_empty condition
      intro history event earlier known
      apply step_requests services signer (history.foldl (step services signer) .empty)
        (fun hash tx => hash ≠ 0 → Requested (history ++ [event]) tx) event
      · intro hash tx found notZero
        obtain ⟨view, came⟩ := earlier hash tx found notZero
        exact ⟨view, came.imp (List.mem_append_left _) (List.mem_append_left _)⟩
      · intro tx asked _
        obtain ⟨view, came⟩ := asked
        exact ⟨view, came.imp (List.mem_append_right _) (List.mem_append_right _)⟩
      · intro view ctx isVote new complete unknown notZero
        rw [isVote] at known
        obtain there | zero := known new complete
        · exact absurd there unknown
        · exact absurd zero notZero
    exact requested hash tx found notZero

end Runs

/-- A payment of funds that another payment in the pool spends, and the votes of
six masternodes for it. -/
def votedRefusal : List Event :=
  .ix (laterView 600) secondPayment ::
    (List.range 6).map fun number =>
      .txlvote (laterView 600) (swiftVote secondPayment.hash number)

/-- The request is refused, its lock completes, and an empty transaction is
filed under its hash. -/
theorem refused_request_files_empty :
    ¬ ∀ (services : Services) (signer : Signer) (events : List Event),
      RequestsKeyed (events.foldl (step services signer) .empty) := by
  intro keyed
  have filed : (votedRefusal.foldl (step mainnetServices exampleBudget.signer)
      .empty).mapTxLockReq.lookup secondPayment.hash = some emptyTransaction := by
    decide +kernel
  have same := keyed mainnetServices exampleBudget.signer votedRefusal _ _ filed
  exact absurd same (by decide)

end ZenonCore.LockRequests
