import ZenonCore.Budget
import ZenonCore.Library.Interference
import ZenonCore.MempoolConsistency
import ZenonCore.SwiftTX

/-!
# Who can lock an input

A lock is complete with six votes. As long as no request is refused whose lock is incomplete
and inputs free, a payment is refused for a lock only where six masternodes have voted.
-/

namespace ZenonCore.LockAuthority

open Primitives Validation Chainstate CheckBlock List
open ChainParams Masternode ValueGate SwiftTX
open MasternodeMan (CMasternodeMan)
open Budget (exampleBudget exampleMasternode)
open MempoolConsistency (fundedChain fundedNode simpleTx)
open Library.Maps Library.Interference

section Statement

variable (services : Services) (signer : Signer)

/-- Some time in a run a transaction has had a complete lock, by verified votes of different
masternodes. -/
def RecordedLock (events : List Event) (txHash : Uint256) : Prop :=
  ∃ before lock, before <+: events ∧
    (before.foldl (step services signer) .empty).mapTxLocks.lookup txHash = some lock ∧
    lock.isComplete = true ∧
    (lock.countedVotes.map fun vote => vote.vinMasternode.prevout).Nodup ∧
    ∀ vote ∈ lock.countedVotes, vote.txHash = txHash ∧
      ∃ view, .txlvote view vote ∈ before ∧ vote.isVerified signer view = true

/-- A refused request has no free input, or its lock is complete; the cleanup removes no vote that
has the hash of one that stays. -/
def LocksWhenComplete (state : SwiftState) : Event → Prop
  | .ix view tx => isRefused services view state tx = true →
      (∀ txin ∈ tx.vin, txin.prevout ∈ state.mapLockedInputs) ∨
        ((createNewLock view state tx).1.mapTxLocks.lookup tx.hash).any
          CTransactionLock.isComplete = true
  | .clean view => ∀ hash lock other otherLock, state.mapTxLocks.lookup hash = some lock →
      state.mapTxLocks.lookup other = some otherLock → hasExpired view lock = true →
      hasExpired view otherLock = false → ∀ vote ∈ lock.vecConsensusVotes,
        ∀ otherVote ∈ otherLock.vecConsensusVotes, vote.getHash ≠ otherVote.getHash
  | _ => True

end Statement

section Invariant

variable (services : Services) (signer : Signer)

/-- The votes of a lock have different hashes, which are those of stored votes,
and have been verified. -/
def Sound (history : List Event) (votes : AList fun _ : Uint256 => CConsensusVote)
    (hash txHash : Uint256) (list : List CConsensusVote) : Prop :=
  txHash = hash ∧ (list.map CConsensusVote.getHash).Nodup ∧
    ∀ vote ∈ list, vote.txHash = hash ∧ vote.getHash ∈ votes ∧
      ∃ view, .txlvote view vote ∈ history ∧ vote.isVerified signer view = true

structure Authority (history : List Event) (state : SwiftState) : Prop where
  locks : AllLocks (Sound signer history state.mapTxLockVote) state.mapTxLocks
  held : Everywhere (fun _ holder => RecordedLock services signer history holder)
    state.mapLockedInputs

theorem Sound.mono {history longer : List Event}
    {votes more : AList fun _ : Uint256 => CConsensusVote} {hash txHash : Uint256}
    {list : List CConsensusVote} (sound : Sound signer history votes hash txHash list)
    (grows : history ⊆ longer) (stored : ∀ vote ∈ list, vote.getHash ∈ votes →
      vote.getHash ∈ more) : Sound signer longer more hash txHash list := by
  obtain ⟨keyed, distinct, each⟩ := sound
  refine ⟨keyed, distinct, ?_⟩
  intro vote member
  obtain ⟨own, present, view, came, verified⟩ := each vote member
  exact ⟨own, stored vote member present, view, grows came, verified⟩

theorem RecordedLock.mono {history : List Event} {txHash : Uint256} (event : Event)
    (recorded : RecordedLock services signer history txHash) :
    RecordedLock services signer (history ++ [event]) txHash := by
  obtain ⟨before, lock, isPrefix, rest⟩ := recorded
  exact ⟨before, lock, isPrefix.trans (prefix_append history [event]), rest⟩

/-- Votes for one transaction with different hashes are of different
masternodes. -/
theorem masternodes_distinct (votes : List CConsensusVote) (txHash : Uint256)
    (own : ∀ vote ∈ votes, vote.txHash = txHash)
    (distinct : (votes.map CConsensusVote.getHash).Nodup) :
    (votes.map fun vote => vote.vinMasternode.prevout).Nodup := by
  rw [List.Nodup, pairwise_map] at distinct ⊢
  apply distinct.imp_of_mem
  intro first second inFirst inSecond apart same
  apply apart
  unfold CConsensusVote.getHash
  rw [same, own first inFirst, own second inSecond]

variable (history : List Event) (votes : AList fun _ : Uint256 => CConsensusVote)

theorem recorded_of_complete (txHash : Uint256)
    (locks : AllLocks (Sound signer history votes)
      (history.foldl (step services signer) .empty).mapTxLocks)
    (complete : ((history.foldl (step services signer) .empty).mapTxLocks.lookup txHash).any
      CTransactionLock.isComplete = true) :
    RecordedLock services signer history txHash := by
  obtain ⟨lock, found, isComplete⟩ := (Option.any_eq_true _ _).mp complete
  obtain ⟨_, distinct, each⟩ := locks txHash lock found
  have counted : ∀ vote ∈ lock.countedVotes, vote ∈ lock.vecConsensusVotes :=
    fun vote member => mem_of_mem_filter member
  refine ⟨history, lock, prefix_refl history, found, isComplete, ?_, ?_⟩
  · apply masternodes_distinct lock.countedVotes txHash
    · intro vote member
      exact (each vote (counted vote member)).1
    · exact distinct.sublist (List.Sublist.map _ (filter_sublist ..))
  · intro vote member
    obtain ⟨own, _, came⟩ := each vote (counted vote member)
    exact ⟨own, came⟩

theorem Sound.longer {history : List Event} {votes more : AList fun _ : Uint256 => CConsensusVote}
    {locks : AList fun _ : Uint256 => CTransactionLock} (event : Event)
    (sound : AllLocks (Sound signer history votes) locks)
    (stored : ∀ hash, hash ∈ votes → hash ∈ more) :
    AllLocks (Sound signer (history ++ [event]) more) locks :=
  sound.mono fun _ _ each =>
    each.mono signer (subset_append_left _ _) fun vote _ => stored vote.getHash

theorem sound_new
    (hash : Uint256) : Sound signer history votes hash hash [] :=
  ⟨rfl, nodup_nil, fun _ member => absurd member not_mem_nil⟩

theorem hashes_snoc (votes : AList fun _ : Uint256 => CConsensusVote) (list : List CConsensusVote)
    (ctx : CConsensusVote) (distinct : (list.map CConsensusVote.getHash).Nodup)
    (stored : ∀ vote ∈ list, vote.getHash ∈ votes) (absent : ctx.getHash ∉ votes) :
    ((list ++ [ctx]).map CConsensusVote.getHash).Nodup := by
  rw [map_append, map_singleton]
  apply nodup_append'.mpr
  refine ⟨distinct, nodup_singleton _, ?_⟩
  intro hash inList same
  obtain ⟨vote, member, isHash⟩ := mem_map.mp inList
  rw [mem_singleton.mp same] at isHash
  rw [← isHash] at absent
  exact absent (stored vote member)

theorem sound_vote
    (view : SwiftView) (ctx : CConsensusVote) (txHash : Uint256) (list : List CConsensusVote)
    (sound : Sound signer history votes ctx.txHash txHash list) (absent : ctx.getHash ∉ votes)
    (verified : ctx.isVerified signer view = true) :
    Sound signer (history ++ [.txlvote view ctx]) (votes.insert ctx.getHash ctx) ctx.txHash
      txHash (list ++ [ctx]) := by
  obtain ⟨keyed, distinct, each⟩ := sound
  refine ⟨keyed, ?_, ?_⟩
  · exact hashes_snoc votes list ctx distinct (fun vote member => (each vote member).2.1) absent
  · intro vote member
    obtain old | new := mem_append.mp member
    · obtain ⟨own, present, other, came, isVerified⟩ := each vote old
      exact ⟨own, (AList.mem_insert _).mpr (Or.inr present), other,
        mem_append_left _ came, isVerified⟩
    · rw [mem_singleton.mp new]
      exact ⟨rfl, (AList.mem_insert _).mpr (Or.inl rfl), view, by simp, verified⟩

end Invariant

section Steps

variable (services : Services) (signer : Signer) (history : List Event) (state : SwiftState)

/-- One more event keeps the invariant, if it keeps the locks sound, and locks
inputs for complete locks only. -/
theorem authority_snoc (event : Event)
    (reached : history.foldl (step services signer) .empty = state)
    (holds : Authority services signer history state)
    (locks : AllLocks (Sound signer (history ++ [event])
      (step services signer state event).mapTxLockVote) (step services signer state event).mapTxLocks)
    (held : ∀ outpoint holder,
      (step services signer state event).mapLockedInputs.lookup outpoint = some holder →
      state.mapLockedInputs.lookup outpoint = some holder ∨
        ((step services signer state event).mapTxLocks.lookup holder).any
          CTransactionLock.isComplete = true) :
    Authority services signer (history ++ [event]) (step services signer state event) := by
  have after : (history ++ [event]).foldl (step services signer) .empty =
      step services signer state event := by
    rw [foldl_append, reached]
    rfl
  refine ⟨locks, ?_⟩
  intro outpoint holder found
  obtain before | complete := held outpoint holder found
  · exact (holds.held outpoint holder before).mono services signer event
  · apply recorded_of_complete services signer (history ++ [event])
      (step services signer state event).mapTxLockVote
    · rw [after]
      exact locks
    · rw [after]
      exact complete

variable (view : SwiftView)

theorem authority_ix (tx : CTransaction)
    (reached : history.foldl (step services signer) .empty = state)
    (holds : Authority services signer history state)
    (condition : LocksWhenComplete services state (.ix view tx)) :
    Authority services signer (history ++ [.ix view tx])
      (step services signer state (.ix view tx)) := by
  have result : step services signer state (.ix view tx) =
      processRequest services signer view state tx := rfl
  apply authority_snoc services signer history state (.ix view tx) reached holds
  · rw [result]
    rcases processRequest_effect services signer view state tx with
      same | ⟨created, _, _, all, accepted | refused⟩
    · rw [same]
      exact Sound.longer signer _ holds.locks fun _ present => present
    · obtain ⟨requests, votes, same, stored⟩ := accepted
      rw [same]
      exact all _ (Sound.longer signer _ holds.locks stored) (sound_new signer _ _ _)
    · obtain ⟨_, requests, rejected, locks, same, kept⟩ := refused
      rw [same]
      apply kept.all
      exact all _ (Sound.longer signer _ holds.locks fun _ present => present)
        (sound_new signer _ _ _)
  · rw [result]
    intro outpoint holder found
    rcases processRequest_effect services signer view state tx with
      same | ⟨created, made, _, _, accepted | refused⟩
    · rw [same] at found
      exact Or.inl found
    · obtain ⟨requests, votes, same, _⟩ := accepted
      rw [same] at found
      exact Or.inl found
    · obtain ⟨isRefused, requests, rejected, locks, same, kept⟩ := refused
      rw [same] at found ⊢
      obtain before | ⟨listed, free, isOwn⟩ := insertAll_some _ _ _ _ _ found
      · exact Or.inl before
      · obtain taken | complete := condition isRefused
        · obtain ⟨txin, input, prevout⟩ := mem_map.mp listed
          rw [← prevout] at free
          exact absurd (taken txin input) free
        · rw [made] at complete
          rw [isOwn]
          exact Or.inr (kept.complete tx.hash complete)

theorem authority_txlvote (ctx : CConsensusVote)
    (reached : history.foldl (step services signer) .empty = state)
    (holds : Authority services signer history state) :
    Authority services signer (history ++ [.txlvote view ctx])
      (step services signer state (.txlvote view ctx)) := by
  have result : step services signer state (.txlvote view ctx) =
      processVote signer view state ctx := rfl
  have stored : ∀ hash, hash ∈ state.mapTxLockVote →
      hash ∈ state.mapTxLockVote.insert ctx.getHash ctx :=
    fun hash present => (AList.mem_insert _).mpr (Or.inr present)
  apply authority_snoc services signer history state (.txlvote view ctx) reached holds
  · rw [result]
    obtain same | ⟨absent, same | recorded⟩ := processVote_effect signer view state ctx
    · rw [same]
      exact Sound.longer signer _ holds.locks fun _ present => present
    · rw [same]
      exact Sound.longer signer _ holds.locks stored
    · obtain ⟨verified, requests, locks, inputs, unknown, same, kept, _⟩ := recorded
      rw [same]
      apply kept.all
      apply recordVote_all view state ctx holds.locks (sound_new signer _ _ _)
      · intro hash txHash votes sound
        exact sound.mono signer (subset_append_left _ _) fun vote _ => stored vote.getHash
      · intro txHash votes sound
        exact sound_vote signer history state.mapTxLockVote view ctx txHash votes sound absent
          verified
  · rw [result]
    intro outpoint holder found
    obtain same | ⟨_, same | recorded⟩ := processVote_effect signer view state ctx
    · rw [same] at found
      exact Or.inl found
    · rw [same] at found
      exact Or.inl found
    · obtain ⟨_, requests, locks, inputs, unknown, same, _, complete⟩ := recorded
      rw [same] at found ⊢
      obtain before | ⟨listed, _, isOwn⟩ := insertAll_some _ _ _ _ _ found
      · exact Or.inl before
      · obtain none | complete := complete
        · rw [none] at listed
          cases listed
        · rw [isOwn]
          exact Or.inr complete

theorem authority_request (tx : CTransaction)
    (reached : history.foldl (step services signer) .empty = state)
    (holds : Authority services signer history state) :
    Authority services signer (history ++ [.request view tx])
      (step services signer state (.request view tx)) := by
  rcases createNewLock_effect view
    { state with mapTxLockReq := insertNew state.mapTxLockReq tx.hash tx } tx with
    ⟨created, made, _, all⟩
  have result : step services signer state (.request view tx) = _ := made
  apply authority_snoc services signer history state (.request view tx) reached holds
  · rw [result]
    exact all _ (Sound.longer signer _ holds.locks fun _ present => present)
      (sound_new signer _ _ _)
  · rw [result]
    intro outpoint holder found
    exact Or.inl found

theorem authority_clean (reached : history.foldl (step services signer) .empty = state)
    (holds : Authority services signer history state)
    (condition : LocksWhenComplete services state (.clean view)) :
    Authority services signer (history ++ [.clean view])
      (step services signer state (.clean view)) := by
  have result : step services signer state (.clean view) =
      cleanTransactionLocksList view state := rfl
  cases tip : view.node.chainActive.isEmpty with
  | true =>
    have same : cleanTransactionLocksList view state = state := if_pos tip
    apply authority_snoc services signer history state (.clean view) reached holds
    · rw [result, same]
      exact Sound.longer signer _ holds.locks fun _ present => present
    · rw [result, same]
      exact fun outpoint holder found => Or.inl found
  | false =>
    have keyed : Keyed state := holds.locks.mono fun _ _ sound => sound.1
    have cleaned := cleanTransactionLocksList_cleaned view state keyed tip
    apply authority_snoc services signer history state (.clean view) reached holds
    · rw [result]
      intro hash lock found
      by_cases expires : Expires view state.mapTxLocks.entries hash
      · rw [cleaned.removed hash expires] at found
        cases found
      · rw [cleaned.kept hash expires] at found
        apply (holds.locks hash lock found).mono signer (subset_append_left _ _)
        intro vote member present
        apply cleaned.votes vote.getHash present
        intro entry inLocks expired shared
        obtain ⟨other, inEntry, sameHash⟩ := mem_map.mp shared
        have entryFound := (mem_entries_iff state entry).mp inLocks
        have stays : hasExpired view lock = false := by
          rw [Bool.eq_false_iff]
          intro also
          exact expires ⟨⟨hash, lock⟩, (mem_entries_iff state _).mpr found, rfl, also⟩
        exact condition entry.1 entry.2 hash lock entryFound found expired stays other inEntry
          vote member sameHash
    · rw [result]
      intro outpoint holder found
      by_cases releases : Releases view state.mapTxLocks.entries state outpoint
      · rw [cleaned.released outpoint releases] at found
        cases found
      · rw [cleaned.held outpoint releases] at found
        exact Or.inl found

end Steps

section Refusals

variable (services : Services) (locks : COutPoint → Option Uint256)

def LockedForIt (tx : CTransaction) : Prop :=
  ∀ txin ∈ tx.vin, ∀ holder, locks txin.prevout = some holder → holder = tx.hash

theorem ownLocks_pass (tx : CTransaction) (own : LockedForIt locks tx) :
    (tx.vin.all fun txin =>
      match locks txin.prevout with
      | none => true
      | some locked => locked == tx.hash) = true := by
  apply all_eq_true.mpr
  intro txin input
  split
  · rfl
  · rename_i holder found
    exact beq_iff_eq.mpr (own txin input holder found)

theorem acceptToMemoryPool_unlocked (here : LocalState) (node : NodeState) (tx : CTransaction)
    (own : LockedForIt locks tx) :
    ChainTip.acceptToMemoryPool services { here with mapLockedInputs := locks } node tx =
      ChainTip.acceptToMemoryPool services { here with mapLockedInputs := fun _ => none } node
        tx := by
  have passes := ownLocks_pass locks tx own
  have free := ownLocks_pass (fun _ => none) tx fun _ _ _ absent => by cases absent
  unfold ChainTip.acceptToMemoryPool
  dsimp only at passes free ⊢
  erw [passes, free]
  rfl

theorem respectsLocks_own (here : LocalState) (block : CBlock)
    (own : ∀ tx ∈ block.vtx, LockedForIt locks tx) :
    respectsLocks { here with mapLockedInputs := locks } block = true := by
  apply all_eq_true.mpr
  intro tx inBlock
  exact (congrArg (tx.isCoinBase || ·) (ownLocks_pass locks tx (own tx inBlock))).trans
    (Bool.or_true _)

end Refusals

section Runs

variable (services : Services) (signer : Signer)

theorem step_authority (history : List Event) (state : SwiftState) (event : Event)
    (reached : history.foldl (step services signer) .empty = state)
    (holds : Authority services signer history state)
    (condition : LocksWhenComplete services state event) :
    Authority services signer (history ++ [event]) (step services signer state event) := by
  cases event with
  | ix view tx => exact authority_ix services signer history state view tx reached holds condition
  | txlvote view ctx => exact authority_txlvote services signer history state view ctx reached holds
  | request view tx => exact authority_request services signer history state view tx reached holds
  | clean view => exact authority_clean services signer history state view reached holds condition

/-- An input of the transaction is locked for another one, which has had a complete lock. -/
def LockedAgainst (events : List Event) (locks : COutPoint → Option Uint256)
    (tx : CTransaction) : Prop :=
  ∃ txin ∈ tx.vin, ∃ holder, locks txin.prevout = some holder ∧ holder ≠ tx.hash ∧
    RecordedLock services signer events holder

/-- Where all steps meet the condition an input is locked only for a transaction that has had a
complete lock, so only such a lock keeps a transaction from the pool or makes a block conflict. -/
theorem locked_inputs_have_complete_locks (events : List Event)
    (condition : Guarded (step services signer) (fun _ _ => ())
      (fun _ state event => LocksWhenComplete services state event) () .empty events) :
    let locks := (events.foldl (step services signer) .empty).mapLockedInputs.lookup
    (∀ outpoint holder, locks outpoint = some holder →
      RecordedLock services signer events holder) ∧
    (∀ (here : LocalState) node tx, ¬ LockedAgainst services signer events locks tx →
      ChainTip.acceptToMemoryPool services { here with mapLockedInputs := locks } node tx =
        ChainTip.acceptToMemoryPool services { here with mapLockedInputs := fun _ => none } node
          tx) ∧
    ∀ (here : LocalState) block, respectsLocks { here with mapLockedInputs := locks } block = false →
      ∃ tx ∈ block.vtx, LockedAgainst services signer events locks tx := by
  have authority : Authority services signer events
      (events.foldl (step services signer) .empty) := by
    apply history_of_guarded (step services signer) (fun _ _ => ())
      (fun _ state event => LocksWhenComplete services state event)
      (fun history state => Authority services signer history state) () .empty _ events _ condition
    · intro history event holds met
      exact step_authority services signer history _ event rfl holds met
    · exact ⟨everywhere_empty, everywhere_empty⟩
  intro locks
  have recorded : ∀ outpoint holder, locks outpoint = some holder →
      RecordedLock services signer events holder := authority.held
  have own : ∀ tx, ¬ LockedAgainst services signer events locks tx → LockedForIt locks tx := by
    intro tx free txin input holder found
    by_contra other
    exact free ⟨txin, input, holder, found, other, recorded txin.prevout holder found⟩
  refine ⟨recorded, ?_, ?_⟩
  · intro here node tx free
    exact acceptToMemoryPool_unlocked services locks here node tx (own tx free)
  · intro here block conflicts
    by_contra none
    rw [respectsLocks_own locks here block] at conflicts
    · cases conflicts
    · intro tx inBlock
      exact own tx fun against => none ⟨tx, inBlock, against⟩

end Runs

def paymentScript : Script.CScript :=
  [Script.opDup, Script.opHash160, 20] ++ List.replicate 20 1 ++
    [Script.opEqualVerify, Script.opCheckSig]

def payment : CTransaction :=
  { simpleTx 22 { hash := 21, n := 0 } [] (9 * coin) with
    vout := [{ nValue := 9 * coin, scriptPubKey := paymentScript }] }

/-- A transaction that spends the funds too, and an output nobody knows. -/
def rivalTx : CTransaction :=
  { payment with
    hash := 23
    vin := payment.vin ++
      [{ prevout := { hash := 50, n := 0 }, scriptSig := [], nSequence := 10 }] }

/-- Four blocks on top of the funds, and six masternodes of the first rank. -/
def swiftView : SwiftView where
  fLiteMode := false
  sporkSwiftTX := true
  isBlockchainSynced := true
  node :=
    { fundedNode with
      chainActive := (List.range 4).map (fun number =>
        exampleBlock (BitVec.ofNat 256 (200 - number)) 0 (UInt32.ofNat (1600000400 - 60 * number))
          []) ++ fundedChain }
  here := quietNode
  sporkMaxValue := 1000
  mnodeman :=
    { CMasternodeMan.empty with
      vMasternodes := (List.range 6).map fun number =>
        exampleMasternode (BitVec.ofNat 256 number) [1] }
  getMasternodeRank := fun _ _ => 1
  fMasterNode := false
  activeVin := { prevout := .null, scriptSig := [], nSequence := 0 }
  sign := fun _ => none

def swiftVote (txHash : Uint256) (number : Nat) : CConsensusVote where
  vinMasternode :=
    { prevout := { hash := BitVec.ofNat 256 number, n := 0 }
      scriptSig := []
      nSequence := 0xffffffff }
  txHash := txHash
  nBlockHeight := 4
  vchMasterNodeSignature := [1]

/-- The payment asks for a lock, and the six masternodes vote for it. -/
def lockedPayment : List Event :=
  .ix swiftView payment ::
    (List.range 6).map fun number => .txlvote swiftView (swiftVote payment.hash number)

theorem no_recorded_lock (services : Services) (signer : Signer) (events : List Event)
    (noVotes : ∀ view vote, .txlvote view vote ∉ events) (txHash : Uint256) :
    ¬ RecordedLock services signer events txHash := by
  intro recorded
  obtain ⟨before, lock, isPrefix, _, complete, _, each⟩ := recorded
  have none : lock.countedVotes = [] := by
    apply eq_nil_iff_forall_not_mem.mpr
    intro vote member
    obtain ⟨view, came, _⟩ := (each vote member).2
    exact noVotes view vote (isPrefix.subset came)
  unfold CTransactionLock.isComplete CTransactionLock.countSignatures at complete
  rw [none] at complete
  split at complete
  · exact absurd complete (by decide)
  · exact absurd complete (by decide)

/-- A peer that sends the rival locks the funds for it, without any vote. -/
theorem refused_request_locks_funds :
    ¬ ∀ (services : Services) (signer : Signer) (events : List Event) (outpoint : COutPoint)
        (holder : Uint256),
      (events.foldl (step services signer) .empty).mapLockedInputs.lookup outpoint = some holder →
      RecordedLock services signer events holder := by
  intro authority
  have locked : ([Event.ix swiftView rivalTx].foldl
      (step mainnetServices exampleBudget.signer) .empty).mapLockedInputs.lookup
      { hash := 21, n := 0 } = some 23 := by
    decide +kernel
  apply no_recorded_lock mainnetServices exampleBudget.signer [.ix swiftView rivalTx] _ 23
  · exact authority mainnetServices exampleBudget.signer _ _ _ locked
  · intro view vote member
    cases mem_singleton.mp member

/-- The funds are locked for the payment six masternodes have voted for. -/
theorem votes_lock_funds :
    RecordedLock mainnetServices exampleBudget.signer lockedPayment payment.hash := by
  have locked : (lockedPayment.foldl (step mainnetServices exampleBudget.signer)
      .empty).mapLockedInputs.lookup { hash := 21, n := 0 } = some payment.hash := by
    decide +kernel
  have accepted : isRefused mainnetServices swiftView .empty payment = false := by decide +kernel
  have condition : Guarded (step mainnetServices exampleBudget.signer) (fun _ _ => ())
      (fun _ state event => LocksWhenComplete mainnetServices state event) () .empty
      lockedPayment := by
    refine ⟨?_, trivial, trivial, trivial, trivial, trivial, trivial, trivial⟩
    intro refused
    rw [accepted] at refused
    cases refused
  exact (locked_inputs_have_complete_locks mainnetServices exampleBudget.signer lockedPayment
    condition).1 _ _ locked

end ZenonCore.LockAuthority
