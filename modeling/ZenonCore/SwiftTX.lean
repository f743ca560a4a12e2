import ZenonCore.Library.Maps
import ZenonCore.MasternodeMan

/-!
# SwiftTX locks

`swifttx.cpp`: requests (`ix`), votes (`txlvote`) and the cleanup. What the node knows changes
between events; relayed messages are left out.
-/

namespace ZenonCore.SwiftTX

open Script Primitives Coins Chain List
open Validation Chainstate ChainTip Masternode
open MasternodeMan Library.Maps

def swifttxSignaturesRequired : Int := 6

def swifttxSignaturesTotal : Int := 10

structure CConsensusVote where
  vinMasternode : CTxIn
  txHash : Uint256
  nBlockHeight : Int
  vchMasterNodeSignature : Bytes
deriving DecidableEq, Repr

structure CTransactionLock where
  nBlockHeight : Int
  txHash : Uint256
  vecConsensusVotes : List CConsensusVote
  nExpiration : Int
  nTimeout : Int
deriving DecidableEq, Repr

structure SwiftState where
  mapTxLockReq : AList fun _ : Uint256 => CTransaction
  mapTxLockReqRejected : AList fun _ : Uint256 => CTransaction
  mapTxLockVote : AList fun _ : Uint256 => CConsensusVote
  mapTxLocks : AList fun _ : Uint256 => CTransactionLock
  mapLockedInputs : AList fun _ : COutPoint => Uint256
  mapUnknownVotes : AList fun _ : Uint256 => Int

def SwiftState.empty : SwiftState where
  mapTxLockReq := ∅
  mapTxLockReqRejected := ∅
  mapTxLockVote := ∅
  mapTxLocks := ∅
  mapLockedInputs := ∅
  mapUnknownVotes := ∅

structure SwiftView where
  fLiteMode : Bool
  /-- `IsSporkActive(SPORK_2_SWIFTTX)`. -/
  sporkSwiftTX : Bool
  isBlockchainSynced : Bool
  node : NodeState
  here : LocalState
  /-- `GetSporkValue(SPORK_5_MAX_VALUE)`. -/
  sporkMaxValue : CAmount
  mnodeman : CMasternodeMan
  getMasternodeRank : CTxIn → Int → Int
  fMasterNode : Bool
  /-- `activeMasternode.vin`. -/
  activeVin : CTxIn
  /-- `SetKey` of the node's key and `SignMessage` with it. -/
  sign : Bytes → Option Bytes

/-- `fLiteMode`, the spork and `IsBlockchainSynced` let messages through. -/
def SwiftView.listens (view : SwiftView) : Bool :=
  !view.fLiteMode && view.sporkSwiftTX && view.isBlockchainSynced

def SwiftView.getTime (view : SwiftView) : Int := view.here.getTime

namespace CConsensusVote

def getHash (vote : CConsensusVote) : Uint256 :=
  vote.vinMasternode.prevout.hash + BitVec.ofNat 256 vote.vinMasternode.prevout.n.toNat +
    vote.txHash

def strMessage (signer : Signer) (vote : CConsensusVote) : Bytes :=
  signer.hashToString vote.txHash ++ decimal vote.nBlockHeight

def signatureValid (signer : Signer) (view : SwiftView) (vote : CConsensusVote) : Bool :=
  match view.mnodeman.find vote.vinMasternode with
  | none => false
  | some pmn =>
    verifyMessage signer pmn.pubKeyMasternode vote.vchMasterNodeSignature
      (vote.strMessage signer)

/-- The masternode ranks among those that sign at a height. One that has no
rank has the rank -1. -/
def ranksToSign (view : SwiftView) (vin : CTxIn) (nBlockHeight : Int) : Bool :=
  let n := view.getMasternodeRank vin nBlockHeight
  decide (n ≠ -1) && decide (n ≤ swifttxSignaturesTotal)

def isVerified (signer : Signer) (view : SwiftView) (vote : CConsensusVote) : Bool :=
  ranksToSign view vote.vinMasternode vote.nBlockHeight && vote.signatureValid signer view

end CConsensusVote

namespace CTransactionLock

def new (nBlockHeight now : Int) (txHash : Uint256) : CTransactionLock where
  nBlockHeight := nBlockHeight
  txHash := txHash
  vecConsensusVotes := []
  nExpiration := now + 60 * 60
  nTimeout := now + 60 * 5

def addSignature (cv : CConsensusVote) (lock : CTransactionLock) : CTransactionLock :=
  { lock with vecConsensusVotes := lock.vecConsensusVotes ++ [cv] }

def countedVotes (lock : CTransactionLock) : List CConsensusVote :=
  lock.vecConsensusVotes.filter fun vote => vote.nBlockHeight == lock.nBlockHeight

/-- `CountSignatures`. Without a height of its own the lock has none. -/
def countSignatures (lock : CTransactionLock) : Int :=
  if lock.nBlockHeight = 0 then -1 else lock.countedVotes.length

def isComplete (lock : CTransactionLock) : Bool :=
  decide (swifttxSignaturesRequired ≤ lock.countSignatures)

end CTransactionLock

/-- The loop of `IsNormalPaymentScript` from opcode `i` on; a bad push leaves too many opcodes
behind. -/
def normalOpcodes : Nat → Nat → CScript → Bool
  | 0, _, _ => true
  | _, _, [] => true
  | fuel + 1, i, byte :: rest =>
    match getOp (byte :: rest) with
    | none => false
    | some (opcode, _, pc) =>
      if i = 0 ∧ opcode ≠ opDup ∨ i = 1 ∧ opcode ≠ opHash160 ∨ i = 3 ∧ opcode ≠ opEqualVerify ∨
          i = 4 ∧ opcode ≠ opCheckSig ∨ i = 5 then false
      else normalOpcodes fuel (i + 1) pc

def isNormalPaymentScript (script : CScript) : Bool :=
  script.length == 25 && normalOpcodes script.length 0 script

/-- The value of an output that an input of an `ix` spends, as far as it is
known. -/
def spentValue (view : SwiftView) (txin : CTxIn) : CAmount :=
  match getTransaction view.node txin.prevout.hash with
  | none => 0
  | some (tx2, _) => (tx2.vout[txin.prevout.n.toNat]?).elim 0 CTxOut.nValue

def isIXTXValid (view : SwiftView) (txCollateral : CTransaction) : Bool :=
  let nValueIn := (txCollateral.vin.map (spentValue view)).sum
  let nValueOut := (txCollateral.vout.map CTxOut.nValue).sum
  let missingTx := txCollateral.vin.any fun txin =>
    (getTransaction view.node txin.prevout.hash).isNone
  !txCollateral.vout.isEmpty && txCollateral.nLockTime == 0 &&
    decide (nValueOut ≤ view.sporkMaxValue * coin) &&
      (missingTx || decide (1000000 ≤ nValueIn - nValueOut))

/-- `CreateNewLock`, with the height it returns: the loop goes from the last input to the first. -/
def createNewLock (view : SwiftView) (state : SwiftState) (tx : CTransaction) : SwiftState × Int :=
  if tx.vin.any fun txin => decide (getInputAge view.node txin < 5) then (state, 0)
  else
    let nTxAge := (tx.vin.head?).elim 0 (getInputAge view.node)
    let nBlockHeight := view.node.chainActive.nHeight - nTxAge + 4
    ({ state with
        mapTxLocks :=
          if tx.hash ∈ state.mapTxLocks then
            adjust (fun lock => { lock with nBlockHeight := nBlockHeight }) tx.hash
              state.mapTxLocks
          else state.mapTxLocks.insert tx.hash (.new nBlockHeight view.getTime tx.hash) },
      nBlockHeight)

def doConsensusVote (signer : Signer) (view : SwiftView) (state : SwiftState) (tx : CTransaction)
    (nBlockHeight : Int) : SwiftState :=
  if !view.fMasterNode then state
  else if !CConsensusVote.ranksToSign view view.activeVin nBlockHeight then state
  else
    let ctx : CConsensusVote :=
      { vinMasternode := view.activeVin
        txHash := tx.hash
        nBlockHeight := nBlockHeight
        vchMasterNodeSignature := [] }
    match view.sign (ctx.strMessage signer) with
    | none => state
    | some vchSig =>
      let signed := { ctx with vchMasterNodeSignature := vchSig }
      if signed.signatureValid signer view then
        { state with mapTxLockVote := state.mapTxLockVote.insert signed.getHash signed }
      else state

/-- The first input of a transaction that is locked for another one. -/
def conflictingHolder (state : SwiftState) (tx : CTransaction) : Option Uint256 :=
  tx.vin.findSome? fun txin =>
    (state.mapLockedInputs.lookup txin.prevout).filter fun holder => holder != tx.hash

def expireNow (now : Int) (hash : Uint256) (locks : AList fun _ : Uint256 => CTransactionLock) :
    AList fun _ : Uint256 => CTransactionLock :=
  adjust (fun lock => { lock with nExpiration := now }) hash locks

/-- `CheckForConflictingLocks`: two complete locks for one input cancel each
other out. -/
def checkForConflictingLocks (now : Int) (state : SwiftState) (tx : CTransaction) :
    SwiftState × Bool :=
  match conflictingHolder state tx with
  | none => (state, false)
  | some holder =>
    ({ state with mapTxLocks := expireNow now holder (expireNow now tx.hash state.mapTxLocks) },
      true)

def lockInputs (hash : Uint256) (vin : List CTxIn) (state : SwiftState) : SwiftState :=
  { state with
    mapLockedInputs := insertAll hash (vin.map CTxIn.prevout) state.mapLockedInputs }

section Handlers

variable (services : Services) (signer : Signer) (view : SwiftView)

/-- `AcceptToMemoryPool` takes the transaction, with the inputs locked so far. -/
def acceptsTransaction (state : SwiftState) (tx : CTransaction) : Bool :=
  (acceptToMemoryPool services
    { view.here with mapLockedInputs := fun outpoint => state.mapLockedInputs.lookup outpoint }
    view.node tx).isOk

def isNewRequest (state : SwiftState) (tx : CTransaction) : Bool :=
  view.listens && decide (tx.hash ∉ state.mapTxLockReq ∧ tx.hash ∉ state.mapTxLockReqRejected) &&
    isIXTXValid view tx &&
    tx.vout.all fun out => isNormalPaymentScript out.scriptPubKey || isUnspendable out.scriptPubKey

def acceptRequest (state : SwiftState) (tx : CTransaction) (nBlockHeight : Int) : SwiftState :=
  let voted := doConsensusVote signer view state tx nBlockHeight
  { voted with mapTxLockReq := insertNew voted.mapTxLockReq tx.hash tx }

def rejectRequest (state : SwiftState) (tx : CTransaction) : SwiftState :=
  let locked := lockInputs tx.hash tx.vin
    { state with
      mapTxLockReqRejected := insertNew state.mapTxLockReqRejected tx.hash tx }
  if (locked.mapTxLocks.lookup tx.hash).any CTransactionLock.isComplete then
    match checkForConflictingLocks view.getTime locked tx with
    | (checked, true) => checked
    | (checked, false) =>
      { checked with mapTxLockReq := insertNew checked.mapTxLockReq tx.hash tx }
  else locked

def processRequest (state : SwiftState) (tx : CTransaction) : SwiftState :=
  if !isNewRequest view state tx then state
  else
    let created := createNewLock view state tx
    if acceptsTransaction services view created.1 tx then
      acceptRequest signer view created.1 tx created.2
    else rejectRequest view created.1 tx

/-- An `ix` that passes the checks, and that the pool refuses. -/
def isRefused (state : SwiftState) (tx : CTransaction) : Bool :=
  isNewRequest view state tx &&
    !acceptsTransaction services view (createNewLock view state tx).1 tx

/-- `CTransaction()`, which `operator[]` puts where a map has no entry. -/
def emptyTransaction : CTransaction where
  hash := 0
  nVersion := 1
  vin := []
  vout := []
  nLockTime := 0

/-- The end of `ProcessConsensusVote`, for a lock that is complete. -/
def completeLock (state : SwiftState) (txHash : Uint256) : SwiftState :=
  let found := { state with mapTxLockReq := insertNew state.mapTxLockReq txHash emptyTransaction }
  match found.mapTxLockReq.lookup txHash with
  | none => found
  | some tx =>
    match checkForConflictingLocks view.getTime found tx with
    | (checked, true) => checked
    | (checked, false) => lockInputs txHash tx.vin checked

/-- The vote is added to its lock, which is made if it is the first one. -/
def recordVote (state : SwiftState) (ctx : CConsensusVote) : SwiftState :=
  { state with
    mapTxLocks := adjust (CTransactionLock.addSignature ctx) ctx.txHash
      (insertNew state.mapTxLocks ctx.txHash (.new 0 view.getTime ctx.txHash)) }

def processConsensusVote (state : SwiftState) (ctx : CConsensusVote) : SwiftState × Bool :=
  if !ctx.isVerified signer view then (state, false)
  else
    let recorded := recordVote view state ctx
    if (recorded.mapTxLocks.lookup ctx.txHash).any CTransactionLock.isComplete then
      (completeLock view recorded ctx.txHash, true)
    else (recorded, true)

def getAverageVoteTime (votes : AList fun _ : Uint256 => Int) : Int :=
  (votes.entries.map Sigma.snd).sum.tdiv votes.entries.length

/-- Until when votes for unknown transactions are spam, unless the masternode is far above average.
-/
def noteUnknownVote (state : SwiftState) (ctx : CConsensusVote) : SwiftState :=
  if ctx.txHash ∈ state.mapTxLockReq ∨ ctx.txHash ∈ state.mapTxLockReqRejected then state
  else
    let masternode := ctx.vinMasternode.prevout.hash
    let noted := insertNew state.mapUnknownVotes masternode (view.getTime + 60 * 10)
    let deadline := (noted.lookup masternode).getD 0
    if view.getTime < deadline ∧ 60 * 10 < deadline - getAverageVoteTime noted then
      { state with mapUnknownVotes := noted }
    else { state with mapUnknownVotes := noted.insert masternode (view.getTime + 60 * 10) }

def processVote (state : SwiftState) (ctx : CConsensusVote) : SwiftState :=
  if !view.listens then state
  else if ctx.getHash ∈ state.mapTxLockVote then state
  else
    let stored := { state with mapTxLockVote := state.mapTxLockVote.insert ctx.getHash ctx }
    match processConsensusVote signer view stored ctx with
    | (processed, true) => noteUnknownVote view processed ctx
    | (processed, false) => processed

/-- A transaction of this node asks for a lock (`sendrawtransaction` and the
wallet). -/
def requestLock (state : SwiftState) (tx : CTransaction) : SwiftState :=
  (createNewLock view
    { state with mapTxLockReq := insertNew state.mapTxLockReq tx.hash tx } tx).1

def hasExpired (lock : CTransactionLock) : Bool := decide (lock.nExpiration < view.getTime)

/-- What `CleanTransactionLocksList` removes along with a lock, if it has the
transaction. -/
def releaseLock (state : SwiftState) (lock : CTransactionLock) : SwiftState :=
  match state.mapTxLockReq.lookup lock.txHash with
  | none => state
  | some tx =>
    { state with
      mapLockedInputs := eraseAll (tx.vin.map CTxIn.prevout) state.mapLockedInputs
      mapTxLockReq := state.mapTxLockReq.erase lock.txHash
      mapTxLockReqRejected := state.mapTxLockReqRejected.erase lock.txHash
      mapTxLockVote :=
        eraseAll (lock.vecConsensusVotes.map CConsensusVote.getHash) state.mapTxLockVote }

def cleanLock (state : SwiftState) (entry : Sigma fun _ : Uint256 => CTransactionLock) :
    SwiftState :=
  if hasExpired view entry.2 then
    { releaseLock state entry.2 with mapTxLocks := state.mapTxLocks.erase entry.1 }
  else state

/-- `CleanTransactionLocksList`. Each round removes its own lock, so their order
does not matter. -/
def cleanTransactionLocksList (state : SwiftState) : SwiftState :=
  if view.node.chainActive.isEmpty then state
  else state.mapTxLocks.entries.foldl (cleanLock view) state

end Handlers

inductive Event
  | ix (view : SwiftView) (tx : CTransaction)
  | txlvote (view : SwiftView) (ctx : CConsensusVote)
  | request (view : SwiftView) (tx : CTransaction)
  | clean (view : SwiftView)

def step (services : Services) (signer : Signer) (state : SwiftState) : Event → SwiftState
  | .ix view tx => processRequest services signer view state tx
  | .txlvote view ctx => processVote signer view state ctx
  | .request view tx => requestLock view state tx
  | .clean view => cleanTransactionLocksList view state

/-- A property of what no handler changes of a lock: its key, its transaction and, but for new ones,
its votes. -/
def AllLocks (property : Uint256 → Uint256 → List CConsensusVote → Prop)
    (locks : AList fun _ : Uint256 => CTransactionLock) : Prop :=
  Everywhere (fun hash lock => property hash lock.txHash lock.vecConsensusVotes) locks

/-- The second map has the locks of the first, which may expire at another
time. -/
def SameLocks (before after : AList fun _ : Uint256 => CTransactionLock) : Prop :=
  ∀ hash, ∃ expire : Int → Int, after.lookup hash =
    (before.lookup hash).map fun lock => { lock with nExpiration := expire lock.nExpiration }

section Effects

variable {property : Uint256 → Uint256 → List CConsensusVote → Prop}

theorem sameLocks_refl (locks : AList fun _ : Uint256 => CTransactionLock) :
    SameLocks locks locks := by
  intro hash
  refine ⟨id, ?_⟩
  simp

theorem SameLocks.trans {first second third : AList fun _ : Uint256 => CTransactionLock}
    (one : SameLocks first second) (two : SameLocks second third) : SameLocks first third := by
  intro hash
  obtain ⟨expire, oneEntry⟩ := one hash
  obtain ⟨again, twoEntry⟩ := two hash
  refine ⟨again ∘ expire, ?_⟩
  rw [twoEntry, oneEntry, Option.map_map]
  rfl

theorem expireNow_same (now : Int) (hash : Uint256)
    (locks : AList fun _ : Uint256 => CTransactionLock) :
    SameLocks locks (expireNow now hash locks) := by
  intro other
  unfold expireNow
  rw [lookup_adjust]
  split
  · exact ⟨fun _ => now, rfl⟩
  · refine ⟨id, ?_⟩
    simp

theorem SameLocks.all {before after : AList fun _ : Uint256 => CTransactionLock}
    (same : SameLocks before after) (holds : AllLocks property before) :
    AllLocks property after := by
  intro hash lock found
  obtain ⟨expire, entry⟩ := same hash
  rw [entry] at found
  obtain ⟨old, before, changed⟩ := Option.map_eq_some_iff.mp found
  rw [← changed]
  exact holds hash old before

theorem SameLocks.mem {before after : AList fun _ : Uint256 => CTransactionLock}
    (same : SameLocks before after) (hash : Uint256) : hash ∈ after ↔ hash ∈ before := by
  obtain ⟨expire, entry⟩ := same hash
  rw [← AList.lookup_isSome, ← AList.lookup_isSome, entry, Option.isSome_map]

theorem SameLocks.complete {before after : AList fun _ : Uint256 => CTransactionLock}
    (same : SameLocks before after) (hash : Uint256)
    (complete : (before.lookup hash).any CTransactionLock.isComplete = true) :
    (after.lookup hash).any CTransactionLock.isComplete = true := by
  obtain ⟨expire, entry⟩ := same hash
  rw [entry, Option.any_map]
  exact complete

theorem checkForConflictingLocks_effect (now : Int) (state : SwiftState) (tx : CTransaction) :
    ∃ locks, (checkForConflictingLocks now state tx).1 = { state with mapTxLocks := locks } ∧
      SameLocks state.mapTxLocks locks := by
  unfold checkForConflictingLocks
  split
  · exact ⟨state.mapTxLocks, rfl, sameLocks_refl _⟩
  · exact ⟨_, rfl, (expireNow_same now tx.hash _).trans (expireNow_same now _ _)⟩

variable (view : SwiftView) (state : SwiftState)

theorem createNewLock_effect (tx : CTransaction) :
    ∃ locks, (createNewLock view state tx).1 = { state with mapTxLocks := locks } ∧
      (∀ hash, hash ∈ state.mapTxLocks → hash ∈ locks) ∧
      ∀ property, AllLocks property state.mapTxLocks → property tx.hash tx.hash [] →
        AllLocks property locks := by
  unfold createNewLock
  split
  · exact ⟨state.mapTxLocks, rfl, fun _ present => present, fun _ holds _ => holds⟩
  · refine ⟨_, rfl, ?_, ?_⟩
    · intro hash present
      split
      · exact (mem_adjust _ _ _ _).mpr present
      · exact (AList.mem_insert _).mpr (Or.inr present)
    · intro property holds new
      split
      · exact Everywhere.adjust holds _ _ (fun _ _ old => old) fun _ old => old
      · exact Everywhere.insert holds _ _ new

theorem doConsensusVote_effect (signer : Signer) (view : SwiftView) (state : SwiftState)
    (tx : CTransaction) (nBlockHeight : Int) :
    ∃ votes, doConsensusVote signer view state tx nBlockHeight =
        { state with mapTxLockVote := votes } ∧
      ∀ hash, hash ∈ state.mapTxLockVote → hash ∈ votes := by
  have same : ∃ votes, state = { state with mapTxLockVote := votes } ∧
      ∀ hash, hash ∈ state.mapTxLockVote → hash ∈ votes :=
    ⟨state.mapTxLockVote, rfl, fun _ present => present⟩
  unfold doConsensusVote
  split
  · exact same
  · split
    · exact same
    · dsimp only
      split
      · exact same
      · split
        · exact ⟨_, rfl, fun hash present => (AList.mem_insert _).mpr (Or.inr present)⟩
        · exact same

theorem rejectRequest_effect (tx : CTransaction) :
    ∃ requests rejected locks, rejectRequest view state tx =
        { state with
          mapTxLockReq := requests
          mapTxLockReqRejected := rejected
          mapTxLocks := locks
          mapLockedInputs :=
            insertAll tx.hash (tx.vin.map CTxIn.prevout) state.mapLockedInputs } ∧
      SameLocks state.mapTxLocks locks := by
  unfold rejectRequest
  dsimp only
  split
  · rcases checkForConflictingLocks_effect view.getTime (lockInputs tx.hash tx.vin
      { state with
        mapTxLockReqRejected := insertNew state.mapTxLockReqRejected tx.hash tx }) tx with
      ⟨locks, checked, same⟩
    split
    · rename_i found
      rw [found] at checked
      exact ⟨_, _, locks, checked, same⟩
    · rename_i found
      rw [found] at checked
      dsimp only at checked
      rw [checked]
      exact ⟨_, _, locks, rfl, same⟩
  · exact ⟨_, _, state.mapTxLocks, rfl, sameLocks_refl _⟩

/-- A request makes or changes a lock or nothing, and locks free inputs only if the pool refuses it.
-/
theorem processRequest_effect (services : Services) (signer : Signer) (view : SwiftView)
    (state : SwiftState) (tx : CTransaction) :
    processRequest services signer view state tx = state ∨
    ∃ created, (createNewLock view state tx).1 = { state with mapTxLocks := created } ∧
      (∀ hash, hash ∈ state.mapTxLocks → hash ∈ created) ∧
      (∀ property, AllLocks property state.mapTxLocks → property tx.hash tx.hash [] →
        AllLocks property created) ∧
      ((∃ requests votes, processRequest services signer view state tx =
          { state with
            mapTxLockReq := requests
            mapTxLockVote := votes
            mapTxLocks := created } ∧ ∀ hash, hash ∈ state.mapTxLockVote → hash ∈ votes) ∨
        isRefused services view state tx = true ∧ ∃ requests rejected locks,
          processRequest services signer view state tx =
            { state with
              mapTxLockReq := requests
              mapTxLockReqRejected := rejected
              mapTxLocks := locks
              mapLockedInputs :=
                insertAll tx.hash (tx.vin.map CTxIn.prevout) state.mapLockedInputs } ∧
          SameLocks created locks) := by
  unfold processRequest isRefused
  cases isNew : isNewRequest view state tx with
  | false => exact Or.inl rfl
  | true =>
    right
    obtain ⟨created, made, grows, all⟩ := createNewLock_effect view state tx
    refine ⟨created, made, grows, all, ?_⟩
    rw [Bool.not_true, if_neg (by decide), Bool.true_and]
    dsimp only
    cases accepted : acceptsTransaction services view (createNewLock view state tx).1 tx with
    | true =>
      left
      rw [if_pos rfl]
      unfold acceptRequest
      rcases doConsensusVote_effect signer view (createNewLock view state tx).1 tx
        (createNewLock view state tx).2 with ⟨votes, voted, stored⟩
      dsimp only
      rw [voted, made]
      rw [made] at stored
      exact ⟨_, votes, rfl, stored⟩
    | false =>
      right
      refine ⟨rfl, ?_⟩
      rw [if_neg (by decide)]
      rcases rejectRequest_effect view (createNewLock view state tx).1 tx with
        ⟨requests, rejected, locks, refused, same⟩
      rw [refused, made]
      rw [made] at same
      exact ⟨requests, rejected, locks, rfl, same⟩

theorem processRequest_refused (services : Services) (signer : Signer) (view : SwiftView)
    (state : SwiftState) (tx : CTransaction)
    (refused : isRefused services view state tx = true) :
    processRequest services signer view state tx =
      rejectRequest view (createNewLock view state tx).1 tx := by
  unfold isRefused at refused
  rw [Bool.and_eq_true, Bool.not_eq_true'] at refused
  unfold processRequest
  dsimp only
  rw [refused.1, refused.2, Bool.not_true, if_neg (by decide), if_neg (by decide)]

theorem completeLock_effect (txHash : Uint256) :
    ∃ requests locks inputs, completeLock view state txHash =
        { state with
          mapTxLockReq := requests
          mapTxLocks := locks
          mapLockedInputs := insertAll txHash inputs state.mapLockedInputs } ∧
      SameLocks state.mapTxLocks locks := by
  unfold completeLock
  dsimp only
  split
  · exact ⟨_, state.mapTxLocks, [], rfl, sameLocks_refl _⟩
  · rename_i tx _
    rcases checkForConflictingLocks_effect view.getTime
      { state with mapTxLockReq := insertNew state.mapTxLockReq txHash emptyTransaction } tx with
      ⟨locks, checked, same⟩
    split
    · rename_i found
      rw [found] at checked
      exact ⟨_, locks, [], checked, same⟩
    · rename_i found
      rw [found] at checked
      dsimp only at checked
      rw [checked]
      exact ⟨_, locks, tx.vin.map CTxIn.prevout, rfl, same⟩

theorem noteUnknownVote_effect (ctx : CConsensusVote) :
    ∃ unknown, noteUnknownVote view state ctx = { state with mapUnknownVotes := unknown } := by
  unfold noteUnknownVote
  split
  · exact ⟨state.mapUnknownVotes, rfl⟩
  · dsimp only
    split
    · exact ⟨_, rfl⟩
    · exact ⟨_, rfl⟩

theorem recordVote_all {other : Uint256 → Uint256 → List CConsensusVote → Prop}
    (view : SwiftView) (state : SwiftState) (ctx : CConsensusVote)
    (holds : AllLocks property state.mapTxLocks) (new : property ctx.txHash ctx.txHash [])
    (kept : ∀ hash txHash votes, property hash txHash votes → other hash txHash votes)
    (added : ∀ txHash votes, property ctx.txHash txHash votes →
      other ctx.txHash txHash (votes ++ [ctx])) :
    AllLocks other (recordVote view state ctx).mapTxLocks := by
  have made : AllLocks property (insertNew state.mapTxLocks ctx.txHash
      (.new 0 view.getTime ctx.txHash)) :=
    Everywhere.insertNew holds _ _ fun _ => new
  refine Everywhere.adjust made (CTransactionLock.addSignature ctx) ctx.txHash ?_ ?_
  · exact fun hash lock old => kept hash lock.txHash lock.vecConsensusVotes old
  · exact fun lock old => added lock.txHash lock.vecConsensusVotes old

theorem recordVote_mem (ctx : CConsensusVote)
    (hash : Uint256) (either : hash ∈ state.mapTxLocks ∨ hash = ctx.txHash) :
    hash ∈ (recordVote view state ctx).mapTxLocks := by
  apply (mem_adjust _ _ _ _).mpr
  rw [← AList.lookup_isSome, lookup_insertNew, Option.isSome_or, Bool.or_eq_true]
  obtain present | new := either
  · exact Or.inl (AList.lookup_isSome.mpr present)
  · right
    rw [if_pos new]
    rfl

/-- A vote changes nothing, or it is stored, or it is recorded with its lock, which may be complete
then. -/
theorem processVote_effect (signer : Signer) (view : SwiftView) (state : SwiftState)
    (ctx : CConsensusVote) :
    processVote signer view state ctx = state ∨
    ctx.getHash ∉ state.mapTxLockVote ∧ (processVote signer view state ctx =
        { state with mapTxLockVote := state.mapTxLockVote.insert ctx.getHash ctx } ∨
      ctx.isVerified signer view = true ∧ ∃ requests locks inputs unknown,
        processVote signer view state ctx =
          { mapTxLockReq := requests
            mapTxLockReqRejected := state.mapTxLockReqRejected
            mapTxLockVote := state.mapTxLockVote.insert ctx.getHash ctx
            mapTxLocks := locks
            mapLockedInputs := insertAll ctx.txHash inputs state.mapLockedInputs
            mapUnknownVotes := unknown } ∧
        SameLocks (recordVote view state ctx).mapTxLocks locks ∧
        (inputs = [] ∨ (locks.lookup ctx.txHash).any CTransactionLock.isComplete = true)) := by
  unfold processVote
  split
  · exact Or.inl rfl
  · split
    · exact Or.inl rfl
    · rename_i _ absent
      refine Or.inr ⟨absent, ?_⟩
      dsimp only
      unfold processConsensusVote
      cases verified : ctx.isVerified signer view with
      | false => exact Or.inl rfl
      | true =>
        refine Or.inr ⟨rfl, ?_⟩
        rw [if_neg (by decide)]
        dsimp only
        by_cases complete : ((recordVote view
            { state with mapTxLockVote := state.mapTxLockVote.insert ctx.getHash ctx }
            ctx).mapTxLocks.lookup ctx.txHash).any CTransactionLock.isComplete = true
        · rw [if_pos complete]
          rcases completeLock_effect view (recordVote view
            { state with mapTxLockVote := state.mapTxLockVote.insert ctx.getHash ctx } ctx)
            ctx.txHash with ⟨requests, locks, inputs, completed, same⟩
          rcases noteUnknownVote_effect view (completeLock view (recordVote view
            { state with mapTxLockVote := state.mapTxLockVote.insert ctx.getHash ctx } ctx)
            ctx.txHash) ctx with ⟨unknown, noted⟩
          refine ⟨requests, locks, inputs, unknown, ?_, same, Or.inr ?_⟩
          · dsimp only
            rw [noted, completed]
            rfl
          · exact same.complete ctx.txHash complete
        · rw [if_neg complete]
          rcases noteUnknownVote_effect view (recordVote view
            { state with mapTxLockVote := state.mapTxLockVote.insert ctx.getHash ctx } ctx)
            ctx with ⟨unknown, noted⟩
          refine ⟨state.mapTxLockReq, _, [], unknown, ?_, sameLocks_refl _, Or.inl rfl⟩
          dsimp only
          rw [noted]
          rfl

end Effects

section Cleanup

variable (view : SwiftView)

abbrev LockEntry := Sigma fun _ : Uint256 => CTransactionLock

/-- The locks that expire have a transaction that spends the outpoint. -/
def Releases (entries : List LockEntry) (state : SwiftState) (outpoint : COutPoint) : Prop :=
  ∃ entry ∈ entries, hasExpired view entry.2 = true ∧
    ∃ tx, state.mapTxLockReq.lookup entry.1 = some tx ∧ outpoint ∈ tx.vin.map CTxIn.prevout

theorem cleanLock_expired (state : SwiftState) (entry : LockEntry)
    (keyed : entry.2.txHash = entry.1) (expired : hasExpired view entry.2 = true) :
    (cleanLock view state entry).mapTxLocks = state.mapTxLocks.erase entry.1 ∧
    (∀ hash, hash ≠ entry.1 →
      (cleanLock view state entry).mapTxLockReq.lookup hash = state.mapTxLockReq.lookup hash) ∧
    (∀ outpoint, Releases view [entry] state outpoint →
      (cleanLock view state entry).mapLockedInputs.lookup outpoint = none) ∧
    (∀ outpoint, ¬ Releases view [entry] state outpoint →
      (cleanLock view state entry).mapLockedInputs.lookup outpoint =
        state.mapLockedInputs.lookup outpoint) ∧
    ∀ hash ∈ state.mapTxLockVote,
      hash ∉ entry.2.vecConsensusVotes.map CConsensusVote.getHash →
      hash ∈ (cleanLock view state entry).mapTxLockVote := by
  unfold cleanLock releaseLock
  rw [if_pos expired, keyed]
  cases found : state.mapTxLockReq.lookup entry.1 with
  | none =>
    refine ⟨rfl, fun _ _ => rfl, ?_, fun _ _ => rfl, fun _ present _ => present⟩
    intro outpoint releases
    obtain ⟨other, here, _, tx, request, _⟩ := releases
    rw [mem_singleton.mp here, found] at request
    cases request
  | some tx =>
    refine ⟨rfl, fun hash other => AList.lookup_erase_ne other, ?_, ?_, ?_⟩
    · intro outpoint releases
      obtain ⟨other, here, _, own, request, spends⟩ := releases
      rw [mem_singleton.mp here, found] at request
      cases request
      exact (lookup_eraseAll _ _ _).trans (if_pos spends)
    · intro outpoint keeps
      refine (lookup_eraseAll _ _ _).trans (if_neg fun spends => keeps ?_)
      exact ⟨entry, mem_singleton.mpr rfl, expired, tx, found, spends⟩
    · intro hash present others
      rw [← AList.lookup_isSome] at present ⊢
      rw [lookup_eraseAll, if_neg others]
      exact present

def Expires (entries : List LockEntry) (hash : Uint256) : Prop :=
  ∃ entry ∈ entries, entry.1 = hash ∧ hasExpired view entry.2 = true

/-- What the loop leaves, of locks filed under different transactions. -/
structure Cleaned (entries : List LockEntry) (state after : SwiftState) : Prop where
  removed : ∀ hash, Expires view entries hash → after.mapTxLocks.lookup hash = none
  kept : ∀ hash, ¬ Expires view entries hash →
    after.mapTxLocks.lookup hash = state.mapTxLocks.lookup hash
  released : ∀ outpoint, Releases view entries state outpoint →
    after.mapLockedInputs.lookup outpoint = none
  held : ∀ outpoint, ¬ Releases view entries state outpoint →
    after.mapLockedInputs.lookup outpoint = state.mapLockedInputs.lookup outpoint
  votes : ∀ hash ∈ state.mapTxLockVote,
    (∀ entry ∈ entries, hasExpired view entry.2 = true →
      hash ∉ entry.2.vecConsensusVotes.map CConsensusVote.getHash) →
    hash ∈ after.mapTxLockVote

variable (entry : LockEntry) (rest : List LockEntry)

variable (state : SwiftState)

theorem releases_cons (outpoint : COutPoint) :
    Releases view (entry :: rest) state outpoint ↔
      Releases view [entry] state outpoint ∨ Releases view rest state outpoint := by
  unfold Releases
  rw [exists_mem_cons_iff, exists_mem_cons_iff]
  simp

theorem cleaned_nil : Cleaned view [] state state where
  removed := by
    intro hash expires
    obtain ⟨entry, here, _⟩ := expires
    cases here
  kept := fun _ _ => rfl
  released := by
    intro outpoint releases
    obtain ⟨entry, here, _⟩ := releases
    cases here
  held := fun _ _ => rfl
  votes := fun _ present _ => present

theorem cleaned_current (state after : SwiftState)
    (current : hasExpired view entry.2 = false) (later : Cleaned view rest state after) :
    Cleaned view (entry :: rest) state after := by
  have sameExpires : ∀ hash, Expires view (entry :: rest) hash ↔ Expires view rest hash := by
    intro hash
    unfold Expires
    rw [exists_mem_cons_iff]
    simp [current]
  have sameReleases : ∀ outpoint, Releases view (entry :: rest) state outpoint ↔
      Releases view rest state outpoint := by
    intro outpoint
    rw [releases_cons]
    simp [Releases, current]
  exact
    { removed := fun hash expires => later.removed hash ((sameExpires hash).mp expires)
      kept := fun hash stays => later.kept hash fun expires =>
        stays ((sameExpires hash).mpr expires)
      released := fun outpoint releases =>
        later.released outpoint ((sameReleases outpoint).mp releases)
      held := fun outpoint keeps => later.held outpoint fun releases =>
        keeps ((sameReleases outpoint).mpr releases)
      votes := fun hash present others => later.votes hash present fun other member =>
        others other (mem_cons_of_mem _ member) }

theorem cleaned_expired (state after : SwiftState)
    (keyed : entry.2.txHash = entry.1) (expired : hasExpired view entry.2 = true)
    (distinct : entry.1 ∉ rest.map Sigma.fst)
    (later : Cleaned view rest (cleanLock view state entry) after) :
    Cleaned view (entry :: rest) state after := by
  rcases cleanLock_expired view state entry keyed expired with
    ⟨locks, requests, released, held, votes⟩
  have others : ∀ other ∈ rest, other.1 ≠ entry.1 := by
    intro other member same
    exact distinct (same ▸ mem_map_of_mem member)
  have sameReleases : ∀ outpoint, Releases view rest (cleanLock view state entry) outpoint ↔
      Releases view rest state outpoint := by
    intro outpoint
    unfold Releases
    apply exists_congr
    intro other
    apply and_congr_right
    intro member
    rw [requests other.1 (others other member)]
  exact
    { removed := by
        intro hash expires
        by_cases inRest : Expires view rest hash
        · exact later.removed hash inRest
        · rw [later.kept hash inRest, locks]
          obtain ⟨other, member, same, isExpired⟩ := expires
          obtain here | there := mem_cons.mp member
          · rw [← same, here, AList.lookup_erase]
          · exact absurd ⟨other, there, same, isExpired⟩ inRest
      kept := by
        intro hash stays
        have notRest : ¬ Expires view rest hash := by
          intro expires
          obtain ⟨other, member, both⟩ := expires
          exact stays ⟨other, mem_cons_of_mem _ member, both⟩
        have notHere : hash ≠ entry.1 := by
          intro same
          exact stays ⟨entry, mem_cons_self, same.symm, expired⟩
        rw [later.kept hash notRest, locks, AList.lookup_erase_ne notHere]
      released := by
        intro outpoint releases
        by_cases inRest : Releases view rest state outpoint
        · exact later.released outpoint ((sameReleases outpoint).mpr inRest)
        · rw [later.held outpoint fun again => inRest ((sameReleases outpoint).mp again)]
          apply released
          exact ((releases_cons view entry rest state outpoint).mp releases).resolve_right inRest
      held := by
        intro outpoint keeps
        rw [releases_cons, not_or] at keeps
        rw [later.held outpoint fun again => keeps.2 ((sameReleases outpoint).mp again)]
        exact held outpoint keeps.1
      votes := by
        intro hash present free
        apply later.votes hash
        · exact votes hash present (free entry mem_cons_self expired)
        · intro other member isExpired
          exact free other (mem_cons_of_mem _ member) isExpired }

theorem cleanLocks_cleaned (entries : List LockEntry) (state : SwiftState)
    (keyed : ∀ entry ∈ entries, entry.2.txHash = entry.1)
    (distinct : (entries.map Sigma.fst).Nodup) :
    Cleaned view entries state (entries.foldl (cleanLock view) state) := by
  induction entries generalizing state with
  | nil => exact cleaned_nil view state
  | cons entry rest ih =>
    obtain ⟨ownKey, otherKeys⟩ := forall_mem_cons.mp keyed
    rw [map_cons, nodup_cons] at distinct
    have later := ih (cleanLock view state entry) otherKeys distinct.2
    rw [foldl_cons]
    cases expired : hasExpired view entry.2 with
    | false =>
      have unchanged : cleanLock view state entry = state := by
        unfold cleanLock
        rw [if_neg (by simp [expired])]
      rw [unchanged] at later ⊢
      exact cleaned_current view entry rest state _ expired later
    | true => exact cleaned_expired view entry rest state _ ownKey expired distinct.1 later

def Keyed (state : SwiftState) : Prop :=
  AllLocks (fun hash txHash _ => txHash = hash) state.mapTxLocks

theorem mem_entries_iff (entry : LockEntry) :
    entry ∈ state.mapTxLocks.entries ↔ state.mapTxLocks.lookup entry.1 = some entry.2 :=
  AList.mem_lookup_iff.symm

theorem cleanTransactionLocksList_cleaned (keyed : Keyed state)
    (tip : view.node.chainActive.isEmpty = false) :
    Cleaned view state.mapTxLocks.entries state (cleanTransactionLocksList view state) := by
  unfold cleanTransactionLocksList
  rw [if_neg (by simp [tip])]
  apply cleanLocks_cleaned
  · intro entry member
    exact keyed entry.1 entry.2 ((mem_entries_iff state entry).mp member)
  · exact state.mapTxLocks.nodupKeys

end Cleanup

end ZenonCore.SwiftTX
