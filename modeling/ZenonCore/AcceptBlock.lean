import Mathlib.Data.Nat.Digits.Defs
import ZenonCore.ChainTip
import ZenonCore.StakeInput

/-!
# Accepting blocks

`AcceptBlockHeader`, the contextual checks and `AcceptBlock`. An entry of the block index is
its block with its ancestors; the bookkeeping of pillars is left out.
-/

namespace ZenonCore.AcceptBlock

open Script Primitives ChainParams Coins Chain
open Validation Zerocoin Chainstate ChainTip
open BoundedReads BlockReads ProofOfWork StakeInput

structure EntryStatus where
  /-- `BLOCK_FAILED_MASK`. -/
  fFailed : Bool
  /-- `BLOCK_HAVE_DATA`. -/
  fHaveData : Bool
deriving DecidableEq, Repr

/-- The node with what it keeps of the entries of its block index. -/
structure BlockStore where
  node : NodeState
  nStatus : CBlockIndex → EntryStatus
  stakeEntry : CBlockIndex → StakeEntry
  mapProofOfStake : Uint256 → Option Uint256

structure AcceptServices extends StakeServices where
  /-- The comparison of difficulties in floating point, by the two targets. -/
  nearEnough : UInt32 → UInt32 → Bool
  fCheckpointsEnabled : Bool
  /-- The checkpoints by height, the last one at the end. -/
  mapCheckpoints : List (Int × Uint256)
  /-- `ComputeNextStakeModifier`, and whether it generated the modifier. -/
  computeNextStakeModifier : (CBlockIndex → StakeEntry) → CBlockIndex → UInt64 × Bool
  /-- The hash of a kernel and the modifier before it. -/
  hashStakeModifier : Uint256 → StakeModifier → Uint256
  /-- `GetArg("-maxreorg", Params().MaxReorganizationDepth())`. -/
  maxReorg : Int

structure AcceptState extends PayeeState where
  findBlockPos : CBlock → Bool
  writeBlockToDisk : CBlock → Bool
  /-- `ReconsiderBlock` of an entry and then `ActivateBestChain`, and whether
  the first one left a valid state. -/
  reconsider : BlockStore → CBlockIndex → BlockStore × Bool

def checkpointsCheckBlock (services : AcceptServices) (nHeight : Int) (hash : Uint256)
    (fMatchesCheckpoint : Bool) : Bool :=
  if !services.fCheckpointsEnabled then true
  else match services.mapCheckpoints.lookup nHeight with
    | none => !fMatchesCheckpoint
    | some checkpoint => hash == checkpoint

def getLastCheckpoint (services : AcceptServices) (node : NodeState) : Option CBlockIndex :=
  if !services.fCheckpointsEnabled then none
  else services.mapCheckpoints.reverse.findSome? fun entry => node.mapBlockIndex entry.2

section Contextual

variable (services : AcceptServices) (here : LocalState) (node : NodeState)

def checkBlockTime (block : CBlock) (pindexPrev : CBlockIndex) : Validated Unit :=
  if services.params.networkID ≠ .main then .ok ()
  else do
    require (block.getBlockTime ≤
      pindexPrev.maxFutureBlockTime services.params here.getAdjustedTime) (dos 0 "time-too-new")
    require (pindexPrev.minPastBlockTime services.params < block.getBlockTime)
      (dos 50 "time-too-old")
    require (services.params.isValidBlockTimeStamp block.getBlockTime (pindexPrev.nHeight + 1))
      (dos 100 "invalid-time-mask")

def currentVersion : Nat := 6

/-- Whether the network has moved on to a later version than the block's. -/
def isOutdated (block : CBlock) (pindexPrev : CBlockIndex) : Bool :=
  (List.range' 2 (currentVersion - 1)).any fun version =>
    decide (block.nVersion < version) &&
      pindexPrev.isSuperMajority services.params version
        services.params.nRejectBlockOutdatedMajority

def contextualCheckBlockHeader (block : CBlock) (pindexPrev : CBlockIndex) : Validated Unit :=
  if block.hash = services.params.hashGenesisBlock then .ok ()
  else do
    require (!pindexPrev.isEmpty) (.error .assertion)
    let nHeight := pindexPrev.nHeight + 1
    require (services.params.networkID != .regtest ||
      block.nBits == getNextWorkRequired services.params pindexPrev) (dos 100 "bad-diffbits")
    require (node.chainActive.nHeight - nHeight < services.maxReorg) (dos 1 "")
    checkBlockTime services here block pindexPrev
    require (checkpointsCheckBlock services nHeight block.hash false)
      (dos 100 "checkpoint mismatch")
    require (match getLastCheckpoint services node with
      | none => true
      | some pcheckpoint => decide (pcheckpoint.nHeight ≤ nHeight)) (dos 0 "")
    require (!isOutdated services block pindexPrev) (dos 0 "bad-version")

def heightScript (nHeight : Int) : CScript :=
  if 1 ≤ nHeight ∧ nHeight ≤ 16 then [UInt8.ofNat (nHeight.toNat + 0x50)]
  else
    let digits := (Nat.digits 256 nHeight.toNat).map UInt8.ofNat
    let bytes := if digits.getLastD 0 &&& 0x80 = 0 then digits else digits ++ [0]
    UInt8.ofNat bytes.length :: bytes

/-- `IsFinalTx`, which takes a height or a time of zero for none. -/
def isFinalInBlock (block : CBlock) (nHeight : Int) (tx : CTransaction) : Bool :=
  isFinalTx tx (if nHeight = 0 then node.chainActive.nHeight else nHeight)
    (if block.getBlockTime = 0 then here.getAdjustedTime else block.getBlockTime)

def contextualCheckBlock (block : CBlock) (pindexPrev : CBlockIndex) : Reading Unit := do
  let nHeight := pindexPrev.nHeight + 1
  attempt (require (block.vtx.all (isFinalInBlock here node block nHeight))
    (dos 10 "bad-txns-nonfinal"))
  attempt (require (decide (block.nVersion < 2) || !pindexPrev.isEmpty) (.error .assertion))
  if decide (2 ≤ block.nVersion) && services.params.isStakeModifierV2 pindexPrev.nHeight &&
      pindexPrev.isSuperMajority services.params 2
        services.params.nEnforceBlockUpgradeMajority then do
    let tx ← readAt .heightScript block.vtx 0
    let txin ← readAt .heightScript tx.vin 0
    attempt (require ((heightScript nHeight).isPrefixOf txin.scriptSig)
      (dos 100 "bad-cb-height"))

end Contextual

section Header

variable (services : AcceptServices) (here : AcceptState)

/-- The stake data of a new entry; from modifier V2 on its kernel is the second transaction's first
input. -/
def newStakeEntry (stakeEntry : CBlockIndex → StakeEntry) (block : CBlock)
    (pprev : CBlockIndex) : Reading StakeEntry :=
  if pprev.isEmpty then
    .ok { nStakeModifier := 0, fGeneratedStakeModifier := false, nStakeModifierV2 := 0 }
  else if !services.params.isStakeModifierV2 (pprev.nHeight + 1) then
    let computed := services.computeNextStakeModifier stakeEntry pprev
    .ok
      { nStakeModifier := computed.1
        fGeneratedStakeModifier := computed.2
        nStakeModifierV2 := 0 }
  else do
    let tx ← readAt .modifierKernel block.vtx 1
    let txin ← readAt .modifierKernel tx.vin 0
    .ok
      { nStakeModifier := 0
        fGeneratedStakeModifier := false
        nStakeModifierV2 := services.hashStakeModifier txin.prevout.hash
          (.modifierV2 (stakeEntry pprev).nStakeModifierV2) }

/-- `CBlockIndex(block)`, as far as it reads the block by index. -/
def readIndexedStake (block : CBlock) : Reading Unit := do
  let isPoS ← isProofOfStakeReading block
  if isPoS then do
    let tx ← readAt .indexedStake block.vtx 1
    let _ ← readAt .indexedStake tx.vin 0

def addToBlockIndex (store : BlockStore) (block : CBlock) : Reading (BlockStore × CBlockIndex) :=
  match store.node.mapBlockIndex block.hash with
  | some pindex => .ok (store, pindex)
  | none => do
      readIndexedStake block
      let pprev := (store.node.mapBlockIndex block.hashPrevBlock).getD []
      let entry ← newStakeEntry services store.stakeEntry block pprev
      let pindexNew := block :: pprev
      .ok
        ({ store with
            node :=
              { store.node with
                mapBlockIndex := fun hash =>
                  if hash = block.hash then some pindexNew else store.node.mapBlockIndex hash }
            nStatus := fun pindex =>
              if pindex = pindexNew then { fFailed := false, fHaveData := false }
              else store.nStatus pindex
            stakeEntry := fun pindex =>
              if pindex = pindexNew then entry else store.stakeEntry pindex }, pindexNew)

/-- `AcceptBlockHeader`. A header that is known is not checked again. The
header's own proof of work is not checked here. -/
def acceptBlockHeader (store : BlockStore) (block : CBlock) :
    Reading (BlockStore × CBlockIndex) :=
  match store.node.mapBlockIndex block.hash with
  | some pindex => do
      attempt (require (!(store.nStatus pindex).fFailed) (dos 0 "duplicate"))
      .ok (store, pindex)
  | none => do
      let pindexPrev ← (
        if block.hash = services.params.hashGenesisBlock then .ok []
        else do
          let pindexPrev ← attempt
            (ofOption (store.node.mapBlockIndex block.hashPrevBlock) (dos 0 "bad-prevblk"))
          attempt (require (!(store.nStatus pindexPrev).fFailed) (dos 100 "bad-prevblk"))
          .ok pindexPrev)
      attempt (contextualCheckBlockHeader services here.toLocalState store.node block pindexPrev)
      addToBlockIndex services store block

end Header

section Stake

variable (services : AcceptServices) (store : BlockStore)

/-- The inputs of a coinstake that are not private zerocoin spends. -/
def znnInputs (stakeTx : CTransaction) : List CTxIn :=
  stakeTx.vin.filter fun txin => !txin.isZerocoinSpend

def zznnInputs (stakeTx : CTransaction) : List CTxIn := stakeTx.vin.filter CTxIn.isZerocoinSpend

/-- One input of the loop over the block: its serial numbers, and the inputs of the coinstake. -/
def checkInBlock (nHeight : Int) (stakeTx tx : CTransaction) (inBlockSerials : List Int)
    (txin : CTxIn) : Reading (List Int) := do
  let counted ← (
    if services.params.nZerocoinStartHeight ≤ nHeight ∧ txin.spendsZerocoin then do
      attempt (require (checkPublicCoinSpendEnforced services.params nHeight
        txin.isZerocoinPublicSpend) refuse)
      readSpentOutput store.node txin
      let spend ← attempt (readSpend services.toServices store.node tx txin)
      attempt (require (!inBlockSerials.contains spend.coinSpend.coinSerialNumber) (dos 100 ""))
      .ok (spend.coinSpend.coinSerialNumber :: inBlockSerials)
    else .ok inBlockSerials)
  attempt (require (tx.isCoinStake ||
    (znnInputs stakeTx).all fun znnIn => znnIn.prevout != txin.prevout) refuse)
  .ok counted

/-- One input of a fork block for each ordinary coinstake input, where alone serials are noted. -/
def forkInput (stakeTx : CTransaction) (vBlockSerials : List Int) (txin : CTxIn) :
    Validated (List Int) :=
  (znnInputs stakeTx).foldlM (fun serials stakeIn => do
    require (stakeIn.prevout != txin.prevout) (dos 100 "")
    if txin.isZerocoinSpend then do
      let spend ← ofFault (txInToZerocoinSpend services.lib txin)
      .ok (spend.coinSerialNumber :: serials)
    else .ok serials) vBlockSerials

/-- The loops over the transactions of a fork block and their inputs. -/
def forkBlock (stakeTx : CTransaction) (vBlockSerials : List Int) (block : CBlock) :
    Validated (List Int) :=
  block.vtx.foldlM (fun serials tx =>
    tx.vin.foldlM (forkInput services stakeTx) serials) vBlockSerials

def readBlockFromDisk (pindex : CBlockIndex) : Validated Unit := do
  require (!pindex.isEmpty) (.error .assertion)
  require (store.nStatus pindex).fHaveData refuse

/-- The way back over the forked chain up to the split, with the serial
numbers it has noted. -/
def walkFork (stakeTx : CTransaction) :
    Int → CBlockIndex → List Int → Validated (CBlockIndex × List Int)
  | _, [], _ => .error .assertion
  | readBlock, block :: pprev, vBlockSerials =>
    if store.node.chainActive.contains (block :: pprev) then .ok (block :: pprev, vBlockSerials)
    else do
      require (readBlock + 1 != services.params.nMaxReorganizationDepth) refuse
      let noted ← forkBlock services stakeTx vBlockSerials block
      readBlockFromDisk store pprev
      walkFork stakeTx (readBlock + 1) pprev noted

def checkForkSpend (nHeight splitHeight : Int) (stakeTx : CTransaction)
    (vBlockSerials : List Int) (zznnInput : CTxIn) : Validated Unit := do
  let spend ← ofFault (txInToZerocoinSpend services.lib zznnInput)
  require (!vBlockSerials.contains spend.coinSerialNumber) (dos 100 "")
  require (match isSerialInBlockchain store.node spend.coinSerialNumber with
    | none => true
    | some nHeightTx => decide (splitHeight < nHeightTx)) (dos 100 "")
  require (contextualCheckZerocoinSpendNoSerialCheck services.toServices stakeTx
    (.zerocoinSpend spend) nHeight) (dos 100 "bad-txns-invalid-zznn")
  let bnAccumulatorValue ← ofOption
    (store.node.zerocoinDB.accumulatorValues spend.accChecksum) (dos 100 "")
  require (services.lib.verify spend
    (store.node.chainActive.nHeight < services.params.nBlockZerocoinV2) bnAccumulatorValue
    (!isBlockBetweenFakeSerialAttackRange services.params nHeight)) (dos 100 "")

def checkFork (nHeight : Int) (stakeTx : CTransaction) (pindexPrev : CBlockIndex) :
    Validated Unit := do
  readBlockFromDisk store pindexPrev
  let (split, vBlockSerials) ← walkFork services store stakeTx 0 pindexPrev []
  (zznnInputs stakeTx).forM
    (checkForkSpend services store nHeight split.nHeight stakeTx vBlockSerials)

/-- The coins of an ordinary coinstake, or the private spends of one on the
active chain. -/
def checkStakeInputs (isBlockFromFork : Bool) (nHeight : Int) (stakeTx : CTransaction) :
    Validated Unit :=
  if !stakeTx.hasZerocoinSpendInputs then
    require (isBlockFromFork || stakeTx.vin.all fun txin =>
      match store.node.pcoinsTip.accessCoins txin.prevout.hash with
      | none => false
      | some coins => coins.isAvailable txin.prevout.n.toNat) refuse
  else
    onlyIf (!isBlockFromFork) ((zznnInputs stakeTx).forM fun zznnInput => do
      let spend ← ofFault (txInToZerocoinSpend services.lib zznnInput)
      require (contextualCheckZerocoinSpend services.toServices store.node stakeTx
        (.zerocoinSpend spend) nHeight) (dos 100 "bad-txns-invalid-zznn"))

def checkStake (block : CBlock) (pindexPrev : CBlockIndex) (nHeight : Int) : Reading Unit := do
  let isBlockFromFork := !pindexPrev.isEmpty && decide (store.node.chainActive ≠ pindexPrev)
  let stakeTx ← readAt .acceptedStake block.vtx 1
  let _ ← block.vtx.foldlM (fun serials tx =>
    tx.vin.foldlM (checkInBlock services store nHeight stakeTx tx) serials) []
  attempt (onlyIf isBlockFromFork (checkFork services store nHeight stakeTx pindexPrev))
  attempt (checkStakeInputs services store isBlockFromFork nHeight stakeTx)

end Stake

section Accept

variable (services : AcceptServices) (here : AcceptState)

def andThen {α β : Type} (store : BlockStore) (run : Reading α)
    (next : α → BlockStore × Reading β) : BlockStore × Reading β :=
  match run with
  | .error stop => (store, .error stop)
  | .ok value => next value

def parentOf (store : BlockStore) (block : CBlock) : Validated CBlockIndex :=
  if block.hash = services.params.hashGenesisBlock then .ok []
  else ofOption (store.node.mapBlockIndex block.hashPrevBlock) (dos 0 "bad-prevblk")

def markedParent (store : BlockStore) (block : CBlock) : Option CBlockIndex :=
  if block.hash = services.params.hashGenesisBlock then none
  else (store.node.mapBlockIndex block.hashPrevBlock).filter fun pindexPrev =>
    (store.nStatus pindexPrev).fFailed

/-- A marked parent that is a checkpoint is reconsidered; if that goes well the
block itself is passed over. -/
def acceptBehindMarked (store : BlockStore) (block : CBlock) (pindexPrev : CBlockIndex) :
    BlockStore × Reading Unit :=
  if checkpointsCheckBlock services pindexPrev.nHeight block.hashPrevBlock true then
    match here.reconsider store pindexPrev with
    | (after, true) => (after, .ok ())
    | (after, false) => (after, attempt (dos 100 "bad-prevblk"))
  else (store, attempt (dos 100 "bad-prevblk"))

def checkProofs (store : BlockStore) (block : CBlock) (pindexPrev : CBlockIndex) :
    Reading (Option Uint256) := do
  attempt (require (decide (block.hash = services.params.hashGenesisBlock) ||
    checkWork services.params services.nearEnough block pindexPrev) refuse)
  let isPoS ← isProofOfStakeReading block
  if isPoS then do
    attempt (require (!pindexPrev.isEmpty) (.error .assertion))
    let hashProofOfStake ← orDosReading (checkProofOfStake services.toStakeServices store.node
      store.stakeEntry block pindexPrev pindexPrev.nHeight) 100 "" false
    .ok (some hashProofOfStake)
  else .ok none

def recordProof (store : BlockStore) (block : CBlock) (proof : Option Uint256) : BlockStore :=
  { store with
    mapProofOfStake := fun hash =>
      if hash = block.hash ∧ (store.mapProofOfStake hash).isNone then proof
      else store.mapProofOfStake hash }

/-- A block that fails its checks is marked, unless it may be corrupted. -/
def markFailed (store : BlockStore) (pindex : CBlockIndex) (stop : BoundedReads.Stop Site Failure) :
    BlockStore :=
  match stop with
  | .failed (.rejected state) =>
    if state.isInvalid && !state.corruptionPossible then
      { store with
        nStatus := fun other =>
          if other = pindex then { store.nStatus pindex with fFailed := true }
          else store.nStatus other }
    else store
  | _ => store

/-- `CheckBlock`, if the caller has not called it, and `ContextualCheckBlock`. -/
def checkAccepted (node : NodeState) (block : CBlock) (pprev : CBlockIndex)
    (fAlreadyCheckedBlock : Bool) : Reading Unit := do
  if !fAlreadyCheckedBlock then
    checkBlockReading services.toServices here.toPayeeState node block true
  contextualCheckBlock services here.toLocalState node block pprev

def acceptNew (store : BlockStore) (block : CBlock) (pindexPrev pindex : CBlockIndex)
    (isPoS fAlreadyCheckedBlock : Bool) : BlockStore × Reading Unit :=
  match checkAccepted services here store.node block pindex.pprev fAlreadyCheckedBlock with
  | .error stop => (markFailed store pindex stop, .error stop)
  | .ok () =>
    andThen store (if isPoS then checkStake services store block pindexPrev pindex.nHeight
      else .ok ()) fun () =>
        andThen store (attempt (require (here.findBlockPos block) refuse)) fun () =>
          andThen store (attempt (require (here.writeBlockToDisk block)
            (abort "Failed to write block"))) fun () =>
              ({ store with
                  nStatus := fun other =>
                    if other = pindex then { store.nStatus pindex with fHaveData := true }
                    else store.nStatus other }, .ok ())

/-- `AcceptBlock`, and the store it leaves in any case. A block that is here
already is passed over. -/
def acceptBlock (store : BlockStore) (block : CBlock) (fAlreadyCheckedBlock : Bool) :
    BlockStore × Reading Unit :=
  match markedParent services store block with
  | some pindexPrev => acceptBehindMarked services here store block pindexPrev
  | none =>
    andThen store (attempt (parentOf services store block)) fun pindexPrev =>
      andThen store (checkProofs services store block pindexPrev) fun proof =>
        let recorded := recordProof store block proof
        andThen recorded (acceptBlockHeader services here recorded block) fun accepted =>
          if (accepted.1.nStatus accepted.2).fHaveData then (accepted.1, .ok ())
          else acceptNew services here accepted.1 block pindexPrev accepted.2 proof.isSome
            fAlreadyCheckedBlock

end Accept

end ZenonCore.AcceptBlock
