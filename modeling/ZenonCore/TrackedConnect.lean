import ZenonCore.MoneySupply

/-!
# Connecting blocks with everything that is written

`ConnectBlock` and `TestBlockValidity` over the whole state: supplies, records on disk, stores
and rejected blocks.
-/

namespace ZenonCore.TrackedConnect

open Primitives ChainParams Coins Chain
open Validation Zerocoin Chainstate CheckBlock
open ConnectBlock StakeInput AcceptBlock BoundedReads
open BlockReads Effects MoneySupply

/-- The entry `ConnectBlock` is given: one of the index, or one of the caller's
own, which has no hash. -/
inductive IndexPointer
  | entry (pindex : CBlockIndex)
  | dummy (pprev : CBlockIndex)
deriving DecidableEq, Repr

namespace IndexPointer

def pprev : IndexPointer → CBlockIndex
  | entry pindex => pindex.pprev
  | dummy pprev => pprev

def nHeight (pointer : IndexPointer) : Int := pointer.pprev.nHeight + 1

def isExempt : IndexPointer → Bool
  | entry pindex => bip30Exempt (pindex.pprev.nHeight + 1) pindex.getBlockHash
  | dummy _ => false

def readSupply (state : IndexedState) : IndexPointer → SupplyEntry
  | entry pindex => state.supply pindex
  | dummy _ => SupplyEntry.null

/-- A write to the entry; the caller's own one is no part of the state. -/
def writeSupply (state : IndexedState) (written : SupplyEntry) : IndexPointer → IndexedState
  | entry pindex => state.setSupply pindex written
  | dummy _ => state

end IndexPointer

section Rejections

variable (services : Services) (here : LocalState) (node : NodeState)

/-- `CheckBlock` notes a block it rejects for its locks or its payee. -/
def notesRejected (block : CBlock) (fCheckMerkleRoot : Bool) : Bool :=
  (checkBlockBasics services block fCheckMerkleRoot).isOk && (checkBlockShape block).isOk &&
    !(checkBlockLocal here node block).isOk

/-- `mapRejectedBlocks.insert`, which keeps an earlier time. -/
def noteRejected (state : IndexedState) (block : CBlock) : IndexedState :=
  { state with
    mapRejectedBlocks := fun hash =>
      if hash = block.hash ∧ (state.mapRejectedBlocks hash).isNone then some here.getTime
      else state.mapRejectedBlocks hash }

def checkBlockTracked (block : CBlock) (fCheckMerkleRoot : Bool) : Tracked Unit := do
  write fun state =>
    if notesRejected services here state.node block fCheckMerkleRoot then
      noteRejected here state block
    else state
  inspect fun state => check (checkBlock services here state.node block fCheckMerkleRoot)

end Rejections

section Accumulators

variable (services : SupplyServices)

/-- `AccumulatorMap::Load`: each checksum of the checkpoint has its value. -/
def loadsCheckpoint (node : NodeState) (nCheckpoint : Uint256) : Bool :=
  zerocoinDenomList.all fun denom =>
    (node.zerocoinDB.accumulatorValues (parseDenominationChecksum nCheckpoint denom)).isSome

/-- The checksums of an entry are erased. The checkpoint as a whole is looked
for among the checksums before the range. -/
def eraseCheckpoint (listCheckpointsPrev : List UInt32) (db : CZerocoinDB)
    (pindex : CBlockIndex) : CZerocoinDB :=
  zerocoinDenomList.foldl (fun db denom =>
    if listCheckpointsPrev.any fun checksum =>
        BitVec.ofNat 256 checksum.toNat == pindex.nAccumulatorCheckpoint then db
    else db.eraseAccumulatorValue (parseDenominationChecksum pindex.nAccumulatorCheckpoint denom))
    db

def eraseCheckpoints (node : NodeState) (nStartHeight nEndHeight : Int) : CZerocoinDB :=
  if node.chainActive.nHeight < nStartHeight then node.zerocoinDB
  else
    let listCheckpointsPrev := zerocoinDenomList.map (parseDenominationChecksum
      (node.chainActive.atHeight nStartHeight).pprev.nAccumulatorCheckpoint)
    ((activeFrom node.chainActive nStartHeight).filter fun pindex =>
      decide (CBlockIndex.nHeight pindex ≤ max nStartHeight nEndHeight)).foldl
        (eraseCheckpoint listCheckpointsPrev) node.zerocoinDB

/-- `ValidateAccumulatorCheckpoint` comes to the one height at which the
accumulators are calculated anew. -/
def forcesRecalculation (node : NodeState) (nHeight : Int) : Bool :=
  decide (services.params.nBlockZerocoinV2 ≤ nHeight) && !node.fVerifyingBlocks &&
    decide (nHeight % 10 = 0) && decide (services.params.nZerocoinStartHeight ≤ nHeight) &&
    decide (nHeight = nBlockRecalculateAccumulators services.params) &&
    services.params.networkID != .main

def initializeAccumulators (node : NodeState) (nHeight : Int) : NodeState :=
  if forcesRecalculation services node nHeight && loadsCheckpoint node
      (node.chainActive.atHeight
        (nBlockLastGoodCheckpoint services.params)).nAccumulatorCheckpoint then
    { node with
      zerocoinDB :=
        eraseCheckpoints node (nBlockLastGoodCheckpoint services.params + 1) nHeight }
  else node

end Accumulators

section Connect

variable (services : SupplyServices) (here : LocalState)

/-- `ConnectBlock` from its first check of the height to the end of its loop. -/
def connectLoop (node : NodeState) (block : CBlock) (pointer : IndexPointer)
    (view : CCoinsView) : Validated Connecting := do
  let nHeight := pointer.nHeight
  require (!(decide (nHeight ≤ services.params.nLastPOWBlock) && block.isProofOfStake))
    (dos 100 "PoS-early")
  require (!(decide (services.params.nLastPOWBlock < nHeight) && block.isProofOfWork))
    (dos 100 "PoW-ended")
  onlyIf (!pointer.isExempt) (require (overwritesNothing view block) (dos 100 "bad-txns-BIP30"))
  connectTransactions services.toServices here node block nHeight
    (fScriptChecks services.toServices nHeight) (blockFlags services.toServices pointer.pprev) 0
    block.vtx (Connecting.start view)

/-- The money supply behind a block and what the block has minted. -/
def trackMoney (pprev : CBlockIndex) (parent own : SupplyEntry) (acc : Connecting) :
    SupplyEntry :=
  { own with
    nMoneySupply :=
      (if pprev.isEmpty then 0 else parent.nMoneySupply) + acc.nValueOut - acc.nValueIn
    nMint := acc.nValueOut - acc.nValueIn + acc.nFees }

/-- The update of the entry and the tracking of the money supply. -/
def updateEntry (block : CBlock) (pointer : IndexPointer) (acc : Connecting) : Tracked Unit :=
  inspect fun state => do
    let parent := state.supply pointer.pprev
    let updated := updateZZNNSupply services block pointer.pprev parent (pointer.readSupply state)
    write fun state => pointer.writeSupply state updated.1
    let success ← check (ofFault updated.2)
    check (require success (dos 100 ""))
    write fun state =>
      pointer.writeSupply state (trackMoney pointer.pprev parent updated.1 acc)

def recalculateAt (nHeight : Int) : Tracked Unit :=
  if nHeight = nBlockRecalculateAccumulators services.params + 1 then recalculateSupply services
  else pure ()

/-- What `ConnectBlock` checks of the values, the accumulators and the scripts. -/
def checkValues (block : CBlock) (nHeight : Int) (acc : Connecting) : Tracked Unit := do
  inspect fun state => check (require (isBlockValueValid services.params here.masternodeSynced
    state.node block (getBlockValue services.params (nHeight - 1) +
      if block.isProofOfWork then acc.nFees else 0)
    (acc.nValueOut - acc.nValueIn + acc.nFees)) (dos 100 "bad-cb-amount"))
  write fun state => { state with node := initializeAccumulators services state.node nHeight }
  check (require (here.validateAccumulatorCheckpoint block)
    (if here.shutdownRequested then refuse else dos 100 "bad-acc-checkpoint"))
  check (require (acc.vChecks.all (CScriptCheck.run services.toServices))
    (dos 100 "block-validation-failed"))

def finishConnect (block : CBlock) (fJustCheck : Bool) (acc : Connecting) : Tracked Connecting :=
  if fJustCheck then pure acc
  else do
    write fun state => { state with node := writeBlock here state.node block acc }
    pure { acc with view := acc.view.setBestBlock block.hash }

def connectBehindLoop (block : CBlock) (pointer : IndexPointer) (fJustCheck : Bool)
    (acc : Connecting) : Tracked Connecting := do
  recalculateAt services pointer.nHeight
  updateEntry services block pointer acc
  checkValues services here block pointer.nHeight acc
  finishConnect here block fJustCheck acc

/-- `ConnectBlock` behind the special case of the genesis block. -/
def connectOther (block : CBlock) (pointer : IndexPointer) (view : CCoinsView)
    (fJustCheck : Bool) : Tracked Connecting :=
  inspect fun state =>
    check (connectLoop services here state.node block pointer view) >>=
      connectBehindLoop services here block pointer fJustCheck

def checkUnlessChecked (block : CBlock) (fJustCheck fAlreadyChecked : Bool) : Tracked Unit :=
  if fAlreadyChecked then pure ()
  else checkBlockTracked services.toServices here block (!fJustCheck)

def connectBlockTracked (block : CBlock) (pointer : IndexPointer) (view : CCoinsView)
    (fJustCheck fAlreadyChecked : Bool) : Tracked Connecting := do
  checkUnlessChecked services here block fJustCheck fAlreadyChecked
  check (require (pointer.pprev.getBlockHash == view.hashBlock) (.error .assertion))
  if block.hash = services.params.hashGenesisBlock then
    pure (Connecting.start (view.setBestBlock block.hash))
  else connectOther services here block pointer view fJustCheck

def ofReading {α : Type} : Reading α → Validated α
  | .ok value => .ok value
  | .error (.outside _) => .error (.fault .outOfRange)
  | .error (.failed failure) => .error failure

/-- `TestBlockValidity`. Its parameter `fCheckPOW` goes to `CheckBlock`, which
does not use it. -/
def testBlockValidity (block : CBlock) (pindexPrev : CBlockIndex) (fCheckMerkleRoot : Bool) :
    Tracked Unit :=
  inspect fun state => do
    check (require (!pindexPrev.isEmpty) (.error .assertion))
    check (require (decide (pindexPrev = state.node.chainActive)) refuse)
    check (contextualCheckBlockHeader services.toAcceptServices here state.node block pindexPrev)
    checkBlockTracked services.toServices here block fCheckMerkleRoot
    check (ofReading (contextualCheckBlock services.toAcceptServices here state.node block
      pindexPrev))
    let _ ← connectBlockTracked services here block (.dummy pindexPrev) state.node.pcoinsTip true
      false
    pure ()

end Connect

end ZenonCore.TrackedConnect
