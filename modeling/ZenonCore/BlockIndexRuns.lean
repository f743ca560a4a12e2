import ZenonCore.BlockIndexLoad
import ZenonCore.Library.Runs

/-!
# What happens to the block index

The functions that change the entries of the block index, as events of a run.
-/

namespace ZenonCore.BlockIndexRuns

open AcceptBlock BlockIndexDisk BlockIndexLoad BlockReads
open BoundedReads Chain Primitives MoneySupply
open StakeInput
open Library.Runs (run AllSteps)

structure RunServices extends IndexServices where
  /-- `GetStakeModifierChecksum`, from the checksum of the parent and the flags,
  the proof and the modifier of the entry. -/
  getStakeModifierChecksum : UInt32 → UInt32 → Uint256 → UInt64 → UInt32
  /-- The blocks on disk, by file and position. -/
  files : Nat → UInt32 → Option CBlock

inductive ValidityLevel
  | tree
  | transactions
  | scripts
deriving DecidableEq, Repr

def ValidityLevel.code : ValidityLevel → UInt32
  | .tree => 2
  | .transactions => 3
  | .scripts => 5

def blockValidMask : UInt32 := 7

inductive StatusChange
  | failedValid
  | failedChild
  | clearFailed
deriving DecidableEq, Repr

def StatusChange.apply (nStatus : UInt32) : StatusChange → UInt32
  | .failedValid => nStatus ||| 32
  | .failedChild => nStatus ||| 64
  | .clearFailed => nStatus &&& ~~~blockFailedMask

section Entries

variable (entry : BlockIndexEntry)

def raiseValidity (nUpTo : ValidityLevel) : BlockIndexEntry :=
  { entry with
    nStatus :=
      if entry.nStatus &&& blockFailedMask != 0 then entry.nStatus
      else if entry.nStatus &&& blockValidMask < nUpTo.code then
        (entry.nStatus &&& ~~~blockValidMask) ||| nUpTo.code
      else entry.nStatus }

def supplyEntry : SupplyEntry where
  mapZerocoinSupply := entry.mapZerocoinSupply
  vMintDenominationsInBlock := entry.vMintDenominationsInBlock
  nMoneySupply := entry.nMoneySupply
  nMint := entry.nMint

def setSupply (supply : SupplyEntry) : BlockIndexEntry :=
  { entry with
    mapZerocoinSupply := supply.mapZerocoinSupply
    vMintDenominationsInBlock := supply.vMintDenominationsInBlock
    nMoneySupply := supply.nMoneySupply
    nMint := supply.nMint }

def stakeEntryOf : StakeEntry where
  nStakeModifier := entry.nStakeModifier
  fGeneratedStakeModifier := entry.nFlags &&& blockStakeModifier != 0
  nStakeModifierV2 := entry.nStakeModifierV2

/-- `SetStakeModifier` or the modifier of the second version. -/
def setStake (stake : StakeEntry) : BlockIndexEntry :=
  { entry with
    nStakeModifier := stake.nStakeModifier
    nFlags :=
      if stake.fGeneratedStakeModifier then entry.nFlags ||| blockStakeModifier else entry.nFlags
    nStakeModifierV2 := stake.nStakeModifierV2 }

end Entries

section Reading

variable (services : RunServices)

/-- The block of an entry: its header, and its transactions if they are here. -/
def blockOf (hash : Uint256) (entry : BlockIndexEntry) : CBlock :=
  let data := if entry.haveData then services.files entry.nFile entry.nDataPos else none
  { hash := hash
    nVersion := entry.nVersion
    hashPrevBlock := entry.pprev.getD 0
    hashMerkleRoot := entry.hashMerkleRoot
    nTime := entry.nTime
    nBits := entry.nBits
    nNonce := entry.nNonce
    nAccumulatorCheckpoint := entry.nAccumulatorCheckpoint
    vtx := (data.map CBlock.vtx).getD []
    vchBlockSig := (data.map CBlock.vchBlockSig).getD [] }

def chainFrom (index : BlockIndex) : Nat → Option Uint256 → CBlockIndex
  | 0, _ => []
  | _, none => []
  | fuel + 1, some hash =>
    match index hash with
    | none => []
    | some entry => blockOf services hash entry :: chainFrom index fuel entry.pprev

def chainOf (index : BlockIndex) (hash : Uint256) : CBlockIndex :=
  match index hash with
  | none => []
  | some entry => chainFrom services index (entry.nHeight + 1) (some hash)

def entryAt (index : BlockIndex) : CBlockIndex → Option BlockIndexEntry
  | [] => none
  | block :: _ => index block.hash

def stakeEntries (index : BlockIndex) (pindex : CBlockIndex) : StakeEntry :=
  ((entryAt index pindex).map stakeEntryOf).getD
    { nStakeModifier := 0, fGeneratedStakeModifier := false, nStakeModifierV2 := 0 }

/-- What validation reads of an index, with the rest of the node. -/
def storeOf (base : BlockStore) (index : BlockIndex) : BlockStore where
  node :=
    { base.node with
      mapBlockIndex := fun hash => (index hash).map fun _ => chainOf services index hash }
  nStatus := fun pindex =>
    ((entryAt index pindex).map fun entry =>
      { fFailed := entry.failed, fHaveData := entry.haveData }).getD
        { fFailed := false, fHaveData := false }
  stakeEntry := stakeEntries index
  mapProofOfStake := base.mapProofOfStake

end Reading

section Events

variable (services : RunServices)

def hashOf (block : CBlock) : Uint256 :=
  services.hashes.getHash block.nVersion block.hashPrevBlock block.hashMerkleRoot block.nTime
    block.nBits block.nNonce block.nAccumulatorCheckpoint

def ofBlock (block : CBlock) : Reading BlockIndexEntry := do
  let header : BlockIndexEntry :=
    { BlockIndexEntry.null with
      nVersion := block.nVersion
      hashMerkleRoot := block.hashMerkleRoot
      nTime := block.nTime
      nBits := block.nBits
      nNonce := block.nNonce
      nAccumulatorCheckpoint := if 3 < block.nVersion then block.nAccumulatorCheckpoint else 0 }
  let isPoS ← isProofOfStakeReading block
  if isPoS then do
    let tx ← readAt .indexedStake block.vtx 1
    let txin ← readAt .indexedStake tx.vin 0
    .ok
      { header with
        nFlags := blockProofOfStake
        prevoutStake := txin.prevout
        nStakeTime := block.nTime }
  else .ok header

def behind (prev hash : Uint256) (parent : BlockIndexEntry) (proof : Uint256) (stake : StakeEntry)
    (entry : BlockIndexEntry) : BlockIndexEntry :=
  let flagged : BlockIndexEntry :=
    { entry with
      pprev := some prev
      nHeight := parent.nHeight + 1
      nFlags := if hash.toNat % 2 = 1 then entry.nFlags ||| blockStakeEntropy else entry.nFlags
      hashProofOfStake := if entry.isProofOfStake then proof else entry.hashProofOfStake }
  let staked := setStake flagged stake
  if services.params.isStakeModifierV2 (parent.nHeight + 1 : Nat) then staked
  else
    { staked with
      nStakeModifierChecksum :=
        services.getStakeModifierChecksum parent.nStakeModifierChecksum staked.nFlags
          staked.hashProofOfStake staked.nStakeModifier }

def addToBlockIndex (block : CBlock) (proof : Uint256) (index : BlockIndex) :
    Reading BlockIndex := do
  let hash := hashOf services block
  match index hash with
  | some _ => .ok index
  | none => do
      let blank ← ofBlock block
      match index block.hashPrevBlock with
      | none => .ok (Function.update index hash (some (raiseValidity blank .tree)))
      | some parent => do
          let stake ← newStakeEntry services.toAcceptServices (stakeEntries index) block
            (chainOf services index block.hashPrevBlock)
          let entry := behind services block.hashPrevBlock hash parent proof stake blank
          .ok (Function.update index hash (some (raiseValidity entry .tree)))

/-- `ReceivedBlockTransactions`, as far as it changes the entry. -/
def receivedBlockTransactions (block : CBlock) (nFile : Nat) (nPos : UInt32)
    (entry : BlockIndexEntry) : BlockIndexEntry :=
  raiseValidity
    { entry with
      nFlags := if block.isProofOfStake then entry.nFlags ||| blockProofOfStake else entry.nFlags
      nTx := UInt32.ofNat block.vtx.length
      nFile := nFile
      nDataPos := nPos
      nUndoPos := 0
      nStatus := entry.nStatus ||| blockHaveData } .transactions

def writeUndo (nPos : UInt32) (entry : BlockIndexEntry) : BlockIndexEntry :=
  raiseValidity
    (if entry.haveUndo then entry
      else { entry with nUndoPos := nPos, nStatus := entry.nStatus ||| blockHaveUndo }) .scripts

def setMoneySupply (nMoneySupplyPrev nValueIn nValueOut nFees : CAmount)
    (entry : BlockIndexEntry) : BlockIndexEntry :=
  { entry with
    nMoneySupply := nMoneySupplyPrev + nValueOut - nValueIn
    nMint := nMoneySupplyPrev + nValueOut - nValueIn - nMoneySupplyPrev + nFees }

def parentSupply (index : BlockIndex) (entry : BlockIndexEntry) : SupplyEntry :=
  ((entry.pprev.bind index).map supplyEntry).getD SupplyEntry.null

def chainBehind (index : BlockIndex) (entry : BlockIndexEntry) : CBlockIndex :=
  chainFrom services index entry.nHeight entry.pprev

def updateEntrySupply (block : CBlock) (index : BlockIndex) (entry : BlockIndexEntry) :
    SupplyEntry × Except Script.Fault Bool :=
  updateZZNNSupply services.toSupplyServices block (chainBehind services index entry)
    (parentSupply index entry) (supplyEntry entry)

/-- What happens to the index. The last event is one write of a recalculation
of the supplies. -/
inductive IndexEvent
  | addToBlockIndex (block : CBlock) (proof : Uint256)
  | receivedBlockTransactions (hash : Uint256) (block : CBlock) (nFile : Nat) (nPos : UInt32)
  | writeUndo (hash : Uint256) (nPos : UInt32)
  | setMoneySupply (hash : Uint256) (nValueIn nValueOut nFees : CAmount)
  | updateZZNNSupply (hash : Uint256) (block : CBlock) (result : Option Bool)
  | raiseValidity (hash : Uint256) (nUpTo : ValidityLevel)
  | setStatus (hash : Uint256) (change : StatusChange)
  | rewriteSupply (hash : Uint256) (supply : SupplyEntry)

def modify (index : BlockIndex) (hash : Uint256)
    (change : BlockIndexEntry → Option BlockIndexEntry) : Option BlockIndex :=
  match index hash with
  | none => none
  | some entry => (change entry).map fun changed => Function.update index hash (some changed)

/-- One event. An update of the zerocoin supply comes with what it returns. -/
def step (index : BlockIndex) : IndexEvent → Option BlockIndex
  | .addToBlockIndex block proof => (addToBlockIndex services block proof index).toOption
  | .receivedBlockTransactions hash block nFile nPos =>
    modify index hash fun entry => some (receivedBlockTransactions block nFile nPos entry)
  | .writeUndo hash nPos => modify index hash fun entry => some (writeUndo nPos entry)
  | .setMoneySupply hash nValueIn nValueOut nFees =>
    modify index hash fun entry => some
      (setMoneySupply (parentSupply index entry).nMoneySupply nValueIn nValueOut nFees entry)
  | .updateZZNNSupply hash block result =>
    modify index hash fun entry =>
      let updated := updateEntrySupply services block index entry
      if updated.2.toOption = result then some (setSupply entry updated.1) else none
  | .raiseValidity hash nUpTo => modify index hash fun entry => some (raiseValidity entry nUpTo)
  | .setStatus hash change =>
    modify index hash fun entry =>
      some { entry with nStatus := change.apply entry.nStatus }
  | .rewriteSupply hash supply => modify index hash fun entry => some (setSupply entry supply)

end Events

end ZenonCore.BlockIndexRuns
