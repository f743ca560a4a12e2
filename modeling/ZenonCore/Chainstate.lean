import ZenonCore.Chain
import ZenonCore.Mempool
import ZenonCore.Validation
import ZenonCore.Zerocoin

/-!
# The node's chain state and its lookups

What the validation code shares, with the lookups of transactions, outputs and serial numbers
in it.
-/

namespace ZenonCore.Chainstate

open Primitives ChainParams Coins Mempool
open Chain Validation Zerocoin

/-- `CZerocoinDB`. The source keys spends and mints by the hash of the serial number or the coin's
value. -/
structure CZerocoinDB where
  spends : Int → Option Uint256
  mints : Int → Option Uint256
  accumulatorValues : UInt32 → Option Int

namespace CZerocoinDB

def empty : CZerocoinDB :=
  { spends := fun _ => none, mints := fun _ => none, accumulatorValues := fun _ => none }

def readCoinSpend (db : CZerocoinDB) (bnSerial : Int) : Option Uint256 := db.spends bnSerial

def readCoinMint (db : CZerocoinDB) (bnPubcoin : Int) : Option Uint256 := db.mints bnPubcoin

def eraseCoinSpend (db : CZerocoinDB) (bnSerial : Int) : CZerocoinDB :=
  { db with spends := fun other => if other = bnSerial then none else db.spends other }

def eraseCoinMint (db : CZerocoinDB) (bnPubcoin : Int) : CZerocoinDB :=
  { db with mints := fun other => if other = bnPubcoin then none else db.mints other }

def eraseAccumulatorValue (db : CZerocoinDB) (nChecksum : UInt32) : CZerocoinDB :=
  { db with
    accumulatorValues := fun other => if other = nChecksum then none else db.accumulatorValues other }

def writeAccumulatorValue (db : CZerocoinDB) (entry : UInt32 × Int) : CZerocoinDB :=
  { db with
    accumulatorValues := fun other =>
      if other = entry.1 then some entry.2 else db.accumulatorValues other }

def writeCoinSpend (db : CZerocoinDB) (spend : CoinSpend × Uint256) : CZerocoinDB :=
  { db with
    spends := fun other =>
      if other = spend.1.coinSerialNumber then some spend.2 else db.spends other }

def writeCoinSpendBatch (db : CZerocoinDB) (spendInfo : List (CoinSpend × Uint256)) :
    CZerocoinDB :=
  spendInfo.foldl writeCoinSpend db

def writeCoinMint (db : CZerocoinDB) (mint : PublicCoin × Uint256) : CZerocoinDB :=
  { db with mints := fun other => if other = mint.1.value then some mint.2 else db.mints other }

def writeCoinMintBatch (db : CZerocoinDB) (mintInfo : List (PublicCoin × Uint256)) :
    CZerocoinDB :=
  mintInfo.foldl writeCoinMint db

end CZerocoinDB

structure NodeState where
  mapBlockIndex : Uint256 → Option CBlockIndex
  chainActive : CBlockIndex
  pcoinsTip : CCoinsView
  mempool : CTxMemPool
  zerocoinDB : CZerocoinDB
  fTxIndex : Bool
  /-- The block and the transaction at the position `ReadTxIndex` gives. -/
  txIndex : Uint256 → Option (Uint256 × CTransaction)
  /-- The undo data on disk, by block. -/
  blockUndo : Uint256 → Option (List (List CTxInUndo))
  fVerifyingBlocks : Bool

/-- What the chain code takes from the rest of the program: serialised sizes, proof of work, scripts
and built-in lists. -/
structure Services where
  params : CChainParams
  lib : Libzerocoin
  getSerializeSize : CTransaction → Nat
  getBlockSerializeSize : CBlock → Nat
  /-- `BuildMerkleTree(&mutated)`. -/
  buildMerkleTree : List CTransaction → Uint256 × Bool
  checkProofOfWork : Uint256 → UInt32 → Bool
  getLegacySigOpCount : CTransaction → Nat
  getP2SHSigOpCount : CTransaction → CCoinsView → Nat
  /-- `CScriptCheck(coins, tx, i, flags)`, by the output of the coins it spends. -/
  scriptCheck : CTxOut → CTransaction → Nat → UInt32 → Bool
  getTotalBlocksEstimate : Int
  /-- `invalid_out::ContainsOutPoint`. -/
  containsOutPoint : COutPoint → Bool
  isStandardTx : CTransaction → Bool
  areInputsStandard : CTransaction → CCoinsView → Bool

/-- What the chain code reads of the node at the moment it runs. -/
structure LocalState where
  getTime : Int
  getAdjustedTime : Int
  isInitialBlockDownload : Bool
  /-- `GetSporkValue(SPORK_16_ZEROCOIN_MAINTENANCE_MODE)`. -/
  sporkZerocoinMaintenanceMode : Int
  /-- `IsSporkActive(SPORK_3_SWIFTTX_BLOCK_FILTERING)`. -/
  sporkSwiftTXBlockFiltering : Bool
  mapLockedInputs : COutPoint → Option Uint256
  isBlockPayeeValid : CBlock → Int → Bool
  /-- `masternodeSync.IsSynced()`. -/
  masternodeSynced : Bool
  updateZZNNSupply : CBlock → Bool
  validateAccumulatorCheckpoint : CBlock → Bool
  /-- What `DatabaseChecksums` records of the accumulators of a block. -/
  databaseChecksums : CBlock → List (UInt32 × Int)
  nScriptCheckThreads : Nat
  /-- The rules of `AcceptToMemoryPool` on fee, priority and rate. -/
  feePolicy : CTransaction → CAmount → Validated Unit
  shutdownRequested : Bool

/-- `GetTransaction` with `fAllowSlow`: the transaction, and the hash of its
block, which the pool leaves at zero. -/
def getTransaction (node : NodeState) (hash : Uint256) : Option (CTransaction × Uint256) :=
  match node.mempool.lookup hash with
  | some tx => some (tx, 0)
  | none =>
    if node.fTxIndex then
      match node.txIndex hash with
      | none => none
      | some (hashBlock, tx) => if tx.hash = hash then some (tx, hashBlock) else none
    else
      match node.pcoinsTip.accessCoins hash with
      | none => none
      | some coins =>
        -- the coins say in which block of the active chain to look
        if 0 < coins.nHeight then
          match node.chainActive.atHeight coins.nHeight with
          | [] => none
          | block :: _ =>
            (block.vtx.find? fun tx => tx.hash == hash).map fun tx => (tx, block.hash)
        else none

/-- `GetOutput`. The index is compared by `>`, so the one behind the last output reads outside. -/
def getOutput (node : NodeState) (hash : Uint256) (index : UInt32) : Validated CTxOut :=
  match getTransaction node hash with
  | none => dos 100 ""
  | some (txPrev, _) =>
    if txPrev.vout.length < index.toNat then dos 100 ""
    else match txPrev.vout[index.toNat]? with
      | none => .error (.fault .outOfRange)
      | some txout => .ok txout

def isBlockHashInChain (node : NodeState) (hashBlock : Uint256) : Bool :=
  match node.mapBlockIndex hashBlock with
  | none => false
  | some pindex => hashBlock != 0 && node.chainActive.contains pindex

def isTransactionInChain (node : NodeState) (txId : Uint256) : Option Int :=
  match getTransaction node txId with
  | none => none
  | some (_, hashBlock) =>
    if isBlockHashInChain node hashBlock then
      (node.mapBlockIndex hashBlock).map CBlockIndex.nHeight
    else none

def isSerialInBlockchain (node : NodeState) (bnSerial : Int) : Option Int :=
  match node.zerocoinDB.readCoinSpend bnSerial with
  | none => none
  | some txHash => isTransactionInChain node txHash

/-- The height taken for a block: that of a successor of the tip, or of a known block, or zero. -/
def blockHeight (node : NodeState) (block : CBlock) : Int :=
  if node.chainActive.getBlockHash = block.hashPrevBlock then node.chainActive.nHeight + 1
  else match node.mapBlockIndex block.hashPrevBlock with
    | none => 0
    | some pindex => pindex.nHeight + 1

def isBlockValueValid (params : CChainParams) (masternodeSynced : Bool) (node : NodeState)
    (block : CBlock) (nExpectedValue nMinted : CAmount) : Bool :=
  if node.chainActive.isEmpty then true
  else if !masternodeSynced && decide (blockHeight node block < 106600 ∧
      Int.tmod (blockHeight node block) params.nBudgetCycleBlocks < 100) then true
  else nMinted ≤ nExpectedValue

def parseZerocoinPublicSpend (services : Services) (node : NodeState) (txIn : CTxIn)
    (tx : CTransaction) : Validated PublicCoinSpend := do
  let prevOut ← orDos (getOutput node txIn.prevout.hash txIn.prevout.n) 100 "" false
  let parsed ← ofFault (parseCoinSpend services.lib txIn tx prevOut)
  ofOption parsed (dos 0 "bad-txns-invalid-zznn")

/-- The spend of a zerocoin input as the blocks' checks read it; a public one is parsed with its
previous output. -/
def readSpend (services : Services) (node : NodeState) (tx : CTransaction) (txIn : CTxIn) :
    Validated Spend :=
  if txIn.isZerocoinPublicSpend then do
    let publicSpend ← parseZerocoinPublicSpend services node txIn tx
    .ok (.publicSpend publicSpend)
  else do
    let spend ← ofFault (txInToZerocoinSpend services.lib txIn)
    .ok (.zerocoinSpend spend)

def readMint (txout : CTxOut) : Validated PublicCoin := do
  let pubCoin ← ofFault (txOutToPublicCoin txout)
  ofOption pubCoin (dos 100 "")

def isBlockBetweenFakeSerialAttackRange (params : CChainParams) (nHeight : Int) : Bool :=
  params.networkID == .main && decide (nHeight ≤ params.nFakeSerialBlockheightEnd)

def checkPublicCoinSpendEnforced (params : CChainParams) (blockHeight : Int)
    (isPublicSpend : Bool) : Bool :=
  if params.nPublicZCSpends ≤ blockHeight then isPublicSpend else !isPublicSpend

def pubkeyVersion : UInt8 := 2

/-- `ContextualCheckZerocoinSpendNoSerialCheck` at height `nHeight`. -/
def contextualCheckZerocoinSpendNoSerialCheck (services : Services) (tx : CTransaction)
    (spend : Spend) (nHeight : Int) : Bool :=
  let params := services.params
  let fFakeSerial := isBlockBetweenFakeSerialAttackRange params nHeight
  let signed :=
    if params.nBlockZerocoinV2 ≤ nHeight then
      (match services.lib.hasValidSignature spend with
        | some valid => valid
        | none => fFakeSerial) &&
        spend.coinSpend.spendType == (if tx.isCoinStake then .stake else .spend)
    else true
  let v1Serial := decide (spend.coinSpend.version < pubkeyVersion)
  let newSerial := if params.nPublicZCSpends ≤ nHeight then !v1Serial else true
  let inRange := services.lib.hasValidSerial v1Serial spend.coinSpend || fFakeSerial
  signed && newSerial && inRange

/-- `ContextualCheckZerocoinSpend`: the serial number is not in the chain yet. -/
def contextualCheckZerocoinSpend (services : Services) (node : NodeState) (tx : CTransaction)
    (spend : Spend) (nHeight : Int) : Bool :=
  contextualCheckZerocoinSpendNoSerialCheck services tx spend nHeight &&
    (isSerialInBlockchain node spend.coinSpend.coinSerialNumber).isNone

def contextualCheckZerocoinMint (services : Services) (node : NodeState) (coin : PublicCoin)
    (nHeight : Int) : Bool :=
  if services.params.nPublicZCSpends ≤ nHeight then false
  else if services.params.nBlockZerocoinV2 ≤ nHeight ∧ services.params.networkID ≠ .testnet then
    match node.zerocoinDB.readCoinMint coin.value with
    | none => true
    | some txid => (isTransactionInChain node txid).isNone
  else true

end ZenonCore.Chainstate
