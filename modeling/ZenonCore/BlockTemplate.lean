import ZenonCore.Library.Heap
import ZenonCore.Library.Strictness
import ZenonCore.Staking
import ZenonCore.TrackedConnect

/-!
# Assembling a block

`CreateNewBlock` and its queue. Priorities in floating point, the payments of the budget, the
coinstake of the wallet and its signature come from elsewhere.
-/

namespace ZenonCore.BlockTemplate

open AcceptBlock (heightScript)
open Chain (CBlockIndex)
open ChainParams (CChainParams)
open Chainstate
open ChainTip (isFinalTx nSpendHeight)
open CheckBlock (maxBlockSizeCurrent maxBlockSigOpsCurrent)
open Coins Mempool Primitives Script
open ConnectBlock (checkInputs getBlockValue scriptVerifyP2SH)
open Effects (after outcome)
open Heaps (Heap)
open MoneySupply (IndexedState SupplyServices)
open ProofOfWork (getNextWorkRequired)
open Staking (getTimeSlot toUnsigned)
open Strictness (loop)
open TrackedConnect (testBlockValidity)
open Validation
open Zerocoin (Spend)

abbrev CFeeRate := Int

/-- `CFeeRate(nFeePaid, nSize)`, where the size makes the division unsigned. -/
def CFeeRate.ofFee (nFeePaid : CAmount) (nSize : Nat) : CFeeRate :=
  if 0 < nSize then Int.bmod (nFeePaid * 1000 % 2 ^ 64 / nSize) (2 ^ 64) else 0

structure Doubles (δ : Type) where
  zero : δ
  /-- `double_safe_addition(dPriority, (double)nValueIn * nConf)`. -/
  addInput : δ → CAmount → Int → δ
  /-- The two steps for an input that spends a zerocoin, by the time it was seen,
  the time now and the value of all. -/
  addSpend : δ → Int → Int → CAmount → δ
  /-- `ComputePriority(dPriority, nTxSize)`. -/
  computePriority : CTransaction → δ → Nat → δ
  add : δ → δ → δ
  less : δ → δ → Bool
  equal : δ → δ → Bool
  /-- `0 < dPriority`. -/
  isPositive : δ → Bool
  allowFree : δ → Bool

structure TxPriority (δ : Type) where
  dPriority : δ
  feeRate : CFeeRate
  ptx : CTransaction

/-- A transaction that waits for others; `freed` marks one that only `mapDependers` still points to.
-/
structure COrphan (δ : Type) extends TxPriority δ where
  setDependsOn : List Uint256
  freed : Bool

structure Mining (δ : Type) where
  doubles : Doubles δ
  heap : Heap (TxPriority δ)
  mapDeltas : Uint256 → Option (δ × CAmount)
  mapZerocoinspends : Uint256 → Option Int
  /-- `-blockmaxsize`, `-blockprioritysize` and `-blockminsize`. -/
  blockMaxSize : UInt32
  blockPrioritySize : UInt32
  blockMinSize : UInt32
  minRelayTxFee : CFeeRate
  /-- `ExtractVersionFromSerial`. -/
  extractVersionFromSerial : Int → UInt8

namespace Mining

variable {δ : Type} (mining : Mining δ)

def nBlockMaxSize : Nat := max 1000 (min (maxBlockSizeCurrent - 1000) mining.blockMaxSize.toNat)

def nBlockPrioritySize : Nat := min mining.nBlockMaxSize mining.blockPrioritySize.toNat

def nBlockMinSize : Nat := min mining.nBlockMaxSize mining.blockMinSize.toNat

def compare (byFee : Bool) (first second : TxPriority δ) : Bool :=
  if byFee then
    if first.feeRate = second.feeRate then mining.doubles.less first.dPriority second.dPriority
    else decide (first.feeRate < second.feeRate)
  else if mining.doubles.equal first.dPriority second.dPriority then
    decide (first.feeRate < second.feeRate)
  else mining.doubles.less first.dPriority second.dPriority

def applyDeltas (hash : Uint256) (dPriority : δ) (nFee : CAmount) : δ × CAmount :=
  match mining.mapDeltas hash with
  | none => (dPriority, nFee)
  | some deltas => (mining.doubles.add dPriority deltas.1, nFee + deltas.2)

end Mining

section Collecting

variable {δ : Type} (mining : Mining δ) (services : Services) (here : LocalState)
  (node : NodeState)

def nHeight : Int := node.chainActive.nHeight + 1

/-! ## The queue at its start -/

structure Gathered (δ : Type) where
  dPriority : δ
  nTotalIn : CAmount
  setDependsOn : List Uint256

/-- How that loop ends: behind the last input, at one that is nowhere, or at one
that is on the list of invalid ones. -/
inductive InputsRead (δ : Type)
  | complete (gathered : Gathered δ)
  | missing (gathered : Gathered δ)
  | invalid (gathered : Gathered δ)

def gatherInputs (tx : CTransaction) : Gathered δ → List CTxIn → Validated (InputsRead δ)
  | gathered, [] => .ok (.complete gathered)
  | gathered, txin :: rest =>
    if tx.hasZerocoinSpendInputs then
      let nTimeSeen := (mining.mapZerocoinspends tx.hash).getD here.getAdjustedTime
      gatherInputs tx
        { gathered with
          dPriority := mining.doubles.addSpend gathered.dPriority nTimeSeen
            here.getAdjustedTime gathered.nTotalIn }
        rest
    else if !node.pcoinsTip.haveCoins txin.prevout.hash then
      match node.mempool.lookup txin.prevout.hash with
      | none => .ok (.missing gathered)
      | some parent => do
          let txout ← ofOption (parent.vout[txin.prevout.n.toNat]?)
            (.error (.fault .outOfRange))
          gatherInputs tx
            { gathered with
              nTotalIn := gathered.nTotalIn + txout.nValue
              setDependsOn := gathered.setDependsOn ++ [txin.prevout.hash] }
            rest
    else if services.containsOutPoint txin.prevout then .ok (.invalid gathered)
    else do
      let coins ← ofOption (node.pcoinsTip.accessCoins txin.prevout.hash) (.error .assertion)
      let txout ← ofOption (coins.vout[txin.prevout.n.toNat]?) (.error (.fault .outOfRange))
      gatherInputs tx
        { gathered with
          nTotalIn := gathered.nTotalIn + txout.nValue
          dPriority := mining.doubles.addInput gathered.dPriority txout.nValue
            (nHeight node - coins.nHeight) }
        rest

structure Candidates (δ : Type) where
  vecPriority : List (TxPriority δ)
  vOrphan : List (COrphan δ)

/-- A record that is left behind by a transaction with a bad input. -/
def Candidates.leave (candidates : Candidates δ) (doubles : Doubles δ) (tx : CTransaction)
    (setDependsOn : List Uint256) (freed : Bool) : Candidates δ :=
  if setDependsOn.isEmpty then candidates
  else
    { candidates with
      vOrphan := candidates.vOrphan ++
        [{ dPriority := doubles.zero
           feeRate := 0
           ptx := tx
           setDependsOn := setDependsOn
           freed := freed }] }

/-- Whether the loop over the pool passes a transaction over at once. -/
def isPassedOver (tx : CTransaction) : Bool :=
  tx.isCoinBase || tx.isCoinStake || !isFinalTx tx (nHeight node) here.getAdjustedTime ||
    (decide (here.sporkZerocoinMaintenanceMode < here.getAdjustedTime) && tx.containsZerocoins)

/-- One transaction of the pool: it enters the queue, waits, or is left out. -/
def examine (candidates : Candidates δ) (tx : CTransaction) : Validated (Candidates δ) :=
  if isPassedOver here node tx then .ok candidates
  else do
    let read ← gatherInputs mining services here node tx
      { dPriority := mining.doubles.zero
        nTotalIn := if tx.hasZerocoinSpendInputs then getZerocoinSpent tx else 0
        setDependsOn := [] }
      tx.vin
    match read with
    | .missing gathered =>
      .ok (candidates.leave mining.doubles tx gathered.setDependsOn true)
    | .invalid gathered =>
      .ok (candidates.leave mining.doubles tx gathered.setDependsOn false)
    | .complete gathered => do
        let nTxSize := services.getSerializeSize tx
        let applied := mining.applyDeltas tx.hash
          (mining.doubles.computePriority tx gathered.dPriority nTxSize) gathered.nTotalIn
        let nValueOut ← ofOption tx.getValueOut (.error (.fault .exception))
        let entry : TxPriority δ :=
          { dPriority := applied.1
            feeRate := CFeeRate.ofFee (applied.2 - nValueOut) nTxSize
            ptx := tx }
        if gathered.setDependsOn.isEmpty then
          .ok { candidates with vecPriority := candidates.vecPriority ++ [entry] }
        else
          .ok
            { candidates with
              vOrphan := candidates.vOrphan ++
                [{ entry with setDependsOn := gathered.setDependsOn, freed := false }] }

/-! ## The loop -/

structure Assembling (δ : Type) where
  view : CCoinsView
  vecPriority : List (TxPriority δ)
  vOrphan : List (COrphan δ)
  fSortedByFee : Bool
  /-- The transactions added, in the order of the block. -/
  vtx : List CTransaction
  vTxFees : List CAmount
  vTxSigOps : List Nat
  nBlockSize : Nat
  nBlockSigOps : Nat
  nFees : CAmount
  vBlockSerials : List Int
  vTxSerials : List Int

def Assembling.start (candidates : Candidates δ) : Assembling δ where
  view := node.pcoinsTip
  vecPriority := candidates.vecPriority
  vOrphan := candidates.vOrphan
  fSortedByFee := mining.nBlockPrioritySize == 0
  vtx := []
  vTxFees := []
  vTxSigOps := []
  nBlockSize := 1000
  nBlockSigOps := 100
  nFees := 0
  vBlockSerials := []
  vTxSerials := []

def skipsFree (top : TxPriority δ) (nTxSize : Nat) (state : Assembling δ) : Bool :=
  let deltas := mining.applyDeltas top.ptx.hash mining.doubles.zero 0
  !top.ptx.hasZerocoinSpendInputs && state.fSortedByFee &&
    !mining.doubles.isPositive deltas.1 && decide (deltas.2 ≤ 0) &&
    decide (top.feeRate < mining.minRelayTxFee) &&
    decide (mining.nBlockMinSize ≤ state.nBlockSize + nTxSize)

def sortByFee (top : TxPriority δ) (nTxSize : Nat) (state : Assembling δ) : Assembling δ :=
  { state with
    fSortedByFee := state.fSortedByFee ||
      (decide (mining.nBlockPrioritySize ≤ state.nBlockSize + nTxSize) ||
        !mining.doubles.allowFree top.dPriority) }

/-- The spend of a zerocoin input; one that cannot be parsed is thrown. -/
def spendOf (tx : CTransaction) (txIn : CTxIn) : Validated Spend :=
  match readSpend services node tx txIn with
  | .ok spend => .ok spend
  | .error (.rejected _) => .error (.fault .exception)
  | .error failure => .error failure

/-- The serial numbers of a transaction's zerocoin inputs, up to one that is invalid or there
already. -/
def checkSerials (tx : CTransaction) (vBlockSerials : List Int) :
    List Int → List CTxIn → Validated (Bool × List Int)
  | vTxSerials, [] => .ok (false, vTxSerials)
  | vTxSerials, txIn :: rest =>
    if !txIn.spendsZerocoin then checkSerials tx vBlockSerials vTxSerials rest
    else do
      let spend ← spendOf services node tx txIn
      let serial := spend.coinSpend.coinSerialNumber
      let fUseV1Params := decide (mining.extractVersionFromSerial serial < pubkeyVersion)
      if !services.lib.hasValidSerial fUseV1Params spend.coinSpend ||
          vBlockSerials.contains serial || vTxSerials.contains serial then
        .ok (true, vTxSerials)
      else checkSerials tx vBlockSerials (vTxSerials ++ [serial]) rest

/-- The check of the zerocoin inputs before a transaction is added. -/
def doubleSerial (tx : CTransaction) (state : Assembling δ) : Validated (Bool × List Int) :=
  if !tx.hasZerocoinSpendInputs then .ok (false, state.vTxSerials)
  else if (isTransactionInChain node tx.hash).isSome then .ok (true, state.vTxSerials)
  else checkSerials mining services node tx state.vBlockSerials state.vTxSerials tx.vin

/-- `mapDependers` for one record: without its last dependency it enters the queue. -/
def releaseOne (hash : Uint256) (released : Candidates δ) (orphan : COrphan δ) :
    Validated (Candidates δ) :=
  if !orphan.setDependsOn.contains hash then
    .ok { released with vOrphan := released.vOrphan ++ [orphan] }
  else if orphan.freed then .error (.fault .outOfRange)
  else
    let left := orphan.setDependsOn.filter fun other => other != hash
    if left.isEmpty then
      .ok { released with vecPriority := released.vecPriority ++ [orphan.toTxPriority] }
    else .ok { released with vOrphan := released.vOrphan ++ [{ orphan with setDependsOn := left }] }

def add (tx : CTransaction) (nTxSize nTxSigOps : Nat) (nTxFees : CAmount)
    (state : Assembling δ) : Validated (Assembling δ) := do
  let (view, _) ← ofOption (updateCoins tx state.view (nHeight node)) (.error .assertion)
  let released ← state.vOrphan.foldlM (releaseOne tx.hash)
    { vecPriority := state.vecPriority, vOrphan := [] }
  .ok
    { state with
      view := view
      vecPriority := released.vecPriority
      vOrphan := released.vOrphan
      vtx := state.vtx ++ [tx]
      vTxFees := state.vTxFees ++ [nTxFees]
      vTxSigOps := state.vTxSigOps ++ [nTxSigOps]
      nBlockSize := state.nBlockSize + nTxSize
      nBlockSigOps := state.nBlockSigOps + nTxSigOps
      nFees := state.nFees + nTxFees
      vBlockSerials := state.vBlockSerials ++ state.vTxSerials }

/-- The last checks of a transaction whose inputs the view has. -/
def addIfValid (tx : CTransaction) (nTxSize : Nat) (state : Assembling δ) :
    Validated (Assembling δ) := do
  let nValueIn ← ofOption (getValueIn state.view tx) (.error .assertion)
  let nValueOut ← ofOption tx.getValueOut (.error (.fault .exception))
  let nTxSigOps := services.getLegacySigOpCount tx + services.getP2SHSigOpCount tx state.view
  if maxBlockSigOpsCurrent ≤ state.nBlockSigOps + nTxSigOps then .ok state
  else do
    let height ← nSpendHeight node state.view
    match checkInputs services tx state.view height true scriptVerifyP2SH false with
    | .error (.rejected _) => .ok state
    | .error failure => .error failure
    | .ok _ => add node tx nTxSize nTxSigOps (nValueIn - nValueOut) state

/-- What the loop does with the transaction it has taken off the queue. -/
def consider (top : TxPriority δ) (state : Assembling δ) : Validated (Assembling δ) :=
  let nTxSize := services.getSerializeSize top.ptx
  if mining.nBlockMaxSize ≤ state.nBlockSize + nTxSize then .ok state
  else if maxBlockSigOpsCurrent ≤
      state.nBlockSigOps + services.getLegacySigOpCount top.ptx then .ok state
  else if skipsFree mining top nTxSize state then .ok state
  else
    let sorted := sortByFee mining top nTxSize state
    if !sorted.view.haveInputs top.ptx then .ok sorted
    else do
      let (fDoubleSerial, vTxSerials) ← doubleSerial mining services node top.ptx sorted
      let checked := { sorted with vTxSerials := vTxSerials }
      if fDoubleSerial then .ok checked
      else addIfValid services node top.ptx nTxSize checked

def round (state : Assembling δ) : Validated (Assembling δ) :=
  match mining.heap.pop (mining.compare state.fSortedByFee) state.vecPriority with
  | none => .ok state
  | some (top, rest) => consider mining services node top { state with vecPriority := rest }

/-- The part of `CreateNewBlock` that takes transactions from the pool. -/
def collect : Validated (Assembling δ) := do
  let candidates ← node.mempool.mapTx.foldlM (examine mining services here node)
    { vecPriority := [], vOrphan := [] }
  loop (fun state => !state.vecPriority.isEmpty) (round mining services node)
    (candidates.vecPriority.length + candidates.vOrphan.length)
    (Assembling.start mining node candidates)

end Collecting

section Block

variable {δ : Type} (mining : Mining δ) (services : SupplyServices) (here : LocalState)

structure BlockMaker where
  /-- `FillBlockPayee`, on the outputs of the coinbase, by the fees. -/
  fillBlockPayee : List CTxOut → CAmount → List CTxOut
  /-- The coinstake of `CreateCoinStake` with its time, if it finds one. -/
  createCoinStake : Option (CTransaction × UInt32)
  signBlock : CBlock → Option Bytes
  /-- `GetHash` of a block's header. -/
  getHash : CBlock → Uint256
  /-- `pCheckpointCache.second.second`. -/
  nAccumulatorCheckpoint : Uint256

structure CBlockTemplate where
  block : CBlock
  vTxFees : List CAmount
  vTxSigOps : List Int

def coinbaseTx (scriptSig : CScript) (vout : List CTxOut) : CTransaction :=
  let vin : List CTxIn :=
    [{ prevout := COutPoint.null, scriptSig := scriptSig, nSequence := 0xffffffff }]
  { hash := services.lib.getHash 1 vin vout 0
    nVersion := 1
    vin := vin
    vout := vout
    nLockTime := 0 }

/-- The coinbase of a proof-of-work block: its payees, or all to the miner. -/
def paidCoinbase (maker : BlockMaker) (pindexPrev : CBlockIndex) (scriptPubKeyIn : CScript)
    (nFees : CAmount) : CTransaction :=
  let vout := maker.fillBlockPayee [{ nValue := -1, scriptPubKey := scriptPubKeyIn }] nFees
  if 1 < vout.length then coinbaseTx services [] vout
  else
    coinbaseTx services (heightScript (pindexPrev.nHeight + 1) ++ [op0])
      (vout.map fun txout =>
        { txout with nValue := nFees + getBlockValue services.params pindexPrev.nHeight })

/-- The coinbase of a proof-of-stake block, behind `IncrementExtraNonce`. -/
def stakeCoinbase (pindexPrev : CBlockIndex) : CTransaction :=
  coinbaseTx services (heightScript (pindexPrev.nHeight + 1) ++ [1, 1])
    [{ nValue := 0, scriptPubKey := [] }]

def updateTime (pindexPrev : CBlockIndex) : UInt32 :=
  if services.params.isTimeProtocolV2 (pindexPrev.nHeight + 1) then
    toUnsigned (getTimeSlot services.params here.getAdjustedTime)
  else toUnsigned (max (pindexPrev.getMedianTimePast + 1) here.getAdjustedTime)

def headerOf (maker : BlockMaker) (pindexPrev : CBlockIndex) (nTime : UInt32)
    (hashMerkleRoot : Uint256) (vtx : List CTransaction) : CBlock where
  hash := 0
  nVersion := if services.params.isStakeModifierV2 (pindexPrev.nHeight + 1) then 6 else 3
  hashPrevBlock := pindexPrev.getBlockHash
  hashMerkleRoot := hashMerkleRoot
  nTime := nTime
  nBits := getNextWorkRequired services.params pindexPrev
  nNonce := 0
  nAccumulatorCheckpoint := maker.nAccumulatorCheckpoint
  vtx := vtx
  vchBlockSig := []

def withHash (maker : BlockMaker) (block : CBlock) : CBlock :=
  { block with hash := maker.getHash block }

def workTemplate (maker : BlockMaker) (pindexPrev : CBlockIndex) (scriptPubKeyIn : CScript)
    (collected : Assembling δ) : CBlockTemplate :=
  let coinbase := paidCoinbase services maker pindexPrev scriptPubKeyIn collected.nFees
  { block := withHash maker (headerOf services maker pindexPrev
      (updateTime services here pindexPrev) 0 (coinbase :: collected.vtx))
    vTxFees := -collected.nFees :: collected.vTxFees
    vTxSigOps := services.getLegacySigOpCount coinbase :: collected.vTxSigOps.map Int.ofNat }

/-- The template of a proof-of-stake block; `none` where it cannot be signed. The coinstake has no
entry among the fees. -/
def stakeTemplate (maker : BlockMaker) (pindexPrev : CBlockIndex) (coinstake : CTransaction)
    (nTime : UInt32) (collected : Assembling δ) : Option CBlockTemplate :=
  let coinbase := stakeCoinbase services pindexPrev
  let vtx := coinbase :: coinstake :: collected.vtx
  let block := withHash maker (headerOf services maker pindexPrev nTime
    (services.buildMerkleTree vtx).1 vtx)
  (maker.signBlock block).map fun vchBlockSig =>
    { block := { block with vchBlockSig := vchBlockSig }
      vTxFees := -1 :: collected.vTxFees
      vTxSigOps := services.getLegacySigOpCount coinbase :: collected.vTxSigOps.map Int.ofNat }

/-- The block as `CreateNewBlock` makes it, before it is tested. -/
def assemble (maker : BlockMaker) (scriptPubKeyIn : CScript) (fProofOfStake : Bool)
    (node : NodeState) : Validated CBlockTemplate := do
  require (!node.chainActive.isEmpty) refuse
  if fProofOfStake then
    match maker.createCoinStake with
    | none => refuse
    | some (coinstake, nTime) => do
        let collected ← collect mining services.toServices here node
        ofOption (stakeTemplate services maker node.chainActive coinstake nTime collected) refuse
  else do
    let collected ← collect mining services.toServices here node
    .ok (workTemplate services here maker node.chainActive scriptPubKeyIn collected)

def clearPool (state : IndexedState) : IndexedState :=
  { state with node := { state.node with mempool := CTxMemPool.empty } }

/-- `CreateNewBlock`, `NULL` being a refusal, with what it leaves. -/
def createNewBlock (maker : BlockMaker) (scriptPubKeyIn : CScript) (fProofOfStake : Bool)
    (state : IndexedState) : Validated CBlockTemplate × IndexedState :=
  match assemble mining services here maker scriptPubKeyIn fProofOfStake state.node with
  | .error failure => (.error failure, state)
  | .ok made =>
    let test := testBlockValidity services here made.block state.node.chainActive false
    match outcome test state with
    | .ok _ => (.ok made, after test state)
    | .error (.rejected _) => (refuse, clearPool (after test state))
    | .error failure => (.error failure, after test state)

end Block

end ZenonCore.BlockTemplate
