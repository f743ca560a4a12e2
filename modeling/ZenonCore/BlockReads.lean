import ZenonCore.CheckBlock
import ZenonCore.Library.BoundedReads
import ZenonCore.Standard

/-!
# Block checks with their reads by index

`CheckBlock`, the payee check and `CheckBlockSignature` with every element that the source
takes by index read at its place.
-/

namespace ZenonCore.BlockReads

open Primitives ChainParams Chain Validation
open Standard Zerocoin Chainstate CheckBlock
open BoundedReads

inductive Site
  /-- `vin[0]` in `IsCoinBase` and `IsCoinStake`. -/
  | firstInput
  /-- `vout[0]` in `IsCoinStake`. -/
  | firstOutput
  /-- `vtx[1]` in `IsProofOfStake`. -/
  | stakeTransaction
  /-- `vtx[0]`, `vtx[0].vout[0]` and `vtx[1]` in `CheckBlock`. -/
  | checkedTransaction
  /-- `vin[0]` of a coinbase in `CheckTransaction`. -/
  | coinBaseScript
  /-- `vtx[0]` or `vtx[1]` in `IsBlockPayeeValid`. -/
  | payeeTransaction
  /-- `vout[index]` in `GetOutput`. -/
  | previousOutput
  /-- `vtx[1]`, its `vin[0]` and `vout[1]`, and `vSolutions[0]` in `CheckBlockSignature`. -/
  | signature
  /-- `vtx[1]` and its `vin[0]` in `CheckProofOfStake`. -/
  | kernel
  /-- `txPrev.vout[txin.prevout.n]` in `initStakeInput`. -/
  | stakedOutput
  /-- `vtx[1].vin[0]` in `CBlockIndex(block)`. -/
  | indexedStake
  /-- `vtx[1].vin[0]` in `AddToBlockIndex`. -/
  | modifierKernel
  /-- `vtx[0].vin[0]` in `ContextualCheckBlock`. -/
  | heightScript
  /-- `vtx[1]` in `AcceptBlock`. -/
  | acceptedStake
deriving DecidableEq, Repr

abbrev Reading := BoundedReads.Reading Site Failure

/-- A caller that calls `DoS` once more when its callee has failed. -/
def orDosReading {α : Type} (run : Reading α) (level : Nat) (strRejectReason : String)
    (corruption : Bool) : Reading α :=
  match run with
  | .error (.failed failure) => attempt (orDos (.error failure) level strRejectReason corruption)
  | other => other

def isCoinBaseReading (tx : CTransaction) : Reading Bool :=
  if tx.vin.length = 1 then do
    let txin ← readAt .firstInput tx.vin 0
    .ok (txin.prevout.isNull && !tx.containsZerocoins)
  else .ok false

def isCoinStakeReading (tx : CTransaction) : Reading Bool :=
  if tx.vin.isEmpty then .ok false
  else do
    let txin ← readAt .firstInput tx.vin 0
    if txin.prevout.isNull && !txin.isZerocoinSpend then .ok false
    else if 2 ≤ tx.vout.length then do
      let txout ← readAt .firstOutput tx.vout 0
      .ok txout.isEmpty
    else .ok false

def isProofOfStakeReading (block : CBlock) : Reading Bool :=
  if 1 < block.vtx.length then do
    let tx ← readAt .stakeTransaction block.vtx 1
    isCoinStakeReading tx
  else .ok false

/-- The reads of `CheckBlock` between the size and the locks. -/
def checkBlockShapeReading (block : CBlock) : Reading Unit := do
  let first ← readAt .checkedTransaction block.vtx 0
  let isCoinBase ← isCoinBaseReading first
  let isPoS ← isProofOfStakeReading block
  if isCoinBase && isPoS && (block.vtx.drop 1).all fun tx => !tx.isCoinBase then do
    if first.vout.length = 1 then do
      let _ ← readAt .checkedTransaction first.vout 0
    let second ← readAt .checkedTransaction block.vtx 1
    let _ ← isCoinStakeReading second
  attempt (checkBlockShape block)

structure PayeeState extends LocalState where
  /-- `masternodePayments.IsTransactionValid`, by the votes the node has seen. -/
  isTransactionValid : CTransaction → Int → Bool
  /-- `IsSporkActive(SPORK_8_MASTERNODE_PAYMENT_ENFORCEMENT)`. -/
  sporkMasternodePaymentEnforcement : Bool

def isBlockPayeeValidReading (params : CChainParams) (here : PayeeState) (block : CBlock)
    (nBlockHeight : Int) : Reading Bool :=
  if !here.masternodeSynced then .ok true
  else do
    let txNew ← readAt .payeeTransaction block.vtx
      (if params.nLastPOWBlock < nBlockHeight then 1 else 0)
    .ok (here.isTransactionValid txNew nBlockHeight || !here.sporkMasternodePaymentEnforcement)

def checksPayee (here : PayeeState) (node : NodeState) (block : CBlock) : Bool :=
  !node.chainActive.isEmpty && blockHeight node block != 0 && !here.isInitialBlockDownload

def checkPayeeReading (params : CChainParams) (here : PayeeState) (node : NodeState)
    (block : CBlock) : Reading Unit :=
  if checksPayee here node block then do
    let valid ← isBlockPayeeValidReading params here block (blockHeight node block)
    attempt (require valid (dos 0 "bad-cb-payee"))
  else .ok ()

section Transactions

variable (services : Services) (here : LocalState) (node : NodeState)

/-- The element `GetOutput` reads. The index of the output is compared with
the number of outputs by `>`. -/
def readPreviousOutput (txin : CTxIn) : Reading Unit :=
  match getTransaction node txin.prevout.hash with
  | none => .ok ()
  | some (txPrev, _) =>
    if txPrev.vout.length < txin.prevout.n.toNat then .ok ()
    else do
      let _ ← readAt .previousOutput txPrev.vout txin.prevout.n.toNat
      .ok ()

/-- The read before a round on a zerocoin input: a public spend looks up the
output it spends. -/
def readSpentOutput (txin : CTxIn) : Reading Unit :=
  if txin.isZerocoinPublicSpend then readPreviousOutput node txin else .ok ()

def redeemInputReading (tx : CTransaction) (fVerifySignature fFakeSerialAttack : Bool)
    (found : Redemption) (txin : CTxIn) : Reading Redemption := do
  readSpentOutput node txin
  attempt (redeemInput services node tx fVerifySignature fFakeSerialAttack found txin)

def spendOutputsAllowed (tx : CTransaction) : Bool :=
  !(decide (2 < tx.vout.length) &&
    decide (2 < tx.vout.countP fun out => !out.isZerocoinMint) && !tx.isCoinStake)

/-- The checks of `CheckTransaction` before its zerocoin inputs. -/
def checkTransactionBasics (tx : CTransaction) (fZerocoinActive : Bool) : Validated Unit := do
  require (!tx.vin.isEmpty) (dos 10 "bad-txns-vin-empty")
  require (!tx.vout.isEmpty) (dos 10 "bad-txns-vout-empty")
  require (services.getSerializeSize tx ≤ maxZerocoinTxSize) (dos 100 "bad-txns-oversize")
  let _ ← tx.vout.foldlM (checkTxOut services tx fZerocoinActive) 0
  checkDuplicateInputs [] tx.vin

/-- Whether `CheckTransaction` comes to the loop of `CheckZerocoinSpend`. -/
def redeemsInputs (tx : CTransaction) (fZerocoinActive : Bool) : Bool :=
  fZerocoinActive &&
    decide ((tx.vin.countP fun txin => txin.isZerocoinSpend && !txin.isZerocoinPublicSpend) ≤
      services.params.nMaxZerocoinSpendsPerTransaction) &&
    tx.hasZerocoinSpendInputs && tx.vin.all CTxIn.spendsZerocoin && spendOutputsAllowed tx

def emptyRedemption : Redemption := { serials := [], nTotalRedeemed := 0, fValidated := false }

/-- The reads of `CheckZerocoinSpend`, where `CheckTransaction` calls it. -/
def redeemedReading (tx : CTransaction) (fZerocoinActive fFakeSerialAttack : Bool) :
    Reading Unit :=
  if redeemsInputs services tx fZerocoinActive then do
    let _ ← orDosReading (tx.vin.foldlM (redeemInputReading services node tx
      (verifiesSignatures here node) fFakeSerialAttack) emptyRedemption) 100 "" false
    .ok ()
  else .ok ()

/-- The read of the script whose length `CheckTransaction` checks. -/
def coinBaseScriptReading (tx : CTransaction) : Reading Unit := do
  let isCoinBase ← isCoinBaseReading tx
  if isCoinBase then do
    let _ ← readAt .coinBaseScript tx.vin 0
    .ok ()
  else .ok ()

/-- `CheckTransaction`: the reads in the order in which its checks come to
them, and then the checks as a whole. -/
def checkTransactionReading (tx : CTransaction) (fZerocoinActive fFakeSerialAttack : Bool) :
    Reading Unit := do
  attempt (checkTransactionBasics services tx fZerocoinActive)
  redeemedReading services here node tx fZerocoinActive fFakeSerialAttack
  coinBaseScriptReading tx
  attempt (checkTransaction services here node tx fZerocoinActive fFakeSerialAttack)

/-- One input of the loop over the serial numbers of a block. -/
def countSerialReading (tx : CTransaction) (vBlockSerials : List Int) (txIn : CTxIn) :
    Reading (List Int) := do
  readSpentOutput node txIn
  attempt (countSerial services node tx vBlockSerials txIn)

def checkBlockTransactionReading (fZerocoinActive : Bool) (vBlockSerials : List Int)
    (tx : CTransaction) : Reading (List Int) := do
  checkTransactionReading services here node tx fZerocoinActive
    (isBlockBetweenFakeSerialAttackRange services.params (node.chainActive.nHeight + 1))
  if tx.hasZerocoinSpendInputs then
    tx.vin.foldlM (countSerialReading services node tx) vBlockSerials
  else .ok vBlockSerials

end Transactions

def checkBlockBasics (services : Services) (block : CBlock) (fCheckMerkleRoot : Bool) :
    Validated Unit := do
  orDos (checkBlockHeader services block.toCBlockHeader block.isProofOfWork) 100 "bad-header" true
  onlyIf fCheckMerkleRoot do
    let (hashMerkleRoot2, mutated) := services.buildMerkleTree block.vtx
    require (block.hashMerkleRoot == hashMerkleRoot2) (dosCorruption 100 "bad-txnmrklroot")
    require (!mutated) (dosCorruption 100 "bad-txns-duplicate")
  require (!block.vtx.isEmpty && decide (block.vtx.length ≤ maxBlockSizeCurrent) &&
    decide (services.getBlockSerializeSize block ≤ maxBlockSizeCurrent)) (dos 100 "bad-blk-length")

def checkBlockLocks (here : LocalState) (block : CBlock) : Validated Unit :=
  onlyIf here.sporkSwiftTXBlockFiltering
    (require (respectsLocks here block) (dos 0 "conflicting-tx-ix"))

def checkBlockSigOps (services : Services) (block : CBlock) : Validated Unit :=
  require ((block.vtx.map services.getLegacySigOpCount).sum ≤
      if zerocoinActive services.params block then maxBlockSigOpsCurrent else maxBlockSigOpsLegacy)
    (dosCorruption 100 "bad-blk-sigops")

def checkBlockReading (services : Services) (here : PayeeState) (node : NodeState)
    (block : CBlock) (fCheckMerkleRoot : Bool) : Reading Unit := do
  let _ ← isProofOfStakeReading block
  attempt (checkBlockBasics services block fCheckMerkleRoot)
  checkBlockShapeReading block
  attempt (checkBlockLocks here.toLocalState block)
  checkPayeeReading services.params here node block
  let _ ← block.vtx.foldlM (checkBlockTransactionReading services here.toLocalState node
    (zerocoinActive services.params block)) []
  attempt (checkBlockSigOps services block)

/-- The keys and signatures that `CheckBlockSignature` uses. -/
structure BlockSigner where
  /-- `CPubKey::IsValid`, of the bytes a key is set from. -/
  isValid : Script.Bytes → Bool
  /-- `CPubKey::Verify`. -/
  verify : Script.Bytes → Uint256 → Script.Bytes → Bool

/-- The key that has to have signed a proof of stake block; empty where none
was found. -/
def blockPubKeyReading (services : Services) (coinstake : CTransaction) :
    Reading (Option Script.Bytes) := do
  let txin ← readAt .signature coinstake.vin 0
  if txin.isZerocoinSpend then do
    let spend ← attempt (ofFault (txInToZerocoinSpend services.lib txin))
    .ok (some spend.pubkey)
  else do
    let txout ← readAt .signature coinstake.vout 1
    let solution ← attempt (ofFault (solver txout.scriptPubKey))
    if !solution.result then .ok none
    else if solution.typeRet = .pubkey ∨ solution.typeRet = .pubkeyhash then do
      let vchPubKey ← readAt .signature solution.vSolutionsRet 0
      .ok (some vchPubKey)
    else .ok (some [])

def checkBlockSignatureReading (services : Services) (signer : BlockSigner) (block : CBlock) :
    Reading Bool := do
  let isPoS ← isProofOfStakeReading block
  if !isPoS then .ok block.vchBlockSig.isEmpty
  else if block.vchBlockSig.isEmpty then .ok false
  else do
    let coinstake ← readAt .signature block.vtx 1
    let pubkey ← blockPubKeyReading services coinstake
    match pubkey with
    | none => .ok false
    | some pubkey =>
      .ok (signer.isValid pubkey && signer.verify pubkey block.hash block.vchBlockSig)

@[simp] theorem orDosReading_eq_ok {α : Type} (run : Reading α) (level : Nat)
    (strRejectReason : String) (corruption : Bool) (value : α) :
    orDosReading run level strRejectReason corruption = .ok value ↔ run = .ok value := by
  rcases run with (site | failure) | found <;> simp [orDosReading]

@[simp] theorem orDosReading_outside {α : Type} (run : Reading α) (level : Nat)
    (strRejectReason : String) (corruption : Bool) (site : Site) :
    orDosReading run level strRejectReason corruption = .error (.outside site) ↔
      run = .error (.outside site) := by
  rcases run with (place | failure) | found <;> simp [orDosReading]

@[simp] theorem isCoinBaseReading_eq (tx : CTransaction) :
    isCoinBaseReading tx = .ok tx.isCoinBase := by
  unfold isCoinBaseReading CTransaction.isCoinBase
  split
  · rename_i single
    obtain ⟨txin, only⟩ := List.length_eq_one_iff.mp single
    rw [only]
    rfl
  · rename_i several
    match inputs : tx.vin with
    | [] => rfl
    | [txin] => simp [inputs] at several
    | _ :: _ :: _ => rfl

@[simp] theorem isCoinStakeReading_eq (tx : CTransaction) :
    isCoinStakeReading tx = .ok tx.isCoinStake := by
  unfold isCoinStakeReading CTransaction.isCoinStake
  match inputs : tx.vin, outputs : tx.vout with
  | [], _ => rfl
  | txin :: rest, [] =>
    by_cases null : (txin.prevout.isNull && !txin.isZerocoinSpend) = true <;>
      simp [readAt, null, bind, Except.bind]
  | txin :: rest, [txout] =>
    by_cases null : (txin.prevout.isNull && !txin.isZerocoinSpend) = true <;>
      simp [readAt, null, bind, Except.bind]
  | txin :: rest, txout :: second :: others =>
    by_cases null : (txin.prevout.isNull && !txin.isZerocoinSpend) = true <;>
      simp [readAt, null, bind, Except.bind]

@[simp] theorem isProofOfStakeReading_eq (block : CBlock) :
    isProofOfStakeReading block = .ok block.isProofOfStake := by
  unfold isProofOfStakeReading CBlock.isProofOfStake
  match transactions : block.vtx with
  | [] => rfl
  | [tx] => rfl
  | first :: second :: rest => simp [readAt, bind, Except.bind]

end ZenonCore.BlockReads
