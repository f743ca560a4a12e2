import ZenonCore.Chainstate

/-!
# Checks of transactions and blocks on their own

`CheckTransaction`, `CheckZerocoinSpend` and `CheckBlock`, which do read the tip, the zerocoin
database and the clock.
-/

namespace ZenonCore.CheckBlock

open Primitives ChainParams Chain Validation
open Zerocoin Chainstate

def maxZerocoinTxSize : Nat := 150000

def maxBlockSizeCurrent : Nat := 2000000

def maxBlockSigOpsCurrent : Nat := 40000

def maxBlockSigOpsLegacy : Nat := 20000

def checkZerocoinMint (services : Services) (txout : CTxOut) : Validated Unit := do
  let pubCoin ← orDos (readMint txout) 100 "" false
  require (services.lib.validate pubCoin) (dos 100 "")

structure Redemption where
  serials : List Int
  nTotalRedeemed : CAmount
  fValidated : Bool
deriving DecidableEq, Repr

/-- The spend of an input and the output it spends; a private spend has no previous output. -/
def readRedeemed (services : Services) (node : NodeState) (tx : CTransaction) (txin : CTxIn) :
    Validated (CoinSpend × CTxOut) :=
  if txin.isZerocoinPublicSpend then do
    let prevOut ← orDos (getOutput node txin.prevout.hash txin.prevout.n) 100 "" false
    let parsed ← ofFault (parseCoinSpend services.lib txin tx prevOut)
    let publicSpend ← ofOption parsed (dos 100 "")
    .ok (publicSpend.toCoinSpend, prevOut)
  else do
    let newSpend ← ofFault (txInToZerocoinSpend services.lib txin)
    .ok (newSpend, CTxOut.null)

/-- The verification of the coin (a public spend) or of the proof. -/
def verifyRedeemed (services : Services) (node : NodeState) (tx : CTransaction)
    (fVerifySignature fFakeSerialAttack : Bool) (txin : CTxIn) (newSpend : CoinSpend)
    (prevOut : CTxOut) : Validated Unit :=
  if txin.isZerocoinPublicSpend then do
    let valid ← ofFault (validateInput services.lib txin prevOut tx)
    require valid (dos 100 "")
  else if fVerifySignature then do
    let bnAccumulatorValue ← ofOption
      (node.zerocoinDB.accumulatorValues newSpend.accChecksum) (dos 100 "")
    require (services.lib.verify newSpend
      (node.chainActive.nHeight < services.params.nBlockZerocoinV2) bnAccumulatorValue
      (!fFakeSerialAttack)) (dos 100 "")
  else .ok ()

def redeemInput (services : Services) (node : NodeState) (tx : CTransaction)
    (fVerifySignature fFakeSerialAttack : Bool) (found : Redemption) (txin : CTxIn) :
    Validated Redemption :=
  if !txin.spendsZerocoin then .ok found
  else do
    let (newSpend, prevOut) ← readRedeemed services node tx txin
    require (newSpend.denomination != .zqError) (dos 100 "")
    require (zerocoinDenominationToInt newSpend.denomination == txin.nSequence.toNat) (dos 100 "")
    require (newSpend.ptxHash == services.lib.getHash 1 [] tx.vout 0) (dos 100 "")
    verifyRedeemed services node tx fVerifySignature fFakeSerialAttack txin newSpend prevOut
    require (!found.serials.contains newSpend.coinSerialNumber) (dos 100 "")
    .ok
      { serials := newSpend.coinSerialNumber :: found.serials
        nTotalRedeemed :=
          found.nTotalRedeemed + zerocoinDenominationToAmount newSpend.denomination
        fValidated := true }

def checkZerocoinSpend (services : Services) (node : NodeState) (tx : CTransaction)
    (fVerifySignature fFakeSerialAttack : Bool) : Validated Unit := do
  require (!(decide (2 < tx.vout.length) &&
    decide (2 < tx.vout.countP fun out => !out.isZerocoinMint) && !tx.isCoinStake)) (dos 100 "")
  let redeemed ← tx.vin.foldlM
    (redeemInput services node tx fVerifySignature fFakeSerialAttack)
    { serials := [], nTotalRedeemed := 0, fValidated := false }
  onlyIf (!tx.isCoinStake) do
    let nValueOut ← ofOption tx.getValueOut (.error (.fault .exception))
    require (nValueOut ≤ redeemed.nTotalRedeemed) (dos 100 "")
  require redeemed.fValidated refuse

/-- Whether `CheckTransaction` has the proofs of private spends verified. -/
def verifiesSignatures (here : LocalState) (node : NodeState) : Bool :=
  !here.isInitialBlockDownload &&
    decide (here.getTime - node.chainActive.getBlockTime < 60 * 60 * 24)

def checkTxOut (services : Services) (tx : CTransaction) (fZerocoinActive : Bool)
    (nValueOut : CAmount) (txout : CTxOut) : Validated CAmount := do
  require (!(txout.isEmpty && !tx.isCoinBase && !tx.isCoinStake)) (dos 100 "")
  require (0 ≤ txout.nValue) (dos 100 "bad-txns-vout-negative")
  require (txout.nValue ≤ services.params.nMaxMoneyOut) (dos 100 "bad-txns-vout-toolarge")
  require (services.params.moneyRange (nValueOut + txout.nValue))
    (dos 100 "bad-txns-txouttotal-toolarge")
  onlyIf (fZerocoinActive && txout.isZerocoinMint)
    (orDos (checkZerocoinMint services txout) 100 "" false)
  .ok (nValueOut + txout.nValue)

/-- The duplicate inputs; private spends do not enter the set. -/
def checkDuplicateInputs : List COutPoint → List CTxIn → Validated Unit
  | _, [] => .ok ()
  | vInOutPoints, txin :: rest => do
      require (!vInOutPoints.contains txin.prevout) (dos 100 "bad-txns-inputs-duplicate")
      checkDuplicateInputs
        (if txin.isZerocoinSpend then vInOutPoints else txin.prevout :: vInOutPoints) rest

/-- The part of `CheckTransaction` that runs when zerocoin is active. -/
def checkZerocoinInputs (services : Services) (here : LocalState) (node : NodeState)
    (tx : CTransaction) (fFakeSerialAttack : Bool) : Validated Unit := do
  let nZCSpendCount := tx.vin.countP fun txin =>
    txin.isZerocoinSpend && !txin.isZerocoinPublicSpend
  require (nZCSpendCount ≤ services.params.nMaxZerocoinSpendsPerTransaction) (dos 100 "")
  onlyIf tx.hasZerocoinSpendInputs do
    require (tx.vin.all CTxIn.spendsZerocoin) (dos 100 "")
    orDos (checkZerocoinSpend services node tx (verifiesSignatures here node) fFakeSerialAttack)
      100 "" false

/-- The last part of `CheckTransaction`, by the kind of the transaction. -/
def checkInputCounts (services : Services) (tx : CTransaction) (fZerocoinActive : Bool) :
    Validated Unit :=
  if tx.isCoinBase then
    let size := (tx.vin.headD { prevout := .null, scriptSig := [], nSequence := 0 }).scriptSig.length
    require (decide (2 ≤ size) && decide (size ≤ 150)) (dos 100 "bad-cb-length")
  else if fZerocoinActive && tx.hasZerocoinSpendInputs then do
    require (1 ≤ tx.vin.length) (dos 10 "bad-zerocoinspend")
    if tx.hasZerocoinPublicSpendInputs then
      require (tx.vin.length ≤ services.params.nMaxZerocoinPublicSpendsPerTransaction)
        (dos 10 "bad-zerocoinspend")
    else
      require (tx.vin.length ≤ services.params.nMaxZerocoinSpendsPerTransaction)
        (dos 10 "bad-zerocoinspend")
  else
    require (tx.vin.all fun txin =>
      !(txin.prevout.isNull && (fZerocoinActive && !txin.isZerocoinSpend)))
      (dos 10 "bad-txns-prevout-null")

/-- `CheckTransaction`, whose parameter `fRejectBadUTXO` is not used. -/
def checkTransaction (services : Services) (here : LocalState) (node : NodeState)
    (tx : CTransaction) (fZerocoinActive fFakeSerialAttack : Bool) : Validated Unit := do
  require (!tx.vin.isEmpty) (dos 10 "bad-txns-vin-empty")
  require (!tx.vout.isEmpty) (dos 10 "bad-txns-vout-empty")
  require (services.getSerializeSize tx ≤ maxZerocoinTxSize) (dos 100 "bad-txns-oversize")
  let _ ← tx.vout.foldlM (checkTxOut services tx fZerocoinActive) 0
  checkDuplicateInputs [] tx.vin
  onlyIf fZerocoinActive (checkZerocoinInputs services here node tx fFakeSerialAttack)
  checkInputCounts services tx fZerocoinActive

def checkBlockHeader (services : Services) (block : CBlockHeader) (fCheckPOW : Bool) :
    Validated Unit :=
  require (!fCheckPOW || services.checkProofOfWork block.hash block.nBits) (dos 50 "high-hash")

/-- Only the first transaction is a coinbase, empty in a proof of stake block, whose second one
stakes. -/
def checkBlockShape (block : CBlock) : Validated Unit := do
  require ((block.vtx.take 1).any CTransaction.isCoinBase) (dos 100 "bad-cb-missing")
  require ((block.vtx.drop 1).all fun tx => !tx.isCoinBase) (dos 100 "bad-cb-multiple")
  onlyIf block.isProofOfStake do
    require ((block.vtx.take 1).all fun tx =>
      match tx.vout with
      | [txout] => txout.isEmpty
      | _ => false) (dos 100 "")
    require ((block.vtx.drop 1).head?.any CTransaction.isCoinStake) (dos 100 "")
    require ((block.vtx.drop 2).all fun tx => !tx.isCoinStake) (dos 100 "")

def respectsLocks (here : LocalState) (block : CBlock) : Bool :=
  block.vtx.all fun tx =>
    tx.isCoinBase || tx.vin.all fun txin =>
      match here.mapLockedInputs txin.prevout with
      | none => true
      | some locked => locked == tx.hash

/-- The local part of `CheckBlock`: transaction locks and payee. -/
def checkBlockLocal (here : LocalState) (node : NodeState) (block : CBlock) : Validated Unit := do
  onlyIf here.sporkSwiftTXBlockFiltering
    (require (respectsLocks here block) (dos 0 "conflicting-tx-ix"))
  onlyIf (!node.chainActive.isEmpty && blockHeight node block != 0 &&
      !here.isInitialBlockDownload)
    (require (here.isBlockPayeeValid block (blockHeight node block)) (dos 0 "bad-cb-payee"))

/-- The serial numbers of a block, each at most once: one input. -/
def countSerial (services : Services) (node : NodeState) (tx : CTransaction)
    (vBlockSerials : List Int) (txIn : CTxIn) : Validated (List Int) :=
  if txIn.spendsZerocoin then do
    let spend ← readSpend services node tx txIn
    require (!vBlockSerials.contains spend.coinSpend.coinSerialNumber) (dos 100 "")
    .ok (spend.coinSpend.coinSerialNumber :: vBlockSerials)
  else .ok vBlockSerials

def checkBlockTransaction (services : Services) (here : LocalState) (node : NodeState)
    (fZerocoinActive : Bool) (vBlockSerials : List Int) (tx : CTransaction) :
    Validated (List Int) := do
  checkTransaction services here node tx fZerocoinActive
    (isBlockBetweenFakeSerialAttackRange services.params (node.chainActive.nHeight + 1))
  if tx.hasZerocoinSpendInputs then
    tx.vin.foldlM (countSerial services node tx) vBlockSerials
  else .ok vBlockSerials

def zerocoinActive (params : CChainParams) (block : CBlock) : Bool :=
  decide (params.nZerocoinStartTime < block.getBlockTime)

/-- `CheckBlock`. Its `fCheckPOW` is not used: every header that is not proof of stake is checked.
-/
def checkBlock (services : Services) (here : LocalState) (node : NodeState) (block : CBlock)
    (fCheckMerkleRoot : Bool) : Validated Unit := do
  orDos (checkBlockHeader services block.toCBlockHeader block.isProofOfWork) 100 "bad-header" true
  onlyIf fCheckMerkleRoot do
    let (hashMerkleRoot2, mutated) := services.buildMerkleTree block.vtx
    require (block.hashMerkleRoot == hashMerkleRoot2) (dosCorruption 100 "bad-txnmrklroot")
    require (!mutated) (dosCorruption 100 "bad-txns-duplicate")
  require (!block.vtx.isEmpty && decide (block.vtx.length ≤ maxBlockSizeCurrent) &&
    decide (services.getBlockSerializeSize block ≤ maxBlockSizeCurrent)) (dos 100 "bad-blk-length")
  checkBlockShape block
  checkBlockLocal here node block
  let fZerocoinActive := zerocoinActive services.params block
  let _ ← block.vtx.foldlM (checkBlockTransaction services here node fZerocoinActive) []
  require ((block.vtx.map services.getLegacySigOpCount).sum ≤
      if fZerocoinActive then maxBlockSigOpsCurrent else maxBlockSigOpsLegacy)
    (dosCorruption 100 "bad-blk-sigops")

end ZenonCore.CheckBlock
