import ZenonCore.CheckBlock

/-!
# Connecting and disconnecting blocks

`CheckInputs`, `ConnectBlock` and `DisconnectBlock` over a coins view; what else they write
goes to the node's stores at once.
-/

namespace ZenonCore.ConnectBlock

open Primitives ChainParams Coins Chain List
open Validation Zerocoin Chainstate CheckBlock

def scriptVerifyP2SH : UInt32 := 1
def scriptVerifyDERSig : UInt32 := 4
def scriptVerifyCheckLockTimeVerify : UInt32 := 512

/-- `STANDARD_SCRIPT_VERIFY_FLAGS` and the part of it that is not mandatory. -/
def standardScriptVerifyFlags : UInt32 := 1 ||| 4 ||| 2 ||| 64 ||| 16 ||| 128
def standardNotMandatoryVerifyFlags : UInt32 := 4 ||| 2 ||| 64 ||| 16 ||| 128

structure CScriptCheck where
  txout : CTxOut
  ptxTo : CTransaction
  nIn : Nat
  nFlags : UInt32
deriving DecidableEq, Repr

def CScriptCheck.run (services : Services) (check : CScriptCheck) : Bool :=
  services.scriptCheck check.txout check.ptxTo check.nIn check.nFlags

/-- One round of the loop of `CheckInputs` over the inputs' values. -/
def checkInputValue (params : CChainParams) (inputs : CCoinsView) (nSpendHeight : Int)
    (nValueIn : CAmount) (txin : CTxIn) : Validated CAmount := do
  let coins ← ofOption (inputs.accessCoins txin.prevout.hash) (.error .assertion)
  require (!(coins.isGenerated && decide (nSpendHeight - coins.nHeight < params.nMaturity)))
    (dos 0 "bad-txns-premature-spend-of-coinbase")
  let txout ← ofOption (coins.vout[txin.prevout.n.toNat]?) (.error (.fault .outOfRange))
  require (params.moneyRange txout.nValue && params.moneyRange (nValueIn + txout.nValue))
    (dos 100 "bad-txns-inputvalues-outofrange")
  .ok (nValueIn + txout.nValue)

def checkFee (params : CChainParams) (tx : CTransaction) (nValueIn : CAmount) :
    Validated Unit := do
  let nValueOut ← ofOption tx.getValueOut (.error (.fault .exception))
  require (nValueOut ≤ nValueIn) (dos 100 "bad-txns-in-belowout")
  require (0 ≤ nValueIn - nValueOut) (dos 100 "bad-txns-fee-negative")
  require (params.moneyRange (nValueIn - nValueOut)) (dos 100 "bad-txns-fee-outofrange")

def scriptChecks (inputs : CCoinsView) (tx : CTransaction) (flags : UInt32) :
    List CScriptCheck :=
  tx.vin.zipIdx.map fun (txin, i) =>
    { txout := (inputs.getOutputFor txin.prevout).getD CTxOut.null
      ptxTo := tx
      nIn := i
      nFlags := flags }

/-- The verdict on a check that failed, by whether only a flag that is not
mandatory made it fail. -/
def scriptFailure (services : Services) (check : CScriptCheck) : Validated Unit :=
  if check.nFlags &&& standardNotMandatoryVerifyFlags != 0 &&
      CScriptCheck.run services
        { check with nFlags := check.nFlags &&& ~~~standardNotMandatoryVerifyFlags } then
    dos 0 "non-mandatory-script-verify-flag"
  else dos 100 "mandatory-script-verify-flag-failed"

/-- `CheckInputs`; with `pvChecks` the script checks are handed back. -/
def checkInputs (services : Services) (tx : CTransaction) (inputs : CCoinsView)
    (nSpendHeight : Int) (fScriptChecks : Bool) (flags : UInt32) (pvChecks : Bool) :
    Validated (List CScriptCheck) :=
  if !tx.isCoinBase && !tx.hasZerocoinSpendInputs then do
    require (inputs.haveInputs tx) (dos 0 "")
    let nValueIn ← tx.vin.foldlM (checkInputValue services.params inputs nSpendHeight) 0
    onlyIf (!tx.isCoinStake) (checkFee services.params tx nValueIn)
    if fScriptChecks then
      let checks := scriptChecks inputs tx flags
      if pvChecks then .ok checks
      else match checks.find? fun check => !check.run services with
        | none => .ok []
        | some check => do
            scriptFailure services check
            .ok []
    else .ok []
  else .ok []

def getBlockValue (params : CChainParams) (nHeight : Int) : CAmount :=
  if params.networkID = .testnet ∧ nHeight < 200 ∧ 0 < nHeight then 250000 * coin
  else if nHeight = 0 then 70001 * coin
  else if nHeight < 321 ∧ 0 < nHeight then 10 * coin
  else if nHeight < 63360 ∧ 321 < nHeight then 10 * coin
  else if nHeight < 106560 ∧ 63360 < nHeight then 7 * coin
  else if nHeight < 149760 ∧ 106560 < nHeight then 650000000
  else if nHeight < 192960 ∧ 149760 < nHeight then 6 * coin
  else if nHeight < 236160 ∧ 192960 < nHeight then 550000000
  else if nHeight ≤ 279360 ∧ 236160 < nHeight then 5 * coin
  else if nHeight ≤ 322560 ∧ 279360 < nHeight then 4 * coin
  else if 322560 < nHeight then 3 * coin
  else coin

def validOutPoint (services : Services) (out : COutPoint) (nHeight : Int) : Bool :=
  !(decide (services.params.nBlockEnforceInvalidUTXO ≤ nHeight) && services.containsOutPoint out)

/-- The locals that the loop of `ConnectBlock` changes; `credited` are the inputs counted in
`nValueIn`. -/
structure Connecting where
  view : CCoinsView
  nFees : CAmount
  nValueIn : CAmount
  nValueOut : CAmount
  nSigOps : Nat
  vSpends : List (CoinSpend × Uint256)
  vMints : List (PublicCoin × Uint256)
  vtxundo : List (List CTxInUndo)
  vChecks : List CScriptCheck
  credited : List (CTransaction × CTxIn)

def Connecting.start (view : CCoinsView) : Connecting where
  view := view
  nFees := 0
  nValueIn := 0
  nValueOut := 0
  nSigOps := 0
  vSpends := []
  vMints := []
  vtxundo := []
  vChecks := []
  credited := []

/-- The denomination of a spend goes into `nValueIn`, and the spend is queued
to be written. -/
def Connecting.credit (acc : Connecting) (tx : CTransaction) (txIn : CTxIn) (spend : Spend) :
    Connecting :=
  { acc with
    nValueIn := acc.nValueIn + zerocoinDenominationToInt spend.coinSpend.denomination * coin
    vSpends := acc.vSpends ++ [(spend.coinSpend, tx.hash)]
    credited := acc.credited ++ [(tx, txIn)] }

/-- The zerocoin loop of `ConnectBlock`, one input at height `nHeight`. -/
def connectSpend (services : Services) (node : NodeState) (nHeight : Int) (tx : CTransaction)
    (acc : Connecting) (txIn : CTxIn) : Validated Connecting :=
  if !txIn.spendsZerocoin then .ok acc
  else do
    require (checkPublicCoinSpendEnforced services.params nHeight txIn.isZerocoinPublicSpend)
      refuse
    let spend ← readSpend services node tx txIn
    require (contextualCheckZerocoinSpend services node tx spend nHeight) (dos 100 "")
    .ok (acc.credit tx txIn spend)

def connectMint (services : Services) (node : NodeState) (nHeight : Int) (tx : CTransaction)
    (acc : Connecting) (out : CTxOut) : Validated Connecting :=
  if !out.isZerocoinMint then .ok acc
  else do
    let pubCoin ← orDos (readMint out) 100 "" false
    require (contextualCheckZerocoinMint services node pubCoin nHeight) (dos 100 "")
    .ok { acc with vMints := acc.vMints ++ [(pubCoin, tx.hash)] }

def connectMints (services : Services) (node : NodeState) (nHeight : Int) (tx : CTransaction)
    (acc : Connecting) : Validated Connecting :=
  if tx.hasZerocoinMintOutputs then
    tx.vout.foldlM (connectMint services node nHeight tx) acc
  else .ok acc

def connectZerocoin (services : Services) (node : NodeState) (nHeight : Int) (tx : CTransaction)
    (acc : Connecting) : Validated Connecting := do
  require (match isTransactionInChain node tx.hash with
    | none => true
    -- while blocks are verified they are connected over themselves
    | some nHeightTx => node.fVerifyingBlocks && decide (nHeight ≤ nHeightTx))
    (dos 100 "bad-txns-inputs-missingorspent")
  let spent ← tx.vin.foldlM (connectSpend services node nHeight tx) acc
  connectMints services node nHeight tx spent

/-- The branch of an ordinary transaction that is not a coinbase. -/
def connectOrdinary (services : Services) (here : LocalState) (node : NodeState) (nHeight : Int)
    (fScriptChecks : Bool) (flags : UInt32) (tx : CTransaction) (acc : Connecting) :
    Validated Connecting := do
  require (acc.view.haveInputs tx) (dos 100 "bad-txns-inputs-missingorspent")
  require (tx.vin.all fun txin => validOutPoint services txin.prevout nHeight)
    (dos 100 "bad-txns-invalid-inputs")
  let minted ← connectMints services node nHeight tx acc
  let nSigOps := minted.nSigOps + services.getP2SHSigOpCount tx minted.view
  require (nSigOps ≤ maxBlockSigOpsCurrent) (dos 100 "bad-blk-sigops")
  let nTxValueIn ← ofOption (getValueIn minted.view tx) (.error .assertion)
  let nTxValueOut ← ofOption tx.getValueOut (.error (.fault .exception))
  let vChecks ← checkInputs services tx minted.view nHeight fScriptChecks flags
    (here.nScriptCheckThreads != 0)
  .ok
    { minted with
      nSigOps := nSigOps
      nFees := if tx.isCoinStake then minted.nFees else minted.nFees + (nTxValueIn - nTxValueOut)
      nValueIn := minted.nValueIn + nTxValueIn
      vChecks := minted.vChecks ++ vChecks }

/-- The two blocks of the chain whose counted value is corrected. -/
def correctedValueOut (nHeight : Int) (i : Nat) (nValueOut : CAmount) : CAmount :=
  if nHeight = 120555 ∧ nValueOut = 259257880811494 ∧ i = 1 then nValueOut - 2592000 * coin
  else if nHeight = 128502 ∧ nValueOut = 13151119035 ∧ i = 1 then nValueOut - 10000000100
  else nValueOut

/-- One round of the loop of `ConnectBlock` over the transactions. -/
def connectTransaction (services : Services) (here : LocalState) (node : NodeState)
    (block : CBlock) (nHeight : Int) (fScriptChecks : Bool) (flags : UInt32) (i : Nat)
    (tx : CTransaction) (acc : Connecting) : Validated Connecting := do
  let nSigOps := acc.nSigOps + services.getLegacySigOpCount tx
  require (nSigOps ≤ maxBlockSigOpsCurrent) (dos 100 "bad-blk-sigops")
  require (!(decide (here.sporkZerocoinMaintenanceMode < block.getBlockTime) &&
    !here.isInitialBlockDownload && tx.containsZerocoins)) (dos 100 "")
  let counted := { acc with nSigOps := nSigOps }
  let checked ← (
    if tx.hasZerocoinSpendInputs then connectZerocoin services node nHeight tx counted
    else if !tx.isCoinBase then
      connectOrdinary services here node nHeight fScriptChecks flags tx counted
    else .ok counted)
  let nTxValueOut ← ofOption tx.getValueOut (.error (.fault .exception))
  let (view, undo) ← ofOption (updateCoins tx checked.view nHeight) (.error .assertion)
  .ok
    { checked with
      view := view
      nValueOut := correctedValueOut nHeight i (checked.nValueOut + nTxValueOut)
      vtxundo := if 0 < i then checked.vtxundo ++ [undo] else checked.vtxundo }

def connectTransactions (services : Services) (here : LocalState) (node : NodeState)
    (block : CBlock) (nHeight : Int) (fScriptChecks : Bool) (flags : UInt32) :
    Nat → List CTransaction → Connecting → Validated Connecting
  | _, [], acc => .ok acc
  | i, tx :: rest, acc => do
      let next ← connectTransaction services here node block nHeight fScriptChecks flags i tx acc
      connectTransactions services here node block nHeight fScriptChecks flags (i + 1) rest next

/-- The two blocks that overwrite transactions of older ones. -/
def bip30Exempt (nHeight : Int) (hash : Uint256) : Bool :=
  nHeight == 91842 &&
      hash == 0x00000000000a4d0a398161ffc163c503763b1f4360639393e0e4c8e300e0caec ||
    nHeight == 91880 &&
      hash == 0x00000000000743f190a18c5577a3c2d2a1f610ae9601ac046a38084ccb7cd721

/-- No transaction of the block is in the view with outputs left. -/
def overwritesNothing (view : CCoinsView) (block : CBlock) : Bool :=
  block.vtx.all fun tx =>
    match view.accessCoins tx.hash with
    | none => true
    | some coins => coins.isPruned

/-- The script flags of a block, and whether its scripts are checked. -/
def fScriptChecks (services : Services) (nHeight : Int) : Bool :=
  services.getTotalBlocksEstimate ≤ nHeight

def blockFlags (services : Services) (pprev : CBlockIndex) : UInt32 :=
  let fCLTVHasMajority := fScriptChecks services (pprev.nHeight + 1) && !pprev.isEmpty &&
    CBlockIndex.isSuperMajority services.params 5 pprev
      services.params.nEnforceBlockUpgradeMajority
  scriptVerifyP2SH ||| scriptVerifyDERSig |||
    (if fCLTVHasMajority then scriptVerifyCheckLockTimeVerify else 0)

def writeBlock (here : LocalState) (node : NodeState) (block : CBlock) (acc : Connecting) :
    NodeState :=
  { node with
    blockUndo := fun hash =>
      if hash = block.hash ∧ (node.blockUndo hash).isNone then some acc.vtxundo
      else node.blockUndo hash
    zerocoinDB := (here.databaseChecksums block).foldl CZerocoinDB.writeAccumulatorValue
      ((node.zerocoinDB.writeCoinSpendBatch acc.vSpends).writeCoinMintBatch acc.vMints)
    txIndex :=
      if node.fTxIndex then
        block.vtx.foldl (fun txIndex tx hash =>
          if hash = tx.hash then some (block.hash, tx) else txIndex hash) node.txIndex
      else node.txIndex }

def checkConnected (services : Services) (here : LocalState) (node : NodeState) (block : CBlock)
    (nHeight : Int) (acc : Connecting) : Validated Unit := do
  require (here.updateZZNNSupply block) (dos 100 "")
  let nMint := acc.nValueOut - acc.nValueIn + acc.nFees
  let nExpectedMint := getBlockValue services.params (nHeight - 1) +
    if block.isProofOfWork then acc.nFees else 0
  require (isBlockValueValid services.params here.masternodeSynced node block nExpectedMint nMint)
    (dos 100 "bad-cb-amount")
  require (here.validateAccumulatorCheckpoint block)
    (if here.shutdownRequested then refuse else dos 100 "bad-acc-checkpoint")
  require (acc.vChecks.all (CScriptCheck.run services)) (dos 100 "block-validation-failed")

/-- `ConnectBlock` of `block` behind `pprev`: the locals at its end, with the view, and the node. -/
def connectBlock (services : Services) (here : LocalState) (node : NodeState) (block : CBlock)
    (pprev : CBlockIndex) (view : CCoinsView) (fJustCheck fAlreadyChecked : Bool) :
    Validated (Connecting × NodeState) := do
  let nHeight := pprev.nHeight + 1
  onlyIf (!fAlreadyChecked) (checkBlock services here node block (!fJustCheck))
  require (pprev.getBlockHash == view.hashBlock) (.error .assertion)
  if block.hash = services.params.hashGenesisBlock then
    .ok (Connecting.start (view.setBestBlock block.hash), node)
  else do
    require (!(decide (nHeight ≤ services.params.nLastPOWBlock) && block.isProofOfStake))
      (dos 100 "PoS-early")
    require (!(decide (services.params.nLastPOWBlock < nHeight) && block.isProofOfWork))
      (dos 100 "PoW-ended")
    onlyIf (fJustCheck || !bip30Exempt nHeight block.hash)
      (require (overwritesNothing view block) (dos 100 "bad-txns-BIP30"))
    let acc ← connectTransactions services here node block nHeight
      (fScriptChecks services nHeight) (blockFlags services pprev) 0 block.vtx
      (Connecting.start view)
    checkConnected services here node block nHeight acc
    if fJustCheck then .ok (acc, node)
    else .ok ({ acc with view := acc.view.setBestBlock block.hash }, writeBlock here node block acc)

theorem paired_of_mem {α β : Type} (Related : α → β → Prop) (first : List α) (second : List β)
    (paired : List.Forall₂ Related first second) (element : α) (member : element ∈ first) :
    ∃ other ∈ second, Related element other := by
  induction paired with
  | nil => cases member
  | cons pair rest ih =>
    obtain here | later := mem_cons.mp member
    · exact ⟨_, mem_cons_self, here ▸ pair⟩
    · obtain ⟨other, found, related⟩ := ih later
      exact ⟨other, mem_cons_of_mem _ found, related⟩

section Specifications

variable (services : Services) (here : LocalState) (node : NodeState)

/-- An input whose spend `ConnectBlock` has read and found new to the chain. -/
structure SpendAccepted (nHeight : Int) (tx : CTransaction) (txIn : CTxIn) (spend : Spend) :
    Prop where
  enforced : checkPublicCoinSpendEnforced services.params nHeight txIn.isZerocoinPublicSpend = true
  read : readSpend services node tx txIn = .ok spend
  contextual : contextualCheckZerocoinSpend services node tx spend nHeight = true

/-- An output whose mint `ConnectBlock` has read and accepted. -/
structure MintAccepted (nHeight : Int) (out : CTxOut) (pubCoin : PublicCoin) : Prop where
  read : readMint out = .ok pubCoin
  contextual : contextualCheckZerocoinMint services node pubCoin nHeight = true

variable (nHeight : Int) (tx : CTransaction)

theorem connectSpend_ok (acc next : Connecting)
    (txIn : CTxIn) (taken : connectSpend services node nHeight tx acc txIn = .ok next) :
    txIn.spendsZerocoin = false ∧ next = acc ∨
      txIn.spendsZerocoin = true ∧
        ∃ spend, SpendAccepted services node nHeight tx txIn spend ∧
          next = acc.credit tx txIn spend := by
  unfold connectSpend at taken
  split_ifs at taken with ordinary
  · left
    cases taken
    exact ⟨by simpa using ordinary, rfl⟩
  · right
    simp only [bind_eq_ok, refuse, require_eq_ok, dos, exists_and_left, exists_const] at taken
    obtain ⟨enforced, spend, read, contextual, result⟩ := taken
    cases result
    exact ⟨by simpa using ordinary, spend, ⟨enforced, read, contextual⟩, rfl⟩

/-- The zerocoin loop over some inputs credits exactly the zerocoin inputs
among them. -/
theorem connectSpends_ok (vin : List CTxIn)
    (acc last : Connecting)
    (done : vin.foldlM (connectSpend services node nHeight tx) acc = .ok last) :
    ∃ nValueIn spends,
      List.Forall₂ (SpendAccepted services node nHeight tx)
        (vin.filter CTxIn.spendsZerocoin) spends ∧
      last =
        { acc with
          nValueIn := nValueIn
          vSpends := acc.vSpends ++ spends.map fun spend => (spend.coinSpend, tx.hash)
          credited := acc.credited ++
            (vin.filter CTxIn.spendsZerocoin).map fun txin => (tx, txin) } := by
  induction vin generalizing acc with
  | nil =>
    cases done
    exact ⟨last.nValueIn, [], .nil, by simp⟩
  | cons txIn rest ih =>
    rw [foldlM_cons, bind_eq_ok] at done
    obtain ⟨next, taken, later⟩ := done
    rcases connectSpend_ok services node nHeight tx acc next txIn taken with
      ⟨ordinary, same⟩ | ⟨zerocoin, spend, accepted, credits⟩
    · rw [filter_cons_of_neg (by simp [ordinary])]
      exact same ▸ ih next later
    · rw [filter_cons_of_pos zerocoin]
      obtain ⟨nValueIn, spends, all, result⟩ := ih next later
      refine ⟨nValueIn, spend :: spends, .cons accepted all, ?_⟩
      rw [result, credits]
      simp [Connecting.credit]

theorem connectMint_ok (acc next : Connecting) (out : CTxOut)
    (taken : connectMint services node nHeight tx acc out = .ok next) :
    out.isZerocoinMint = false ∧ next = acc ∨
      out.isZerocoinMint = true ∧ ∃ pubCoin, MintAccepted services node nHeight out pubCoin ∧
        next = { acc with vMints := acc.vMints ++ [(pubCoin, tx.hash)] } := by
  unfold connectMint at taken
  split_ifs at taken with ordinary
  · left
    cases taken
    exact ⟨by simpa using ordinary, rfl⟩
  · right
    simp only [bind_eq_ok, orDos_eq_ok, dos, require_eq_ok, exists_and_left, exists_const] at taken
    obtain ⟨pubCoin, read, contextual, result⟩ := taken
    cases result
    exact ⟨by simpa using ordinary, pubCoin, ⟨read, contextual⟩, rfl⟩

theorem connectMints_ok (acc last : Connecting)
    (done : connectMints services node nHeight tx acc = .ok last) :
    ∃ mints, List.Forall₂ (MintAccepted services node nHeight) tx.zerocoinOutputs mints ∧
      last = { acc with vMints := acc.vMints ++ mints.map fun coin => (coin, tx.hash) } := by
  have loop : ∀ (vout : List CTxOut) (acc : Connecting),
      vout.foldlM (connectMint services node nHeight tx) acc = .ok last →
      ∃ mints, List.Forall₂ (MintAccepted services node nHeight)
          (vout.filter CTxOut.isZerocoinMint) mints ∧
        last = { acc with vMints := acc.vMints ++ mints.map fun coin => (coin, tx.hash) } := by
    intro vout
    induction vout with
    | nil =>
      intro acc done
      cases done
      exact ⟨[], .nil, by simp⟩
    | cons out rest ih =>
      intro acc done
      rw [foldlM_cons, bind_eq_ok] at done
      obtain ⟨next, taken, later⟩ := done
      rcases connectMint_ok services node nHeight tx acc next out taken with
        ⟨ordinary, same⟩ | ⟨mint, pubCoin, accepted, queued⟩
      · rw [filter_cons_of_neg (by simp [ordinary])]
        exact same ▸ ih next later
      · rw [filter_cons_of_pos mint]
        obtain ⟨mints, all, result⟩ := ih next later
        refine ⟨pubCoin :: mints, .cons accepted all, ?_⟩
        rw [result, queued]
        simp
  unfold connectMints at done
  split_ifs at done with mints
  · exact loop tx.vout acc done
  · cases done
    rw [(zerocoinOutputs_eq_nil tx).mpr (by simpa using mints)]
    exact ⟨[], .nil, by simp⟩

/-- What one round of the loop over a block's transactions does. -/
structure TransactionConnected (nHeight : Int) (i : Nat) (tx : CTransaction)
    (acc next : Connecting) : Prop where
  spends : ∃ spends, List.Forall₂ (SpendAccepted services node nHeight tx) tx.zerocoinInputs
      spends ∧
    next.vSpends = acc.vSpends ++ spends.map fun spend => (spend.coinSpend, tx.hash)
  mints : ∃ mints, List.Forall₂ (MintAccepted services node nHeight) tx.zerocoinOutputs mints ∧
    next.vMints = acc.vMints ++ mints.map fun coin => (coin, tx.hash)
  credited : next.credited = acc.credited ++ tx.zerocoinInputs.map fun txin => (tx, txin)
  inputs : acc.view.haveInputs tx = true
  coins : ∃ undo, updateCoins tx acc.view nHeight = some (next.view, undo) ∧
    next.vtxundo = if 0 < i then acc.vtxundo ++ [undo] else acc.vtxundo
  notInChain : tx.hasZerocoinSpendInputs = true → ∀ nHeightTx,
    isTransactionInChain node tx.hash = some nHeightTx →
      node.fVerifyingBlocks = true ∧ nHeight ≤ nHeightTx

theorem connectZerocoin_ok (acc last : Connecting)
    (done : connectZerocoin services node nHeight tx acc = .ok last) :
    (∀ nHeightTx, isTransactionInChain node tx.hash = some nHeightTx →
      node.fVerifyingBlocks = true ∧ nHeight ≤ nHeightTx) ∧
    ∃ nValueIn spends mints,
      List.Forall₂ (SpendAccepted services node nHeight tx) tx.zerocoinInputs spends ∧
      List.Forall₂ (MintAccepted services node nHeight) tx.zerocoinOutputs mints ∧
      last =
        { acc with
          nValueIn := nValueIn
          vSpends := acc.vSpends ++ spends.map fun spend => (spend.coinSpend, tx.hash)
          vMints := acc.vMints ++ mints.map fun coin => (coin, tx.hash)
          credited := acc.credited ++ tx.zerocoinInputs.map fun txin => (tx, txin) } := by
  unfold connectZerocoin at done
  simp only [bind_eq_ok, dos, require_eq_ok, exists_and_left, exists_const] at done
  obtain ⟨absent, spent, spending, minting⟩ := done
  rcases connectSpends_ok services node nHeight tx tx.vin acc spent spending with
    ⟨nValueIn, spends, spendsRead, afterSpends⟩
  rcases connectMints_ok services node nHeight tx spent last minting with
    ⟨mints, mintsRead, afterMints⟩
  constructor
  · intro nHeightTx found
    simpa [found] using absent
  · refine ⟨nValueIn, spends, mints, spendsRead, mintsRead, ?_⟩
    rw [afterMints, afterSpends]
    rfl

theorem connectOrdinary_ok (nHeight : Int) (scripts : Bool) (flags : UInt32) (tx : CTransaction)
    (acc last : Connecting)
    (done : connectOrdinary services here node nHeight scripts flags tx acc = .ok last) :
    acc.view.haveInputs tx = true ∧ ∃ mints,
      List.Forall₂ (MintAccepted services node nHeight) tx.zerocoinOutputs mints ∧
      last.vMints = acc.vMints ++ mints.map (fun coin => (coin, tx.hash)) ∧
      last.view = acc.view ∧ last.vSpends = acc.vSpends ∧ last.credited = acc.credited ∧
      last.vtxundo = acc.vtxundo := by
  unfold connectOrdinary at done
  simp only [bind_eq_ok, dos, require_eq_ok, ofOption_eq_ok, exists_and_left,
    exists_const] at done
  obtain ⟨inputs, _, minted, minting, _, _, _, _, _, _, _, result⟩ := done
  obtain ⟨mints, read, after⟩ := connectMints_ok services node nHeight tx acc minted minting
  cases result
  rw [after]
  exact ⟨inputs, mints, read, rfl, rfl, rfl, rfl, rfl⟩

theorem connectTransaction_ok (block : CBlock) (nHeight : Int) (scripts : Bool) (flags : UInt32)
    (i : Nat) (tx : CTransaction) (acc next : Connecting)
    (taken : connectTransaction services here node block nHeight scripts flags i tx acc =
      .ok next) :
    TransactionConnected services node nHeight i tx acc next := by
  unfold connectTransaction at taken
  simp only [bind_eq_ok, dos, require_eq_ok, ofOption_eq_ok, exists_and_left,
    exists_const] at taken
  obtain ⟨_, _, checked, checking, _, _, ⟨view, undo⟩, updated, result⟩ := taken
  cases result
  split_ifs at checking with zerocoin coinBase
  · rcases connectZerocoin_ok services node nHeight tx _ checked checking with
      ⟨absent, nValueIn, spends, mints, spendsRead, mintsRead, after⟩
    subst after
    exact
      { spends := ⟨spends, spendsRead, rfl⟩
        mints := ⟨mints, mintsRead, rfl⟩
        credited := rfl
        inputs := by simp [CCoinsView.haveInputs, zerocoin]
        coins := ⟨undo, updated, rfl⟩
        notInChain := fun _ => absent }
  · rcases connectOrdinary_ok services here node nHeight scripts flags tx _ checked checking with
      ⟨inputs, mints, mintsRead, vMints, sameView, vSpends, credited, vtxundo⟩
    have none : tx.zerocoinInputs = [] := (zerocoinInputs_eq_nil tx).mpr (by simpa using zerocoin)
    exact
      { spends := ⟨[], none ▸ .nil, by simp [vSpends]⟩
        mints := ⟨mints, mintsRead, vMints⟩
        credited := by simp [credited, none]
        inputs := inputs
        coins := ⟨undo, sameView ▸ updated, by simp [vtxundo]⟩
        notInChain := fun spends => absurd spends (by simpa using zerocoin) }
  · cases checking
    have isCoinBase : tx.isCoinBase = true := by simpa using coinBase
    have none : tx.zerocoinInputs = [] := (zerocoinInputs_eq_nil tx).mpr (by simpa using zerocoin)
    have noMints : tx.zerocoinOutputs = [] :=
      (zerocoinOutputs_eq_nil tx).mpr (coinBase_no_zerocoin tx isCoinBase).2
    exact
      { spends := ⟨[], none ▸ .nil, by simp⟩
        mints := ⟨[], noMints ▸ .nil, by simp⟩
        credited := by simp [none]
        inputs := by simp [CCoinsView.haveInputs, isCoinBase]
        coins := ⟨undo, updated, rfl⟩
        notInChain := fun spends => absurd spends (by simpa using zerocoin) }

/-- The accumulators of the loop, one round after the other. -/
inductive TransactionsConnected (nHeight : Int) :
    Nat → List CTransaction → Connecting → Connecting → Prop
  | done (i : Nat) (acc : Connecting) : TransactionsConnected nHeight i [] acc acc
  | round (i : Nat) (tx : CTransaction) (rest : List CTransaction) (acc next last : Connecting)
      (connected : TransactionConnected services node nHeight i tx acc next)
      (later : TransactionsConnected nHeight (i + 1) rest next last) :
      TransactionsConnected nHeight i (tx :: rest) acc last

theorem connectTransactions_ok (block : CBlock) (nHeight : Int) (scripts : Bool)
    (flags : UInt32) (i : Nat) (vtx : List CTransaction) (acc last : Connecting)
    (done : connectTransactions services here node block nHeight scripts flags i vtx acc =
      .ok last) :
    TransactionsConnected services node nHeight i vtx acc last := by
  induction vtx generalizing i acc with
  | nil =>
    cases done
    exact .done i last
  | cons tx rest ih =>
    simp only [connectTransactions, bind_eq_ok] at done
    obtain ⟨next, taken, later⟩ := done
    exact .round i tx rest acc next last
      (connectTransaction_ok services here node block nHeight scripts flags i tx acc next taken)
      (ih (i + 1) next later)

theorem transactionsConnected_mem (nHeight : Int) (i : Nat) (vtx : List CTransaction)
    (acc last : Connecting)
    (connected : TransactionsConnected services node nHeight i vtx acc last) (tx : CTransaction)
    (member : tx ∈ vtx) :
    ∃ index before after, TransactionConnected services node nHeight index tx before after := by
  induction connected with
  | done => cases member
  | round i first rest acc next last taken later ih =>
    obtain here | behind := mem_cons.mp member
    · rw [here]
      exact ⟨i, acc, next, taken⟩
    · exact ih behind

theorem connectBlock_ok (block : CBlock) (pprev : CBlockIndex) (view : CCoinsView)
    (fJustCheck fAlreadyChecked : Bool) (acc : Connecting) (after : NodeState)
    (connected : connectBlock services here node block pprev view fJustCheck fAlreadyChecked =
      .ok (acc, after)) :
    (fAlreadyChecked = false → checkBlock services here node block (!fJustCheck) = .ok ()) ∧
    pprev.getBlockHash = view.hashBlock ∧
    (block.hash = services.params.hashGenesisBlock ∧
        acc = Connecting.start (view.setBestBlock block.hash) ∧ after = node ∨
      block.hash ≠ services.params.hashGenesisBlock ∧
        ((fJustCheck || !bip30Exempt (pprev.nHeight + 1) block.hash) = true →
          overwritesNothing view block = true) ∧
        ∃ last, TransactionsConnected services node (pprev.nHeight + 1) 0 block.vtx
            (Connecting.start view) last ∧
          (acc, after) =
            if fJustCheck then (last, node)
            else ({ last with view := last.view.setBestBlock block.hash },
              writeBlock here node block last)) := by
  unfold connectBlock at connected
  simp only [bind_eq_ok, onlyIf_eq_ok, require_eq_ok, exists_and_left, exists_const] at connected
  obtain ⟨_, checking, atTip, rest⟩ := connected
  refine ⟨fun unchecked => checking (by simp [unchecked]), by simpa using atTip, ?_⟩
  by_cases genesis : block.hash = services.params.hashGenesisBlock
  · left
    rw [if_pos genesis] at rest
    cases rest
    exact ⟨genesis, rfl, rfl⟩
  · right
    rw [if_neg genesis] at rest
    simp only [bind_eq_ok, dos, onlyIf_eq_ok, require_eq_ok, exists_and_left,
      exists_const] at rest
    obtain ⟨_, _, overwrites, last, loop, _, _, result⟩ := rest
    refine ⟨genesis, overwrites, last, connectTransactions_ok services here node block _ _ _ 0
      block.vtx _ last loop, ?_⟩
    split_ifs at result ⊢
    · exact (Except.ok.inj result).symm
    · exact (Except.ok.inj result).symm

end Specifications

theorem indexBlock_entry (hashBlock : Uint256) (vtx : List CTransaction)
    (txIndex : Uint256 → Option (Uint256 × CTransaction)) (hash : Uint256) :
    ((∀ tx ∈ vtx, tx.hash ≠ hash) ∧
      (vtx.foldl (fun txIndex tx other =>
        if other = tx.hash then some (hashBlock, tx) else txIndex other) txIndex) hash =
          txIndex hash) ∨
    ∃ tx ∈ vtx, tx.hash = hash ∧
      (vtx.foldl (fun txIndex tx other =>
        if other = tx.hash then some (hashBlock, tx) else txIndex other) txIndex) hash =
          some (hashBlock, tx) := by
  induction vtx generalizing txIndex with
  | nil => exact Or.inl ⟨fun tx member => absurd member not_mem_nil, rfl⟩
  | cons first rest ih =>
    rw [foldl_cons]
    rcases ih fun other => if other = first.hash then some (hashBlock, first) else txIndex other
      with ⟨others, entry⟩ | ⟨tx, member, same, entry⟩
    · by_cases here : first.hash = hash
      · right
        exact ⟨first, mem_cons_self, here, by rw [entry, if_pos here.symm]⟩
      · left
        exact ⟨forall_mem_cons.mpr ⟨here, others⟩, by rw [entry, if_neg (Ne.symm here)]⟩
    · exact Or.inr ⟨tx, mem_cons_of_mem _ member, same, entry⟩

end ZenonCore.ConnectBlock
