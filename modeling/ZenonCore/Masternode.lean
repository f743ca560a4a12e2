import ZenonCore.ChainTip

/-!
# Masternode entries, pings and broadcasts

What `masternode.cpp` keeps of a masternode and the messages signed for it. Hashing, keys and
signed texts are fields of `Signer`.
-/

namespace ZenonCore.Masternode

open Script Primitives ChainParams Coins
open Mempool Chain Validation Chainstate
open CheckBlock ConnectBlock ChainTip

abbrev CPubKey := Bytes

abbrev CKeyID := { bytes : Bytes // bytes.length = 20 }

structure CService where
  ip : Bytes
  port : UInt16
deriving DecidableEq, Repr

/-- `GetScriptForDestination` of a key: the pushed hash has a one-byte length. -/
def getScriptForDestination (keyID : CKeyID) : CScript :=
  [opDup, opHash160, 20] ++ keyID.val ++ [opEqualVerify, opCheckSig]

/-- `MNA * COIN`, `MNP * COIN`, `MNA2 * COIN` and `MNP2 * COIN`. -/
def masternodeAmount : CAmount := 5000 * coin
def pillarAmount : CAmount := 15000 * coin
def masternodeProbe : CAmount := 499999000000
def pillarProbe : CAmount := 1499999000000

def masternodeMinConfirmations : Int := 15
def masternodeMinMnpSeconds : Int := 10 * 60
def masternodeMinMnbSeconds : Int := 5 * 60
def masternodeExpirationSeconds : Int := 120 * 60
def masternodeRemovalSeconds : Int := 130 * 60
def masternodeCheckSeconds : Int := 5

def minPeerMnAnnounce : Int := 70918

structure CMasternodePing where
  vin : CTxIn
  blockHash : Uint256
  sigTime : Int
  vchSig : Bytes
deriving DecidableEq, Repr

def emptyTxIn : CTxIn := { prevout := .null, scriptSig := [], nSequence := 0xffffffff }

def CMasternodePing.empty : CMasternodePing :=
  { vin := emptyTxIn, blockHash := 0, sigTime := 0, vchSig := [] }

/-- The comparison of pings, which leaves time and signature out. -/
def CMasternodePing.same (first second : CMasternodePing) : Bool :=
  first.vin == second.vin && first.blockHash == second.blockHash

structure CMasternodeBroadcast where
  vin : CTxIn
  addr : CService
  pubKeyCollateralAddress : CPubKey
  pubKeyMasternode : CPubKey
  sig : Bytes
  sigTime : Int
  protocolVersion : Int
  lastPing : CMasternodePing
deriving DecidableEq, Repr

inductive ActiveState
  | preEnabled
  | enabled
  | expired
  | outpointSpent
  | remove
  | watchdogExpired
  | poseBan
  | vinSpent
  | posError
  | missing
deriving DecidableEq, Repr

structure CMasternode extends CMasternodeBroadcast where
  activeState : ActiveState
  lastTimeChecked : Int
  isPillar : Bool
deriving DecidableEq, Repr

def CMasternode.ofBroadcast (mnb : CMasternodeBroadcast) : CMasternode :=
  { mnb with activeState := .enabled, lastTimeChecked := 0, isPillar := false }

structure Signer where
  getID : CPubKey → CKeyID
  /-- `strMessageMagic` and the message, hashed. -/
  hashMessage : Bytes → Uint256
  recoverCompact : Uint256 → Bytes → Option CPubKey
  serviceToString : CService → Bytes
  txInToString : CTxIn → Bytes
  keyIDToString : CKeyID → Bytes
  hashToString : Uint256 → Bytes
  /-- `CMasternodeBroadcast::GetHash`, of `sigTime` and `pubKeyCollateralAddress`. -/
  hashBroadcast : Int → CPubKey → Uint256
  /-- `CMasternodePing::GetHash`, of `vin` and `sigTime`. -/
  hashPing : CTxIn → Int → Uint256

def decimal (number : Int) : Bytes :=
  (toString number).toList.map fun digit => UInt8.ofNat digit.toNat

def verifyMessage (signer : Signer) (pubkey : CPubKey) (vchSig strMessage : Bytes) : Bool :=
  match signer.recoverCompact (signer.hashMessage strMessage) vchSig with
  | none => false
  | some pubkey2 => signer.getID pubkey2 == signer.getID pubkey

namespace CMasternodeBroadcast

def getHash (signer : Signer) (mnb : CMasternodeBroadcast) : Uint256 :=
  signer.hashBroadcast mnb.sigTime mnb.pubKeyCollateralAddress

def getOldStrMessage (signer : Signer) (mnb : CMasternodeBroadcast) : Bytes :=
  signer.serviceToString mnb.addr ++ decimal mnb.sigTime ++ mnb.pubKeyCollateralAddress ++
    mnb.pubKeyMasternode ++ decimal mnb.protocolVersion

def getNewStrMessage (signer : Signer) (mnb : CMasternodeBroadcast) : Bytes :=
  signer.serviceToString mnb.addr ++ decimal mnb.sigTime ++
    signer.keyIDToString (signer.getID mnb.pubKeyCollateralAddress) ++
    signer.keyIDToString (signer.getID mnb.pubKeyMasternode) ++ decimal mnb.protocolVersion

/-- `VerifySignature`: either form of the message is signed by the collateral key. -/
def verifySignature (signer : Signer) (mnb : CMasternodeBroadcast) : Bool :=
  verifyMessage signer mnb.pubKeyCollateralAddress mnb.sig (mnb.getNewStrMessage signer) ||
    verifyMessage signer mnb.pubKeyCollateralAddress mnb.sig (mnb.getOldStrMessage signer)

end CMasternodeBroadcast

def CMasternodePing.verifySignature (signer : Signer) (ping : CMasternodePing)
    (pubKeyMasternode : CPubKey) : Bool :=
  verifyMessage signer pubKeyMasternode ping.vchSig
    (signer.txInToString ping.vin ++ signer.hashToString ping.blockHash ++ decimal ping.sigTime)

/-- Where `cs_main` is tried for while a message is handled. -/
inductive LockSite
  | ping
  | update
  | inputs
  | list (vin : CTxIn)
deriving DecidableEq, Repr

/-- What the masternode code reads of the node while it handles one message. -/
structure Environment where
  node : NodeState
  here : LocalState
  fLiteMode : Bool
  /-- `masternodeSync.IsBlockchainSynced()`. -/
  isBlockchainSynced : Bool
  fMasterNode : Bool
  /-- `activeMasternode.vin` and `activeMasternode.pubKeyMasternode`. -/
  activeVin : CTxIn
  activePubKeyMasternode : CPubKey
  getMinMasternodePaymentsProto : Int
  mPillarCollaterals : COutPoint → Bool
  vPillarCollaterals : List COutPoint
  maxPillarsAllowed : Nat
  /-- `obfuScationPool.collateralPubKey`. -/
  collateralPubKey : CScript
  /-- Whether `TRY_LOCK(cs_main, lockMain)` gets the lock. -/
  lockMain : LockSite → Bool
  /-- Whether the fee or the priority is enough for `-relaypriority`. -/
  relayPriority : CTransaction → CAmount → Bool

def Environment.isPillar (env : Environment) (utxo : COutPoint) : Bool := env.mPillarCollaterals utxo

/-- `CanBePillar`: the collaterals in the queue come after the allowed ones. -/
def Environment.canBePillar (env : Environment) (utxo : COutPoint) : Bool :=
  if env.mPillarCollaterals utxo then
    match env.vPillarCollaterals.findIdx? fun pillar => pillar == utxo with
    | none => true
    | some i => decide (i + 1 ≤ env.maxPillarsAllowed)
  else true

def acceptableInputs (services : Services) (env : Environment) (tx : CTransaction) :
    Validated Unit := do
  let node := env.node
  let pool := node.mempool
  let view := pool.viewMemPool node.pcoinsTip
  let chainHeight := node.chainActive.nHeight
  checkTransaction services env.here node tx
    (decide (services.params.nZerocoinStartHeight ≤ chainHeight)) false
  require (!tx.isCoinBase) (dos 100 "coinbase")
  require (!pool.contains tx.hash) refuse
  require (tx.vin.all fun txin =>
    match env.here.mapLockedInputs txin.prevout with
    | none => true
    | some locked => locked == tx.hash) (dos 0 "tx-lock-conflict")
  onlyIf (!tx.hasZerocoinSpendInputs)
    (require (tx.vin.all fun txin => (pool.mapNextTx txin.prevout).isNone) refuse)
  require (!view.haveCoins tx.hash) refuse
  tx.vin.forM fun txin => do
    require (view.haveCoins txin.prevout.hash) refuse
    require (validOutPoint services txin.prevout chainHeight) (dos 0 "bad-txns-invalid-inputs")
  require (view.haveInputs tx) (dos 0 "bad-txns-inputs-spent")
  let nValueIn ← ofOption (getValueIn view tx) (.error .assertion)
  require (services.getLegacySigOpCount tx + services.getP2SHSigOpCount tx view ≤
    maxTxSigOpsCurrent) (dos 0 "bad-txns-too-many-sigops")
  let nValueOut ← ofOption tx.getValueOut (.error (.fault .exception))
  require (env.relayPriority tx (nValueIn - nValueOut)) (dos 0 "insufficient priority")
  -- `CheckInputs` passes a transaction with zerocoin inputs at once
  onlyIf (!tx.hasZerocoinSpendInputs) do
    let height ← nSpendHeight node view
    let _ ← checkInputs services tx view height false standardScriptVerifyFlags false
    .ok ()

/-- The transaction that is made up to see whether an output can be spent. -/
def probeTransaction (services : Services) (env : Environment) (vin : CTxIn) : CTransaction :=
  let vout :=
    { nValue := if env.isPillar vin.prevout then pillarProbe else masternodeProbe
      scriptPubKey := env.collateralPubKey }
  { hash := services.lib.getHash 1 [vin] [vout] 0
    nVersion := 1
    vin := [vin]
    vout := [vout]
    nLockTime := 0 }

def getInputAge (node : NodeState) (vin : CTxIn) : Int :=
  match (node.mempool.viewMemPool node.pcoinsTip).accessCoins vin.prevout.hash with
  | none => -1
  | some coins => if coins.nHeight < 0 then 0 else node.chainActive.nHeight + 1 - coins.nHeight

namespace CMasternode

def isEnabled (mn : CMasternode) : Bool := mn.activeState = .enabled

def isBroadcastedWithin (env : Environment) (mn : CMasternode) (seconds : Int) : Bool :=
  env.here.getAdjustedTime - mn.sigTime < seconds

/-- `IsPingedWithin`; a `now` of -1 stands for the adjusted time. -/
def isPingedWithin (env : Environment) (mn : CMasternode) (seconds now : Int) : Bool :=
  if mn.lastPing.same .empty then false
  else decide ((if now = -1 then env.here.getAdjustedTime else now) - mn.lastPing.sigTime < seconds)

def check (services : Services) (env : Environment) (site : LockSite) (forceCheck : Bool)
    (mn : CMasternode) : CMasternode :=
  if env.here.shutdownRequested then mn
  else if !forceCheck && decide (env.here.getTime - mn.lastTimeChecked < masternodeCheckSeconds)
  then mn
  else
    let checked := { mn with lastTimeChecked := env.here.getTime }
    if checked.activeState = .vinSpent then checked
    else if !checked.isPingedWithin env masternodeRemovalSeconds (-1) then
      { checked with activeState := .remove }
    else if !checked.isPingedWithin env masternodeExpirationSeconds (-1) then
      { checked with activeState := .expired }
    else if checked.lastPing.sigTime - checked.sigTime < masternodeMinMnpSeconds then
      { checked with activeState := .preEnabled }
    else if !env.lockMain site then checked
    else match acceptableInputs services env (probeTransaction services env checked.vin) with
      | .ok () => { checked with activeState := .enabled }
      | .error _ => { checked with activeState := .vinSpent }

variable (services : Services) (env : Environment) (site : LockSite) (forceCheck : Bool)
  (mn : CMasternode)

theorem check_toCMasternodeBroadcast :
    (mn.check services env site forceCheck).toCMasternodeBroadcast = mn.toCMasternodeBroadcast := by
  unfold check
  dsimp only
  repeat' split
  all_goals rfl

theorem check_isPillar :
    (mn.check services env site forceCheck).isPillar = mn.isPillar := by
  unfold check
  dsimp only
  repeat' split
  all_goals rfl

end CMasternode

end ZenonCore.Masternode
