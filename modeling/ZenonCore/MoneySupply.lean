import ZenonCore.AcceptBlock
import ZenonCore.Library.Effects

/-!
# The supply of money and of zerocoins

What an entry holds of the supply, its update by `ConnectBlock` and the recalculations. A
computation that fails leaves what it has written.
-/

namespace ZenonCore.MoneySupply

open Primitives ChainParams Coins Chain
open Validation Zerocoin Chainstate ConnectBlock
open DisconnectBlock StakeInput AcceptBlock Effects

section Parameters

variable (params : CChainParams)

def nBlockRecalculateAccumulators : Int :=
  match params.networkID with
  | .main => 2147483000
  | .testnet => 9908000
  | .regtest => 9908000

def nBlockLastGoodCheckpoint : Int :=
  match params.networkID with
  | .main => 2147483000
  | .testnet => 9891730
  | .regtest => 9891730

def nInvalidAmountFiltered : CAmount := 777990000000

/-- `GetSupplyBeforeFakeSerial`, which no constructor of the source sets. -/
def nSupplyBeforeFakeSerial : CAmount := 0

def getWrapppedSerialInflation (denom : CoinDenomination) : Int :=
  if params.networkID = .main then
    match denom with
    | .zqError => 0
    | .zqOne => 7
    | .zqFive => 6
    | .zqTen => 36
    | .zqFifty => 22
    | .zqOneHundred => 244
    | .zqFiveHundred => 22
    | .zqOneThousand => 42
    | .zqFiveThousand => 98
  else 0

def getWrapppedSerialInflationAmount : CAmount :=
  (zerocoinDenomList.map fun denom =>
    getWrapppedSerialInflation params denom * zerocoinDenominationToAmount denom).sum

end Parameters

structure SupplyServices extends AcceptServices where
  /-- `invalid_out::ContainsSerial`. -/
  containsSerial : Int → Bool
  setInvalidOutPoints : List COutPoint

/-- What an entry of the block index holds of the supply. The map has a key for
each denomination of the list. -/
structure SupplyEntry where
  mapZerocoinSupply : CoinDenomination → Int
  vMintDenominationsInBlock : List CoinDenomination
  nMoneySupply : CAmount
  nMint : CAmount

namespace SupplyEntry

def null : SupplyEntry :=
  { mapZerocoinSupply := fun _ => 0
    vMintDenominationsInBlock := []
    nMoneySupply := 0
    nMint := 0 }

def getZcMints (entry : SupplyEntry) (denom : CoinDenomination) : Int :=
  entry.mapZerocoinSupply denom

def getZcMintsAmount (entry : SupplyEntry) (denom : CoinDenomination) : CAmount :=
  zerocoinDenominationToAmount denom * entry.getZcMints denom

def getZerocoinSupply (entry : SupplyEntry) : CAmount :=
  (zerocoinDenomList.map entry.getZcMintsAmount).sum

def add (entry : SupplyEntry) (amount : CoinDenomination → Int) (denom : CoinDenomination) :
    SupplyEntry :=
  { entry with
    mapZerocoinSupply := fun other =>
      entry.mapZerocoinSupply other + if other = denom then amount denom else 0 }

end SupplyEntry

section Lists

variable (services : SupplyServices)

def intMax : Int := 2147483647

/-- The mints among the outputs of a transaction from output `i` on, and
whether all of them could be read. -/
def mintsOfOutputs (fFilterInvalid : Bool) (tx : CTransaction) :
    Nat → List CTxOut → Except Script.Fault (List PublicCoin × Bool)
  | _, [] => .ok ([], true)
  | i, txOut :: rest =>
    if fFilterInvalid && !validOutPoint services.toServices (tx.outPoint i) intMax then
      .ok ([], true)
    else if !txOut.isZerocoinMint then mintsOfOutputs fFilterInvalid tx (i + 1) rest
    else do
      match ← txOutToPublicCoin txOut with
      | none => .ok ([], false)
      | some pubCoin =>
        let (vMints, complete) ← mintsOfOutputs fFilterInvalid tx (i + 1) rest
        .ok (pubCoin :: vMints, complete)

def passesOverMints (fFilterInvalid : Bool) (tx : CTransaction) : Bool :=
  !tx.hasZerocoinMintOutputs ||
    fFilterInvalid && !(tx.vin.all fun txin =>
      validOutPoint services.toServices txin.prevout intMax)

/-- `BlockToZerocoinMintList`, whose callers do not ask whether it came to the
end of the block. -/
def blockToZerocoinMintList (fFilterInvalid : Bool) :
    List CTransaction → Except Script.Fault (List PublicCoin)
  | [] => .ok []
  | tx :: rest =>
    if passesOverMints services fFilterInvalid tx then
      blockToZerocoinMintList fFilterInvalid rest
    else do
      let (vMints, complete) ← mintsOfOutputs services fFilterInvalid tx 0 tx.vout
      if complete then do
        let more ← blockToZerocoinMintList fFilterInvalid rest
        .ok (vMints ++ more)
      else .ok vMints

/-- One input of `ZerocoinSpendListFromBlock`. The denomination is the one the
input claims. -/
def spentDenomination (fFilterInvalid : Bool) (txin : CTxIn) :
    Except Script.Fault (List CoinDenomination) :=
  if !txin.spendsZerocoin then .ok []
  else do
    let invalid ← (
      if fFilterInvalid && !txin.isZerocoinPublicSpend then do
        let spend ← txInToZerocoinSpend services.lib txin
        .ok (services.containsSerial spend.coinSerialNumber)
      else .ok false)
    if invalid then .ok [] else .ok [intToZerocoinDenomination txin.nSequence.toNat]

def zerocoinSpendListFromBlock (block : CBlock) (fFilterInvalid : Bool) :
    Except Script.Fault (List CoinDenomination) := do
  let spent ← ((block.vtx.filter CTransaction.hasZerocoinSpendInputs).flatMap
    CTransaction.vin).mapM (spentDenomination services fFilterInvalid)
  .ok spent.flatten

/-- The mints and the spends of a block by their denominations. -/
def denominationLists (block : CBlock) (fFilterInvalid : Bool) :
    Except Script.Fault (List CoinDenomination × List CoinDenomination) := do
  let listMints ← blockToZerocoinMintList services fFilterInvalid block.vtx
  let listSpends ← zerocoinSpendListFromBlock services block fFilterInvalid
  .ok (listMints.map PublicCoin.denomination, listSpends)

end Lists

section Update

variable (services : SupplyServices)

/-- The version of the header behind an entry; a null pointer has none. -/
def headerVersion : CBlockIndex → Int
  | [] => 0
  | block :: _ => block.nVersion

/-- The supply an update starts with: the parent's, behind a header of a
version above three. -/
def initialSupply (pprev : CBlockIndex) (parent own : SupplyEntry) : SupplyEntry :=
  if 3 < headerVersion pprev then
    { own with
      mapZerocoinSupply := fun denom =>
        if denom ∈ zerocoinDenomList then parent.getZcMints denom
        else own.mapZerocoinSupply denom }
  else own

def addMint (entry : SupplyEntry) (denom : CoinDenomination) : SupplyEntry :=
  { entry.add (fun _ => 1) denom with
    vMintDenominationsInBlock := entry.vMintDenominationsInBlock ++ [denom] }

/-- The spends of a block. A wrong denomination is out of the map's range, and more spends than
coins end the update. -/
def removeSpends : SupplyEntry → List CoinDenomination → SupplyEntry × Except Script.Fault Bool
  | entry, [] => (entry, .ok true)
  | entry, denom :: rest =>
    if denom = .zqError then (entry, .error .exception)
    else
      let spent := entry.add (fun _ => -1) denom
      if spent.getZcMints denom < 0 then (spent, .ok false) else removeSpends spent rest

/-- The one-time correction of the supply on the main network. -/
def addWrappedInflation (nHeight : Int) (entry : SupplyEntry) : SupplyEntry :=
  if services.params.networkID = .main ∧
      nHeight = services.params.nFakeSerialBlockheightEnd + 1 ∧
      entry.getZerocoinSupply <
        nSupplyBeforeFakeSerial + getWrapppedSerialInflationAmount services.params then
    zerocoinDenomList.foldl
      (fun entry denom => entry.add (getWrapppedSerialInflation services.params) denom) entry
  else entry

/-- `UpdateZZNNSupply` from the supplies of the parent and of the entry, without the wallet. -/
def updateZZNNSupply (block : CBlock) (pprev : CBlockIndex) (parent own : SupplyEntry) :
    SupplyEntry × Except Script.Fault Bool :=
  let nHeight := pprev.nHeight + 1
  match denominationLists services block
      (decide (nBlockRecalculateAccumulators services.params ≤ nHeight)) with
  | .error fault => (own, .error fault)
  | .ok (listMints, listSpends) =>
    let cleared := { initialSupply pprev parent own with vMintDenominationsInBlock := [] }
    if pprev.isEmpty then (addWrappedInflation services nHeight cleared, .ok true)
    else
      match removeSpends (listMints.foldl addMint cleared) listSpends with
      | (spent, .ok true) => (addWrappedInflation services nHeight spent, .ok true)
      | stopped => stopped

end Update

/-- The node with the supply of each entry, in memory and on disk, and the
blocks it has noted as rejected. -/
@[ext]
structure IndexedState where
  node : NodeState
  supply : CBlockIndex → SupplyEntry
  /-- `pblocktree`, by the supply in its records. -/
  blockTree : CBlockIndex → Option SupplyEntry
  mapRejectedBlocks : Uint256 → Option Int

abbrev Tracked := Effect IndexedState Failure

namespace IndexedState

def setSupply (state : IndexedState) (pindex : CBlockIndex) (entry : SupplyEntry) :
    IndexedState :=
  { state with supply := fun other => if other = pindex then entry else state.supply other }

/-- `WriteBlockIndex`. The record of a header of a version up to three holds no
supply of zerocoins. -/
def writeBlockIndex (state : IndexedState) (pindex : CBlockIndex) : IndexedState :=
  { state with
    blockTree := fun other =>
      if other = pindex then
        some (if 3 < headerVersion pindex then state.supply pindex
          else
            { SupplyEntry.null with
              nMoneySupply := (state.supply pindex).nMoneySupply
              nMint := (state.supply pindex).nMint })
      else state.blockTree other }

end IndexedState

section Recalculations

variable (services : SupplyServices)

/-- The entries of the active chain from a height on, the lowest first. -/
def activeFrom (chain : CBlockIndex) (nHeight : Int) : List CBlockIndex :=
  (chain.tails.filter fun pindex =>
    !pindex.isEmpty && decide (nHeight ≤ CBlockIndex.nHeight pindex)).reverse

/-- A loop over the active chain from a height on; there has to be an entry at
that height. -/
def forActiveFrom (nHeight : Int) (body : CBlockIndex → Tracked Unit) : Tracked Unit :=
  inspect fun state => do
    check (require (!(state.node.chainActive.atHeight nHeight).isEmpty) (.error .assertion))
    forM (activeFrom state.node.chainActive nHeight) body

def readBlock : CBlockIndex → Validated CBlock
  | [] => .error .assertion
  | block :: _ => .ok block

def recalculateMinted (pindex : CBlockIndex) : Tracked Unit := do
  let block ← check (readBlock pindex)
  let listMints ← check (ofFault (blockToZerocoinMintList services true block.vtx))
  write fun state => state.setSupply pindex
    { state.supply pindex with
      vMintDenominationsInBlock := listMints.map PublicCoin.denomination }

def recalculateZZNNMinted : Tracked Unit :=
  forActiveFrom services.params.nZerocoinStartHeight (recalculateMinted services)

/-- The spends of a block, of which each has to be in the map. -/
def removeAllSpends : SupplyEntry → List CoinDenomination → SupplyEntry × Except Script.Fault Unit
  | entry, [] => (entry, .ok ())
  | entry, denom :: rest =>
    if denom = .zqError then (entry, .error .exception)
    else removeAllSpends (entry.add (fun _ => -1) denom) rest

/-- The supply `RecalculateZZNNSpent` gives an entry, from its parent's. -/
def recalculatedSupply (nHeight : Int) (parent own : SupplyEntry)
    (listDenomsSpent : List CoinDenomination) : SupplyEntry × Except Script.Fault Unit :=
  let restarted := { own with mapZerocoinSupply := parent.mapZerocoinSupply }
  let minted := zerocoinDenomList.foldl (fun entry denom =>
    entry.add (fun denom => (own.vMintDenominationsInBlock.count denom : Int)) denom) restarted
  match removeAllSpends minted listDenomsSpent with
  | (spent, .ok ()) =>
    (if nHeight = services.params.nFakeSerialBlockheightEnd + 1 then
      zerocoinDenomList.foldl
        (fun entry denom => entry.add (getWrapppedSerialInflation services.params) denom) spent
    else spent, .ok ())
  | stopped => stopped

def recalculateSpent (pindex : CBlockIndex) : Tracked Unit := do
  let block ← check (readBlock pindex)
  let listDenomsSpent ← check (ofFault (zerocoinSpendListFromBlock services block true))
  check (require (!pindex.pprev.isEmpty) (.error .assertion))
  inspect fun state => do
    let recalculated := recalculatedSupply services pindex.nHeight (state.supply pindex.pprev)
      (state.supply pindex) listDenomsSpent
    write fun state => state.setSupply pindex recalculated.1
    check (ofFault recalculated.2)
    write fun state => state.writeBlockIndex pindex

def recalculateZZNNSpent : Tracked Unit :=
  forActiveFrom services.params.nZerocoinStartHeight (recalculateSpent services)

/-- The value of an input, by the transaction it spends from. -/
def inputValue (node : NodeState) (txin : CTxIn) : Validated CAmount :=
  if txin.isZerocoinSpend then .ok (txin.nSequence.toNat * coin)
  else do
    let (txPrev, _) ← ofOption (getTransaction node txin.prevout.hash) (.error .assertion)
    let txout ← ofOption txPrev.vout[txin.prevout.n.toNat]? (.error (.fault .outOfRange))
    .ok txout.nValue

def createdValue (node : NodeState) (tx : CTransaction) : Validated CAmount := do
  let valuesIn ← (if tx.isCoinBase then [] else tx.vin).mapM (inputValue node)
  let valuesOut := (if tx.isCoinStake then tx.vout.drop 1 else tx.vout).map CTxOut.nValue
  .ok (valuesOut.sum - valuesIn.sum)

def getInvalidUTXOValue (node : NodeState) : CAmount :=
  (services.setInvalidOutPoints.map fun out =>
    match node.pcoinsTip.accessCoins out.hash with
    | none => 0
    | some coins =>
      if coins.isAvailable out.n.toNat then ((coins.vout[out.n.toNat]?).getD CTxOut.null).nValue
      else 0).sum

/-- The supply of money behind a block as it is recalculated, and the one its
successor is reckoned from. -/
def recalculatedMoney (node : NodeState) (nHeight : Int) (nSupplyPrev created : CAmount) :
    CAmount × CAmount :=
  let nMoneySupply := nSupplyPrev + created
  (if nHeight = nBlockRecalculateAccumulators services.params then
    nMoneySupply + nInvalidAmountFiltered - getInvalidUTXOValue services node
  else nMoneySupply, nMoneySupply)

def recalculateMoneyFrom : List CBlockIndex → CAmount → Tracked Unit
  | [], _ => pure ()
  | pindex :: rest, nSupplyPrev => do
      let block ← check (readBlock pindex)
      inspect fun state => do
        let created ← check (block.vtx.mapM (createdValue state.node))
        let money := recalculatedMoney services state.node pindex.nHeight nSupplyPrev created.sum
        write fun state => (state.setSupply pindex
          { state.supply pindex with nMoneySupply := money.1 }).writeBlockIndex pindex
        recalculateMoneyFrom rest money.2

/-- `RecalculateZNNSupply(Zerocoin_StartHeight)`, which starts from an amount
that is built in. -/
def recalculateZNNSupply : Tracked Unit :=
  inspect fun state =>
    if state.node.chainActive.nHeight < services.params.nZerocoinStartHeight then pure ()
    else do
      check (require (!((state.node.chainActive.atHeight
        services.params.nZerocoinStartHeight).drop 1).isEmpty) (.error .assertion))
      recalculateMoneyFrom services
        (activeFrom state.node.chainActive services.params.nZerocoinStartHeight) 5449796547496199

def recalculateSupply : Tracked Unit := do
  recalculateZZNNMinted services
  recalculateZZNNSpent services
  recalculateZNNSupply services

end Recalculations

end ZenonCore.MoneySupply
