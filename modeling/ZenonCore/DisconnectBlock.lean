import ZenonCore.ConnectBlock

/-!
# Disconnecting a block

`DisconnectBlock` goes from the last transaction to the first, and erases the zerocoin records
of each before its coins are undone.
-/

namespace ZenonCore.DisconnectBlock

open Primitives ChainParams Coins Chain
open Validation Zerocoin Chainstate

inductive Erasure
  | spend (bnSerial : Int)
  | mint (bnPubcoin : Int)
deriving DecidableEq, Repr

def eraseRecord (db : CZerocoinDB) : Erasure → CZerocoinDB
  | .spend bnSerial => db.eraseCoinSpend bnSerial
  | .mint bnPubcoin => db.eraseCoinMint bnPubcoin

def eraseRecords (db : CZerocoinDB) (erased : List Erasure) : CZerocoinDB :=
  erased.foldl eraseRecord db

/-- The state of the loop: the view, what has been erased so far in order, and
whether the undo data fitted. -/
structure Disconnecting where
  view : CCoinsView
  erased : List Erasure
  fClean : Bool

/-- An input whose spend is erased. Unlike everywhere else the private spends
are told by their script alone. -/
def erasesSpend (txin : CTxIn) : Bool :=
  Script.isZerocoinSpend txin.scriptSig || txin.isZerocoinPublicSpend

def asRefusal {α : Type} (result : Validated α) : Validated α :=
  match result with
  | .error (.rejected _) => refuse
  | other => other

def eraseSpends (services : Services) (node : NodeState) (tx : CTransaction) :
    List CTxIn → Disconnecting → Disconnecting × Validated Unit
  | [], acc => (acc, .ok ())
  | txin :: rest, acc =>
    if erasesSpend txin then
      match asRefusal (readSpend services node tx txin) with
      | .error failure => (acc, .error failure)
      | .ok spend => eraseSpends services node tx rest
          { acc with erased := acc.erased ++ [.spend spend.coinSpend.coinSerialNumber] }
    else eraseSpends services node tx rest acc

def eraseMints : List CTxOut → Disconnecting → Disconnecting × Validated Unit
  | [], acc => (acc, .ok ())
  | txout :: rest, acc =>
    if txout.isZerocoinMint then
      match readMint txout with
      | .error failure => (acc, .error failure)
      | .ok pubCoin => eraseMints rest { acc with erased := acc.erased ++ [.mint pubCoin.value] }
    else eraseMints rest acc

/-- The removal of a transaction's outputs, which have to be those of the
block. -/
def undoOutputs (tx : CTransaction) (nHeight : Int) (acc : Disconnecting) : Disconnecting :=
  let outsBlock := CCoins.fromTx tx nHeight
  let outs := (acc.view.modifiable tx.hash).clearUnspendable
  let outs := if outsBlock.nVersion < 0 then { outs with nVersion := outsBlock.nVersion } else outs
  { acc with
    view := acc.view.update tx.hash CCoins.clear
    fClean := acc.fClean && outs.same outsBlock }

/-- The entry of a transaction once its output is restored. The flag of a coinstake is not. -/
def restoredCoins (coins : CCoins) (out : COutPoint) (undo : CTxInUndo) : CCoins :=
  let base :=
    if undo.nHeight ≠ 0 then
      { CCoins.clear with
        fCoinBase := undo.fCoinBase
        nHeight := undo.nHeight
        nVersion := undo.nVersion }
    else coins
  let vout := base.vout ++ List.replicate (out.n.toNat + 1 - base.vout.length) CTxOut.null
  { base with vout := vout.set out.n.toNat undo.txout }

/-- What is wrong with the entry that an output is restored to. -/
def restoresCleanly (coins : CCoins) (out : COutPoint) (undo : CTxInUndo) : Bool :=
  if undo.nHeight ≠ 0 then coins.isPruned
  else !coins.isPruned && !coins.isAvailable out.n.toNat

def restoreInput (acc : Disconnecting) (spent : CTxIn × CTxInUndo) : Disconnecting :=
  let out := spent.1.prevout
  let coins := acc.view.modifiable out.hash
  { acc with
    view := acc.view.update out.hash (restoredCoins coins out spent.2)
    fClean := acc.fClean && restoresCleanly coins out spent.2 }

def restoreInputs (tx : CTransaction) (vprevout : List CTxInUndo) (acc : Disconnecting) :
    Disconnecting :=
  (tx.vin.zip vprevout).reverse.foldl restoreInput acc

def disconnectTransaction (services : Services) (node : NodeState) (nHeight : Int)
    (vtxundo : List (List CTxInUndo)) (i : Nat) (tx : CTransaction) (acc : Disconnecting) :
    Disconnecting × Validated Unit :=
  match (if tx.hasZerocoinSpendInputs then eraseSpends services node tx tx.vin acc
    else (acc, .ok ())) with
  | (acc, .error failure) => (acc, .error failure)
  | (acc, .ok ()) =>
    match (if tx.hasZerocoinMintOutputs then eraseMints tx.vout acc else (acc, .ok ())) with
    | (acc, .error failure) => (acc, .error failure)
    | (acc, .ok ()) =>
      let acc := undoOutputs tx nHeight acc
      if !tx.isCoinBase && !tx.hasZerocoinSpendInputs then
        let vprevout := vtxundo.getD (i - 1) []
        if vprevout.length ≠ tx.vin.length then (acc, refuse)
        else (restoreInputs tx vprevout acc, .ok ())
      else (acc, .ok ())

def disconnectTransactions (services : Services) (node : NodeState) (nHeight : Int)
    (vtxundo : List (List CTxInUndo)) :
    List (CTransaction × Nat) → Disconnecting → Disconnecting × Validated Unit
  | [], acc => (acc, .ok ())
  | (tx, i) :: rest, acc =>
    match disconnectTransaction services node nHeight vtxundo i tx acc with
    | (next, .ok ()) => disconnectTransactions services node nHeight vtxundo rest next
    | stopped => stopped

/-- `ParseChecksum`, by the position of the denomination in the list. -/
def parseChecksum (nChecksum : Uint256) (pos : Nat) : UInt32 :=
  UInt32.ofNat (nChecksum >>> (32 * (7 - pos))).toNat

def eraseAccumulatorValues (db : CZerocoinDB) (nCheckpointErase nCheckpointPrevious : Uint256) :
    CZerocoinDB :=
  (List.range 8).foldl (fun db pos =>
    if parseChecksum nCheckpointErase pos = parseChecksum nCheckpointPrevious pos then db
    else db.eraseAccumulatorValue (parseChecksum nCheckpointErase pos)) db

def undoData (node : NodeState) (block : CBlock) (view : CCoinsView) :
    Validated (List (List CTxInUndo)) := do
  require (block.hash == view.hashBlock) (.error .assertion)
  let vtxundo ← ofOption (node.blockUndo block.hash) refuse
  require (vtxundo.length + 1 == block.vtx.length) refuse
  .ok vtxundo

/-- `DisconnectBlock`: the zerocoin database it leaves in any case, and the view with `fClean`. -/
def disconnectBlock (services : Services) (node : NodeState) (block : CBlock)
    (pprev : CBlockIndex) (view : CCoinsView) : CZerocoinDB × Validated (CCoinsView × Bool) :=
  match undoData node block view with
  | .error failure => (node.zerocoinDB, .error failure)
  | .ok vtxundo =>
    let (acc, result) := disconnectTransactions services node (pprev.nHeight + 1) vtxundo
      block.vtx.zipIdx.reverse { view := view, erased := [], fClean := true }
    let erasedDB := eraseRecords node.zerocoinDB acc.erased
    match result with
    | .error failure => (erasedDB, .error failure)
    | .ok () =>
      let nCheckpoint := CBlockIndex.nAccumulatorCheckpoint (block :: pprev)
      let db :=
        if !node.fVerifyingBlocks && nCheckpoint != pprev.nAccumulatorCheckpoint then
          eraseAccumulatorValues erasedDB nCheckpoint pprev.nAccumulatorCheckpoint
        else erasedDB
      (db, .ok (acc.view.setBestBlock pprev.getBlockHash, acc.fClean))

end ZenonCore.DisconnectBlock
