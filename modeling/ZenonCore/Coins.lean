import Mathlib.Data.List.DropRight
import ZenonCore.ChainParams

/-!
# Unspent outputs

`CCoins` and the view of the unspent outputs, which can hold pruned entries and lose them.
-/

namespace ZenonCore.Coins

open Script Primitives ChainParams

structure CTxInUndo where
  txout : CTxOut
  fCoinBase : Bool
  fCoinStake : Bool
  nHeight : Int
  nVersion : Int
deriving DecidableEq, Repr

structure CCoins where
  fCoinBase : Bool
  fCoinStake : Bool
  vout : List CTxOut
  nHeight : Int
  nVersion : Int
deriving DecidableEq, Repr

def isUnspendable (script : CScript) : Bool := startsWithOpcode script opReturn

namespace CCoins

def clear : CCoins :=
  { fCoinBase := false, fCoinStake := false, vout := [], nHeight := 0, nVersion := 0 }

def cleanup (coins : CCoins) : CCoins :=
  { coins with vout := coins.vout.rdropWhile CTxOut.isNull }

def clearUnspendable (coins : CCoins) : CCoins :=
  cleanup
    { coins with
      vout := coins.vout.map fun txout =>
        if isUnspendable txout.scriptPubKey then CTxOut.null else txout }

def fromTx (tx : CTransaction) (nHeight : Int) : CCoins :=
  clearUnspendable
    { fCoinBase := tx.isCoinBase
      fCoinStake := tx.isCoinStake
      vout := tx.vout
      nHeight := nHeight
      nVersion := tx.nVersion }

def isPruned (coins : CCoins) : Bool := coins.vout.all CTxOut.isNull

def isAvailable (coins : CCoins) (nPos : Nat) : Bool :=
  match coins.vout[nPos]? with
  | none => false
  | some txout => !txout.isNull && !txout.isZerocoinMint

def isGenerated (coins : CCoins) : Bool := coins.fCoinBase || coins.fCoinStake

/-- `Spend`; the undo data carry the rest of the entry with its last output. -/
def spend (coins : CCoins) (out : COutPoint) : Option (CCoins × CTxInUndo) :=
  match coins.vout[out.n.toNat]? with
  | none => none
  | some txout =>
    if txout.isNull then none
    else
      let spent := cleanup { coins with vout := coins.vout.set out.n.toNat CTxOut.null }
      some (spent,
        if spent.vout.isEmpty then
          { txout := txout
            fCoinBase := coins.fCoinBase
            fCoinStake := coins.fCoinStake
            nHeight := coins.nHeight
            nVersion := coins.nVersion }
        else
          { txout := txout, fCoinBase := false, fCoinStake := false, nHeight := 0, nVersion := 0 })

def same (first second : CCoins) : Bool :=
  first.isPruned && second.isPruned || first == second

end CCoins

def live (entry : Option CCoins) : Option CCoins := entry.filter fun coins => !coins.isPruned

/-- A `CCoinsViewCache` over its base: the entries it finds, and the block
whose state it represents. -/
structure CCoinsView where
  coins : Uint256 → Option CCoins
  hashBlock : Uint256

namespace CCoinsView

def accessCoins (view : CCoinsView) (txid : Uint256) : Option CCoins := view.coins txid

def haveCoins (view : CCoinsView) (txid : Uint256) : Bool :=
  match view.coins txid with
  | none => false
  | some coins => !coins.vout.isEmpty

def modifiable (view : CCoinsView) (txid : Uint256) : CCoins :=
  (view.coins txid).getD CCoins.clear

def update (view : CCoinsView) (txid : Uint256) (coins : CCoins) : CCoinsView :=
  { view with
    coins := fun other => if other = txid then some coins.cleanup else view.coins other }

def setBestBlock (view : CCoinsView) (hashBlock : Uint256) : CCoinsView :=
  { view with hashBlock := hashBlock }

/-- Flushing keeps or drops a pruned entry; `kept` says which. -/
def flush (view : CCoinsView) (kept : Uint256 → Bool) : CCoinsView :=
  { view with
    coins := fun txid =>
      match view.coins txid with
      | none => none
      | some coins => if coins.isPruned && !kept txid then none else some coins }

def getOutputFor (view : CCoinsView) (prevout : COutPoint) : Option CTxOut :=
  match view.coins prevout.hash with
  | none => none
  | some coins => if coins.isAvailable prevout.n.toNat then coins.vout[prevout.n.toNat]? else none

def hasOutput (view : CCoinsView) (prevout : COutPoint) : Bool :=
  match view.coins prevout.hash with
  | none => false
  | some coins => coins.isAvailable prevout.n.toNat

def haveInputs (view : CCoinsView) (tx : CTransaction) : Bool :=
  if !tx.isCoinBase && !tx.hasZerocoinSpendInputs then
    tx.vin.all fun txin => view.hasOutput txin.prevout
  else true

end CCoinsView

/-- `GetZerocoinSpent`, which counts the private spends only. -/
def getZerocoinSpent (tx : CTransaction) : CAmount :=
  (tx.vin.map fun txin => if txin.isZerocoinSpend then txin.nSequence.toNat * coin else 0).sum

/-- `GetValueIn`; `none` where `GetOutputFor` fails its assertion. -/
def getValueIn (view : CCoinsView) (tx : CTransaction) : Option CAmount :=
  if tx.isCoinBase then some 0
  else if tx.hasZerocoinSpendInputs then some (getZerocoinSpent tx)
  else tx.vin.foldlM (fun nResult txin =>
    (view.getOutputFor txin.prevout).map fun txout => nResult + txout.nValue) 0

/-- The inputs of `UpdateCoins`, spent one after the other; `none` where its
assertion fails. -/
def spendInputs (view : CCoinsView) : List CTxIn → Option (CCoinsView × List CTxInUndo)
  | [] => some (view, [])
  | txin :: rest => do
      let (spent, undo) ← (view.modifiable txin.prevout.hash).spend txin.prevout
      let (last, undone) ← spendInputs (view.update txin.prevout.hash spent) rest
      some (last, undo :: undone)

def addOutputs (view : CCoinsView) (tx : CTransaction) (nHeight : Int) : CCoinsView :=
  view.update tx.hash (CCoins.fromTx tx nHeight)

def updateCoins (tx : CTransaction) (view : CCoinsView) (nHeight : Int) :
    Option (CCoinsView × List CTxInUndo) :=
  if !tx.isCoinBase && !tx.hasZerocoinSpendInputs then do
    let (spent, vprevout) ← spendInputs view tx.vin
    some (addOutputs spent tx nHeight, vprevout)
  else some (addOutputs view tx nHeight, [])

theorem cleanup_idem (coins : CCoins) : coins.cleanup.cleanup = coins.cleanup := by
  simp only [CCoins.cleanup, List.rdropWhile_idempotent]

theorem cleanup_eq_nil {coins : CCoins} (pruned : coins.isPruned = true) :
    coins.cleanup.vout = [] := by
  apply List.rdropWhile_eq_nil_iff.mpr
  exact List.all_eq_true.mp pruned

theorem cleanup_isPruned (coins : CCoins) : coins.cleanup.isPruned = coins.isPruned := by
  cases pruned : coins.isPruned with
  | true =>
    unfold CCoins.isPruned
    rw [cleanup_eq_nil pruned]
    rfl
  | false =>
    rw [← Bool.not_eq_true] at pruned ⊢
    intro cleaned
    apply pruned
    have empty := cleanup_eq_nil cleaned
    rw [cleanup_idem] at empty
    exact List.all_eq_true.mpr (List.rdropWhile_eq_nil_iff.mp empty)

theorem isPruned_of_clean {coins : CCoins} (clean : coins.cleanup = coins) :
    coins.isPruned = coins.vout.isEmpty := by
  rw [Bool.eq_iff_iff, List.isEmpty_iff]
  constructor
  · intro pruned
    rw [← clean]
    exact cleanup_eq_nil pruned
  · intro empty
    rw [CCoins.isPruned, empty]
    rfl

theorem live_eq_some (entry : Option CCoins) (coins : CCoins) :
    live entry = some coins ↔ entry = some coins ∧ coins.isPruned = false := by
  rw [live, Option.filter_eq_some_iff, Bool.not_eq_true']

theorem live_eq_none (entry : Option CCoins) :
    live entry = none ↔ (entry.getD CCoins.clear).isPruned = true := by
  cases entry with
  | none => exact ⟨fun _ => rfl, fun _ => rfl⟩
  | some coins =>
    rw [live, Option.filter_eq_none_iff]
    simp

theorem live_of_pruned {coins : CCoins} (pruned : coins.isPruned = true) :
    live (some coins) = none := (live_eq_none (some coins)).mpr pruned

theorem live_of_unspent {coins : CCoins} (unspent : coins.isPruned = false) :
    live (some coins) = some coins := (live_eq_some _ coins).mpr ⟨rfl, unspent⟩

end ZenonCore.Coins
