import ZenonCore.Coins

/-!
# The memory pool

`CTxMemPool`: the transactions, the index of the outputs they spend, and the removals a change
of the chain makes.
-/

namespace ZenonCore.Mempool

open Primitives ChainParams Coins List

structure CInPoint where
  ptx : CTransaction
  n : Nat
deriving DecidableEq, Repr

structure CTxMemPool where
  mapTx : List CTransaction
  mapNextTx : COutPoint → Option CInPoint

/-- `MEMPOOL_HEIGHT`, the height of the coins of the pool's transactions. -/
def mempoolHeight : Int := 0x7fffffff

namespace CTxMemPool

def empty : CTxMemPool := { mapTx := [], mapNextTx := fun _ => none }

def lookup (pool : CTxMemPool) (hash : Uint256) : Option CTransaction :=
  pool.mapTx.find? fun tx => tx.hash == hash

def contains (pool : CTxMemPool) (hash : Uint256) : Bool := (pool.lookup hash).isSome

/-- The loop of `addUnchecked` over the inputs from the `n`-th on. -/
def registerInputs (tx : CTransaction) :
    Nat → List CTxIn → (COutPoint → Option CInPoint) → COutPoint → Option CInPoint
  | _, [], mapNextTx => mapNextTx
  | n, txin :: rest, mapNextTx =>
    registerInputs tx (n + 1) rest fun outpoint =>
      if outpoint = txin.prevout then some { ptx := tx, n := n } else mapNextTx outpoint

def addUnchecked (pool : CTxMemPool) (tx : CTransaction) : CTxMemPool :=
  { mapTx := pool.mapTx.filter (fun other => other.hash != tx.hash) ++ [tx]
    mapNextTx :=
      if tx.hasZerocoinSpendInputs then pool.mapNextTx
      else registerInputs tx 0 tx.vin pool.mapNextTx }

def spenders (pool : CTxMemPool) (tx : CTransaction) : List Uint256 :=
  (List.range tx.vout.length).filterMap fun i =>
    (pool.mapNextTx (tx.outPoint i)).map fun it => it.ptx.hash

/-- One transaction leaves the pool, with the index entries of its inputs. -/
def eraseTx (pool : CTxMemPool) (tx : CTransaction) : CTxMemPool :=
  { mapTx := pool.mapTx.filter fun other => other.hash != tx.hash
    mapNextTx := fun outpoint =>
      if tx.vin.any (fun txin => txin.prevout == outpoint) then none
      else pool.mapNextTx outpoint }

def removeLoop (fRecursive : Bool) : Nat → CTxMemPool → List Uint256 → CTxMemPool
  | 0, pool, _ => pool
  | _, pool, [] => pool
  | fuel + 1, pool, hash :: txToRemove =>
    match pool.lookup hash with
    | none => removeLoop fRecursive fuel pool txToRemove
    | some tx =>
      let pushed := if fRecursive then pool.spenders tx else []
      removeLoop fRecursive fuel (pool.eraseTx tx) (txToRemove ++ pushed)

/-- Every round takes one hash from the queue, and puts at most one there for each output of a
transaction that leaves. -/
def removeRounds (pool : CTxMemPool) (txToRemove : List Uint256) : Nat :=
  txToRemove.length + (pool.mapTx.map fun tx => tx.vout.length).sum

def remove (pool : CTxMemPool) (origTx : CTransaction) (fRecursive : Bool) : CTxMemPool :=
  let txToRemove :=
    if fRecursive && !pool.contains origTx.hash then origTx.hash :: pool.spenders origTx
    else [origTx.hash]
  removeLoop fRecursive (pool.removeRounds txToRemove) pool txToRemove

/-- The input of `removeCoinbaseSpends` that makes a transaction leave. The
heights are subtracted as unsigned numbers. -/
def spendsImmature (params : CChainParams) (pool : CTxMemPool) (pcoins : CCoinsView)
    (nMemPoolHeight : Int) (txin : CTxIn) : Bool :=
  if pool.contains txin.prevout.hash then false
  else match pcoins.accessCoins txin.prevout.hash with
    | none => true
    | some coins =>
      coins.isGenerated &&
        decide ((nMemPoolHeight - coins.nHeight) % 2 ^ 32 < params.nMaturity % 2 ^ 32)

def removeCoinbaseSpends (params : CChainParams) (pool : CTxMemPool) (pcoins : CCoinsView)
    (nMemPoolHeight : Int) : CTxMemPool :=
  let transactionsToRemove :=
    pool.mapTx.filter fun tx => tx.vin.any (pool.spendsImmature params pcoins nMemPoolHeight)
  transactionsToRemove.foldl (fun pool tx => pool.remove tx true) pool

/-- The transaction of the pool that spends what an input of `tx` spends
leaves, unless it is `tx`. -/
def removeConflict (tx : CTransaction) (pool : CTxMemPool) (txin : CTxIn) : CTxMemPool :=
  match pool.mapNextTx txin.prevout with
  | none => pool
  | some it => if it.ptx.hash != tx.hash then pool.remove it.ptx true else pool

def removeConflicts (pool : CTxMemPool) (tx : CTransaction) : CTxMemPool :=
  tx.vin.foldl (removeConflict tx) pool

def removeForBlock (pool : CTxMemPool) (vtx : List CTransaction) : CTxMemPool :=
  vtx.foldl (fun pool tx => (pool.remove tx false).removeConflicts tx) pool

/-- `CCoinsViewMemPool` over `pcoinsTip`, as `AcceptToMemoryPool` uses it. -/
def viewMemPool (pool : CTxMemPool) (base : CCoinsView) : CCoinsView :=
  { hashBlock := base.hashBlock
    coins := fun txid =>
      match pool.lookup txid with
      | some tx => some (CCoins.fromTx tx mempoolHeight)
      | none => (base.coins txid).filter fun coins => !coins.isPruned }

variable (pool : CTxMemPool)

theorem lookup_some (hash : Uint256) (tx : CTransaction)
    (found : pool.lookup hash = some tx) : tx ∈ pool.mapTx ∧ tx.hash = hash := by
  have same := find?_some found
  exact ⟨mem_of_find?_eq_some found, by simpa using same⟩

theorem lookup_none (hash : Uint256) :
    pool.lookup hash = none ↔ ∀ tx ∈ pool.mapTx, tx.hash ≠ hash := by
  simp [lookup]

theorem removeLoop_subset (fRecursive : Bool) (fuel : Nat) (pool : CTxMemPool)
    (txToRemove : List Uint256) :
    (removeLoop fRecursive fuel pool txToRemove).mapTx ⊆ pool.mapTx := by
  induction fuel generalizing pool txToRemove with
  | zero => exact List.Subset.refl _
  | succ fuel ih =>
    cases txToRemove with
    | nil => exact List.Subset.refl _
    | cons hash txToRemove =>
      simp only [removeLoop]
      cases pool.lookup hash with
      | none => exact ih pool txToRemove
      | some tx => exact List.Subset.trans (ih _ _) (filter_subset_self _)

variable (origTx : CTransaction) (fRecursive : Bool)

theorem remove_subset :
    (pool.remove origTx fRecursive).mapTx ⊆ pool.mapTx :=
  removeLoop_subset fRecursive _ pool _

theorem remove_absent (tx : CTransaction) (member : tx ∈ (pool.remove origTx fRecursive).mapTx) :
    tx.hash ≠ origTx.hash := by
  have first : ∀ fuel rest,
      tx ∈ (removeLoop fRecursive (fuel + 1) pool (origTx.hash :: rest)).mapTx →
      tx.hash ≠ origTx.hash := by
    intro fuel rest
    simp only [removeLoop]
    cases found : pool.lookup origTx.hash with
    | none =>
      intro remains
      exact (lookup_none pool origTx.hash).mp found tx (removeLoop_subset _ _ _ _ remains)
    | some other =>
      intro remains
      have kept := removeLoop_subset _ _ _ _ remains
      rw [← (lookup_some pool _ other found).2]
      simpa using (mem_filter.mp kept).2
  unfold remove removeRounds at member
  dsimp only at member
  split_ifs at member with recursive
  · rw [length_cons, Nat.add_right_comm] at member
    exact first _ _ member
  · rw [length_singleton, Nat.add_comm] at member
    exact first _ _ member

theorem removeConflict_subset (tx : CTransaction) (pool : CTxMemPool) (txin : CTxIn) :
    (removeConflict tx pool txin).mapTx ⊆ pool.mapTx := by
  unfold removeConflict
  split
  · exact List.Subset.refl _
  · split_ifs
    · exact remove_subset pool _ true
    · exact List.Subset.refl _

theorem removeConflicts_subset (tx : CTransaction) :
    (pool.removeConflicts tx).mapTx ⊆ pool.mapTx := by
  unfold removeConflicts
  induction tx.vin generalizing pool with
  | nil => exact List.Subset.refl _
  | cons txin rest ih => exact List.Subset.trans (ih _) (removeConflict_subset tx pool txin)

theorem removeForBlock_subset (vtx : List CTransaction) :
    (pool.removeForBlock vtx).mapTx ⊆ pool.mapTx := by
  unfold removeForBlock
  induction vtx generalizing pool with
  | nil => exact List.Subset.refl _
  | cons tx rest ih =>
    exact List.Subset.trans (ih _)
      (List.Subset.trans (removeConflicts_subset _ tx) (remove_subset pool tx false))

theorem removeForBlock_absent (vtx : List CTransaction) (tx inBlock : CTransaction)
    (member : tx ∈ (pool.removeForBlock vtx).mapTx) (connected : inBlock ∈ vtx) :
    tx.hash ≠ inBlock.hash := by
  unfold removeForBlock at member
  induction vtx generalizing pool with
  | nil => cases connected
  | cons first rest ih =>
    obtain here | later := mem_cons.mp connected
    · have kept := removeForBlock_subset _ rest member
      rw [here]
      exact remove_absent pool first false tx (removeConflicts_subset _ first kept)
    · exact ih _ member later

theorem removeCoinbaseSpends_subset (params : CChainParams) (pool : CTxMemPool)
    (pcoins : CCoinsView) (nMemPoolHeight : Int) :
    (pool.removeCoinbaseSpends params pcoins nMemPoolHeight).mapTx ⊆ pool.mapTx := by
  have loop : ∀ (list : List CTransaction) (pool : CTxMemPool),
      (list.foldl (fun pool tx => pool.remove tx true) pool).mapTx ⊆ pool.mapTx := by
    intro list
    induction list with
    | nil => exact fun pool => List.Subset.refl _
    | cons tx rest ih => exact fun pool => List.Subset.trans (ih _) (remove_subset pool tx true)
  exact loop _ pool

end CTxMemPool

end ZenonCore.Mempool
