import Mathlib.Logic.Relation
import ZenonCore.Library.Interference
import ZenonCore.Mempool

/-!
# The index of the pool and its size

A removal of whatever kind erases transactions one by one, so it keeps what one erasure keeps.
-/

namespace ZenonCore.PoolIndex

open Primitives ChainParams Coins Mempool List Option
open Library.Interference

structure SizedPool extends CTxMemPool where
  totalTxSize : UInt64

namespace SizedPool

def empty : SizedPool := { CTxMemPool.empty with totalTxSize := 0 }

section Operations

variable (getTxSize : CTransaction → UInt64)

def addUnchecked (pool : SizedPool) (tx : CTransaction) : SizedPool :=
  { pool.toCTxMemPool.addUnchecked tx with totalTxSize := pool.totalTxSize + getTxSize tx }

/-- The body of the loop of `remove`, for a transaction of the pool. -/
def eraseTx (pool : SizedPool) (tx : CTransaction) : SizedPool :=
  { pool.toCTxMemPool.eraseTx tx with totalTxSize := pool.totalTxSize - getTxSize tx }

def removeLoop (fRecursive : Bool) : Nat → SizedPool → List Uint256 → SizedPool
  | 0, pool, _ => pool
  | _, pool, [] => pool
  | fuel + 1, pool, hash :: txToRemove =>
    match pool.lookup hash with
    | none => removeLoop fRecursive fuel pool txToRemove
    | some tx =>
      let pushed := if fRecursive then pool.spenders tx else []
      removeLoop fRecursive fuel (pool.eraseTx getTxSize tx) (txToRemove ++ pushed)

def remove (pool : SizedPool) (origTx : CTransaction) (fRecursive : Bool) : SizedPool :=
  let txToRemove :=
    if fRecursive && !pool.contains origTx.hash then origTx.hash :: pool.spenders origTx
    else [origTx.hash]
  removeLoop getTxSize fRecursive (pool.removeRounds txToRemove) pool txToRemove

def removeCoinbaseSpends (params : CChainParams) (pool : SizedPool) (pcoins : CCoinsView)
    (nMemPoolHeight : Int) : SizedPool :=
  let transactionsToRemove :=
    pool.mapTx.filter fun tx => tx.vin.any (pool.spendsImmature params pcoins nMemPoolHeight)
  transactionsToRemove.foldl (fun pool tx => pool.remove getTxSize tx true) pool

def removeConflict (tx : CTransaction) (pool : SizedPool) (txin : CTxIn) : SizedPool :=
  match pool.mapNextTx txin.prevout with
  | none => pool
  | some it => if it.ptx.hash != tx.hash then pool.remove getTxSize it.ptx true else pool

def removeConflicts (pool : SizedPool) (tx : CTransaction) : SizedPool :=
  tx.vin.foldl (removeConflict getTxSize tx) pool

def removeForBlock (pool : SizedPool) (vtx : List CTransaction) : SizedPool :=
  vtx.foldl (fun pool tx => (pool.remove getTxSize tx false).removeConflicts getTxSize tx) pool

def ErasesOne (pool after : SizedPool) : Prop :=
  ∃ tx ∈ pool.mapTx, after = pool.eraseTx getTxSize tx

abbrev Erases : SizedPool → SizedPool → Prop := Relation.ReflTransGen (ErasesOne getTxSize)

end Operations

section Refinement

variable (getTxSize : CTransaction → UInt64)

theorem removeLoop_pool (fRecursive : Bool) (fuel : Nat) (pool : SizedPool)
    (txToRemove : List Uint256) :
    (removeLoop getTxSize fRecursive fuel pool txToRemove).toCTxMemPool =
      CTxMemPool.removeLoop fRecursive fuel pool.toCTxMemPool txToRemove := by
  induction fuel generalizing pool txToRemove with
  | zero => rfl
  | succ fuel ih =>
    cases txToRemove with
    | nil => rfl
    | cons hash txToRemove =>
      rw [removeLoop, CTxMemPool.removeLoop]
      cases pool.lookup hash with
      | none => exact ih pool txToRemove
      | some tx => exact ih _ _

variable (pool : SizedPool)

theorem remove_pool (origTx : CTransaction) (fRecursive : Bool) :
    (pool.remove getTxSize origTx fRecursive).toCTxMemPool =
      pool.toCTxMemPool.remove origTx fRecursive :=
  removeLoop_pool getTxSize fRecursive _ pool _

theorem removeCoinbaseSpends_pool (params : CChainParams) (pool : SizedPool)
    (pcoins : CCoinsView) (nMemPoolHeight : Int) :
    (pool.removeCoinbaseSpends getTxSize params pcoins nMemPoolHeight).toCTxMemPool =
      pool.toCTxMemPool.removeCoinbaseSpends params pcoins nMemPoolHeight := by
  have loop : ∀ (list : List CTransaction) (pool : SizedPool),
      (list.foldl (fun pool tx => pool.remove getTxSize tx true) pool).toCTxMemPool =
        list.foldl (fun pool tx => pool.remove tx true) pool.toCTxMemPool := by
    intro list
    induction list with
    | nil => exact fun pool => rfl
    | cons tx rest ih =>
      intro pool
      rw [foldl_cons, foldl_cons, ih, remove_pool]
  exact loop _ pool

theorem removeConflict_pool (tx : CTransaction) (pool : SizedPool) (txin : CTxIn) :
    (removeConflict getTxSize tx pool txin).toCTxMemPool =
      CTxMemPool.removeConflict tx pool.toCTxMemPool txin := by
  unfold removeConflict CTxMemPool.removeConflict
  cases pool.mapNextTx txin.prevout with
  | none => rfl
  | some it =>
    dsimp only
    split
    · exact remove_pool getTxSize pool it.ptx true
    · rfl

theorem removeConflicts_pool (tx : CTransaction) :
    (pool.removeConflicts getTxSize tx).toCTxMemPool = pool.toCTxMemPool.removeConflicts tx := by
  unfold removeConflicts CTxMemPool.removeConflicts
  induction tx.vin generalizing pool with
  | nil => rfl
  | cons txin rest ih => rw [foldl_cons, foldl_cons, ih, removeConflict_pool]

theorem removeForBlock_pool (vtx : List CTransaction) :
    (pool.removeForBlock getTxSize vtx).toCTxMemPool = pool.toCTxMemPool.removeForBlock vtx := by
  unfold removeForBlock CTxMemPool.removeForBlock
  induction vtx generalizing pool with
  | nil => rfl
  | cons tx rest ih =>
    rw [foldl_cons, foldl_cons, ih, removeConflicts_pool, remove_pool]

end Refinement

section Erasures

variable (getTxSize : CTransaction → UInt64)

theorem removeLoop_erases (fRecursive : Bool) (fuel : Nat) (pool : SizedPool)
    (txToRemove : List Uint256) :
    Erases getTxSize pool (removeLoop getTxSize fRecursive fuel pool txToRemove) := by
  induction fuel generalizing pool txToRemove with
  | zero => exact .refl
  | succ fuel ih =>
    cases txToRemove with
    | nil => exact .refl
    | cons hash txToRemove =>
      rw [removeLoop]
      cases found : pool.lookup hash with
      | none => exact ih pool txToRemove
      | some tx =>
        have member := (CTxMemPool.lookup_some pool.toCTxMemPool hash tx found).1
        exact .head ⟨tx, member, rfl⟩ (ih _ _)

variable (pool : SizedPool)

theorem remove_erases (origTx : CTransaction) (fRecursive : Bool) :
    Erases getTxSize pool (pool.remove getTxSize origTx fRecursive) :=
  removeLoop_erases getTxSize fRecursive _ pool _

theorem foldl_erases {ι : Type} (round : SizedPool → ι → SizedPool)
    (erases : ∀ pool item, Erases getTxSize pool (round pool item)) (items : List ι)
    (pool : SizedPool) : Erases getTxSize pool (items.foldl round pool) := by
  induction items generalizing pool with
  | nil => exact .refl
  | cons item rest ih => exact (erases pool item).trans (ih _)

theorem removeCoinbaseSpends_erases (params : CChainParams) (pool : SizedPool)
    (pcoins : CCoinsView) (nMemPoolHeight : Int) :
    Erases getTxSize pool
      (pool.removeCoinbaseSpends getTxSize params pcoins nMemPoolHeight) :=
  foldl_erases getTxSize _ (fun pool tx => remove_erases getTxSize pool tx true) _ pool

theorem removeConflict_erases (tx : CTransaction) (pool : SizedPool) (txin : CTxIn) :
    Erases getTxSize pool (removeConflict getTxSize tx pool txin) := by
  unfold removeConflict
  split
  · exact .refl
  · split
    · exact remove_erases getTxSize pool _ true
    · exact .refl

theorem removeConflicts_erases (tx : CTransaction) :
    Erases getTxSize pool (pool.removeConflicts getTxSize tx) :=
  foldl_erases getTxSize _ (removeConflict_erases getTxSize tx) tx.vin pool

theorem removeForBlock_erases (vtx : List CTransaction) :
    Erases getTxSize pool (pool.removeForBlock getTxSize vtx) :=
  foldl_erases getTxSize _ (fun pool tx => (remove_erases getTxSize pool tx false).trans
    (removeConflicts_erases getTxSize _ tx)) vtx pool

end Erasures

end SizedPool

def lastInput : List CTxIn → COutPoint → Option Nat
  | [], _ => none
  | txin :: rest, outpoint =>
    match lastInput rest outpoint with
    | some k => some (k + 1)
    | none => if txin.prevout = outpoint then some 0 else none

section Inputs

variable (vin : List CTxIn) (outpoint : COutPoint)

theorem lastInput_eq_none :
    lastInput vin outpoint = none ↔ ∀ txin ∈ vin, txin.prevout ≠ outpoint := by
  induction vin with
  | nil => simp [lastInput]
  | cons first rest ih =>
    rw [lastInput, forall_mem_cons]
    cases later : lastInput rest outpoint with
    | some k =>
      have named : ¬ ∀ txin ∈ rest, txin.prevout ≠ outpoint := by
        intro none
        rw [ih.mpr none] at later
        cases later
      simp [named]
    | none =>
      have others := ih.mp later
      by_cases here : first.prevout = outpoint
      · simp [here]
      · simp only [here, if_false, ne_eq, not_false_eq_true, true_and, true_iff]
        exact others

theorem lastInput_spec (n : Nat)
    (last : lastInput vin outpoint = some n) :
    (∃ txin, vin[n]? = some txin ∧ txin.prevout = outpoint) ∧
      ∀ k txin, vin[k]? = some txin → txin.prevout = outpoint → k ≤ n := by
  induction vin generalizing n with
  | nil => cases last
  | cons first rest ih =>
    rw [lastInput] at last
    cases later : lastInput rest outpoint with
    | some k =>
      rw [later] at last
      have position : k + 1 = n := some.inj last
      obtain ⟨⟨txin, listed, named⟩, bound⟩ := ih k later
      rw [← position]
      refine ⟨⟨txin, listed, named⟩, fun j other isOther same => ?_⟩
      cases j with
      | zero => exact Nat.zero_le _
      | succ j => exact Nat.succ_le_succ (bound j other isOther same)
    | none =>
      rw [later] at last
      have others := (lastInput_eq_none rest outpoint).mp later
      by_cases here : first.prevout = outpoint
      · rw [if_pos here] at last
        have position : 0 = n := some.inj last
        rw [← position]
        refine ⟨⟨first, rfl, here⟩, fun j other isOther same => ?_⟩
        cases j with
        | zero => exact Nat.le_refl _
        | succ j =>
          have member : other ∈ rest := mem_of_getElem? isOther
          exact absurd same (others other member)
      · rw [if_neg here] at last
        cases last

theorem exists_lastInput (vin : List CTxIn) (txin : CTxIn) (member : txin ∈ vin) :
    ∃ n, lastInput vin txin.prevout = some n := by
  cases last : lastInput vin txin.prevout with
  | some n => exact ⟨n, rfl⟩
  | none => exact absurd rfl ((lastInput_eq_none vin txin.prevout).mp last txin member)

theorem registerInputs_eq (tx : CTransaction) (n : Nat) (vin : List CTxIn)
    (mapNextTx : COutPoint → Option CInPoint) (outpoint : COutPoint) :
    CTxMemPool.registerInputs tx n vin mapNextTx outpoint =
      ((lastInput vin outpoint).map fun k => { ptx := tx, n := n + k }).or
        (mapNextTx outpoint) := by
  induction vin generalizing n mapNextTx with
  | nil => rfl
  | cons first rest ih =>
    rw [CTxMemPool.registerInputs, ih, lastInput]
    cases lastInput rest outpoint with
    | some k =>
      dsimp only [map_some, some_or]
      rw [Nat.add_assoc, Nat.add_comm 1 k]
    | none =>
      by_cases here : first.prevout = outpoint
      · simp [here]
      · have other : ¬ outpoint = first.prevout := fun same => here same.symm
        simp [here, other]

end Inputs

section Index

variable (getTxSize : CTransaction → UInt64)

structure Indexed (pool : SizedPool) : Prop where
  distinct : (pool.mapTx.map CTransaction.hash).Nodup
  apart : ∀ tx ∈ pool.mapTx, tx.hasZerocoinSpendInputs = false → ∀ other ∈ pool.mapTx,
    other.hash ≠ tx.hash → ∀ txin ∈ tx.vin, ∀ otherIn ∈ other.vin,
      otherIn.prevout ≠ txin.prevout
  index : ∀ outpoint it, pool.mapNextTx outpoint = some it ↔
    it.ptx ∈ pool.mapTx ∧ it.ptx.hasZerocoinSpendInputs = false ∧
      lastInput it.ptx.vin outpoint = some it.n
  total : pool.totalTxSize = (pool.mapTx.map getTxSize).sum

theorem indexed_empty : Indexed getTxSize .empty := by
  constructor
  · exact nodup_nil
  · intro tx member
    exact absurd member not_mem_nil
  · intro outpoint it
    constructor
    · intro entry
      cases entry
    · intro listed
      exact absurd listed.1 not_mem_nil
  · rfl

variable {getTxSize} {pool : SizedPool}

theorem Indexed.by_hash (indexed : Indexed getTxSize pool) (first second : CTransaction)
    (isFirst : first ∈ pool.mapTx) (isSecond : second ∈ pool.mapTx)
    (same : first.hash = second.hash) : first = second :=
  inj_on_of_nodup_map indexed.distinct isFirst isSecond same

theorem sum_filter (list : List CTransaction) (tx : CTransaction) (member : tx ∈ list)
    (distinct : (list.map CTransaction.hash).Nodup) :
    (list.map getTxSize).sum =
      ((list.filter fun other => other.hash != tx.hash).map getTxSize).sum + getTxSize tx := by
  induction list with
  | nil => exact absurd member not_mem_nil
  | cons first rest ih =>
    rw [map_cons, nodup_cons] at distinct
    obtain ⟨unlike, restDistinct⟩ := distinct
    have others : ∀ other ∈ rest, first.hash ≠ other.hash := by
      intro other isOther same
      exact unlike (mem_map.mpr ⟨other, isOther, same.symm⟩)
    obtain here | later := mem_cons.mp member
    · have kept : (rest.filter fun other => other.hash != first.hash) = rest := by
        apply filter_eq_self.mpr
        intro other isOther
        exact bne_iff_ne.mpr (others other isOther).symm
      rw [here, filter_cons_of_neg (by simp), kept, map_cons, sum_cons,
        UInt64.add_comm]
    · have keeps : (first.hash != tx.hash) = true := bne_iff_ne.mpr (others tx later)
      rw [filter_cons_of_pos (p := fun other : CTransaction => other.hash != tx.hash) keeps,
        map_cons, map_cons, sum_cons, sum_cons, ih later restDistinct,
        UInt64.add_assoc]

theorem Indexed.eraseTx (indexed : Indexed getTxSize pool) (tx : CTransaction)
    (member : tx ∈ pool.mapTx) : Indexed getTxSize (pool.eraseTx getTxSize tx) := by
  have members : ∀ other, other ∈ (pool.eraseTx getTxSize tx).mapTx ↔
      other ∈ pool.mapTx ∧ other.hash ≠ tx.hash := by
    intro other
    simp [SizedPool.eraseTx, CTxMemPool.eraseTx]
  have entries : ∀ outpoint, (pool.eraseTx getTxSize tx).mapNextTx outpoint =
      if tx.vin.any (fun txin => txin.prevout == outpoint) then none
      else pool.mapNextTx outpoint := fun _ => rfl
  constructor
  · exact indexed.distinct.sublist (filter_sublist.map _)
  · intro one isOne ordinary other isOther
    exact indexed.apart one ((members one).mp isOne).1 ordinary other ((members other).mp isOther).1
  · intro outpoint it
    rw [entries, members]
    cases named : tx.vin.any fun txin => txin.prevout == outpoint with
    | true =>
      rw [if_pos rfl]
      constructor
      · intro entry
        cases entry
      · intro listed
        obtain ⟨⟨isIn, differs⟩, ordinary, last⟩ := listed
        obtain ⟨own, isOwn, ownNames⟩ := (lastInput_spec _ _ _ last).1
        obtain ⟨txin, input, names⟩ := any_eq_true.mp named
        have same : txin.prevout = own.prevout := by
          rw [ownNames]
          exact beq_iff_eq.mp names
        exact absurd same (indexed.apart it.ptx isIn ordinary tx member differs.symm own
          (mem_of_getElem? isOwn) txin input)
    | false =>
      rw [if_neg (by decide), indexed.index]
      constructor
      · intro listed
        obtain ⟨isIn, ordinary, last⟩ := listed
        refine ⟨⟨isIn, fun sameHash => ?_⟩, ordinary, last⟩
        obtain ⟨own, isOwn, ownNames⟩ := (lastInput_spec _ _ _ last).1
        have isTx := indexed.by_hash it.ptx tx isIn member sameHash
        rw [isTx] at isOwn
        have unnamed := (any_eq_false.mp named) own (mem_of_getElem? isOwn)
        exact unnamed (beq_iff_eq.mpr ownNames)
      · intro listed
        exact ⟨listed.1.1, listed.2⟩
  · have whole := @sum_filter getTxSize pool.mapTx tx member indexed.distinct
    have left : (pool.eraseTx getTxSize tx).totalTxSize = pool.totalTxSize - getTxSize tx := rfl
    have right : (pool.eraseTx getTxSize tx).mapTx =
        pool.mapTx.filter fun other => other.hash != tx.hash := rfl
    rw [left, right, indexed.total, whole, UInt64.add_sub_cancel]

theorem Indexed.erases {after : SizedPool} (indexed : Indexed getTxSize pool)
    (erases : SizedPool.Erases getTxSize pool after) : Indexed getTxSize after := by
  induction erases with
  | refl => exact indexed
  | tail _ one ih =>
    obtain ⟨tx, member, after⟩ := one
    rw [after]
    exact ih.eraseTx tx member

/-- No ordinary input names an outpoint that the pool names, and no zerocoin input one that the pool
spends. -/
structure NoConflict (pool : CTxMemPool) (tx : CTransaction) : Prop where
  ordinary : ∀ txin ∈ tx.vin, txin.spendsZerocoin = false → ∀ other ∈ pool.mapTx,
    ∀ otherIn ∈ other.vin, otherIn.prevout ≠ txin.prevout
  zerocoin : ∀ txin ∈ tx.vin, txin.spendsZerocoin = true → ∀ other ∈ pool.mapTx,
    other.hasZerocoinSpendInputs = false → ∀ otherIn ∈ other.vin, otherIn.prevout ≠ txin.prevout

instance (pool : CTxMemPool) (tx : CTransaction) : Decidable (NoConflict pool tx) :=
  decidable_of_iff
    ((∀ txin ∈ tx.vin, txin.spendsZerocoin = false → ∀ other ∈ pool.mapTx,
        ∀ otherIn ∈ other.vin, otherIn.prevout ≠ txin.prevout) ∧
      ∀ txin ∈ tx.vin, txin.spendsZerocoin = true → ∀ other ∈ pool.mapTx,
        other.hasZerocoinSpendInputs = false → ∀ otherIn ∈ other.vin,
          otherIn.prevout ≠ txin.prevout)
    ⟨fun both => ⟨both.1, both.2⟩, fun noConflict => ⟨noConflict.ordinary, noConflict.zerocoin⟩⟩

theorem NoConflict.apart {pool : CTxMemPool} {tx : CTransaction} (noConflict : NoConflict pool tx)
    (other : CTransaction) (isOther : other ∈ pool.mapTx)
    (either : tx.hasZerocoinSpendInputs = false ∨ other.hasZerocoinSpendInputs = false)
    (txin otherIn : CTxIn) (input : txin ∈ tx.vin) (otherInput : otherIn ∈ other.vin) :
    otherIn.prevout ≠ txin.prevout := by
  cases kind : txin.spendsZerocoin with
  | false => exact noConflict.ordinary txin input kind other isOther otherIn otherInput
  | true =>
    have zerocoin := hasZerocoinSpendInputs_of_mem tx txin input kind
    obtain ordinary | ordinary := either
    · rw [zerocoin] at ordinary
      cases ordinary
    · exact noConflict.zerocoin txin input kind other isOther ordinary otherIn otherInput

theorem Indexed.addUnchecked (indexed : Indexed getTxSize pool) (tx : CTransaction)
    (absent : ∀ other ∈ pool.mapTx, other.hash ≠ tx.hash)
    (noConflict : NoConflict pool.toCTxMemPool tx) :
    Indexed getTxSize (pool.addUnchecked getTxSize tx) := by
  have added : (pool.addUnchecked getTxSize tx).mapTx = pool.mapTx ++ [tx] := by
    have kept : pool.mapTx.filter (fun other => other.hash != tx.hash) = pool.mapTx := by
      apply filter_eq_self.mpr
      intro other isOther
      exact bne_iff_ne.mpr (absent other isOther)
    have whole : (pool.addUnchecked getTxSize tx).mapTx =
        pool.mapTx.filter (fun other => other.hash != tx.hash) ++ [tx] := rfl
    rw [whole, kept]
  have members : ∀ other, other ∈ (pool.addUnchecked getTxSize tx).mapTx ↔
      other ∈ pool.mapTx ∨ other = tx := by
    intro other
    rw [added, mem_append, mem_singleton]
  have entries : (pool.addUnchecked getTxSize tx).mapNextTx =
      if tx.hasZerocoinSpendInputs then pool.mapNextTx
      else CTxMemPool.registerInputs tx 0 tx.vin pool.mapNextTx := rfl
  constructor
  · rw [added, map_append]
    apply nodup_append.mpr
    refine ⟨indexed.distinct, nodup_singleton _, fun hash isOld other isNew same => ?_⟩
    obtain ⟨old, isIn, oldHash⟩ := mem_map.mp isOld
    rw [map_singleton, mem_singleton] at isNew
    exact absent old isIn (oldHash.trans (same.trans isNew))
  · intro one isOne ordinary other isOther differs txin input otherIn otherInput
    obtain oneOld | oneNew := (members one).mp isOne
    · obtain otherOld | otherNew := (members other).mp isOther
      · exact indexed.apart one oneOld ordinary other otherOld differs txin input otherIn otherInput
      · rw [otherNew] at otherInput
        exact (noConflict.apart one oneOld (Or.inr ordinary) otherIn txin otherInput input).symm
    · obtain otherOld | otherNew := (members other).mp isOther
      · rw [oneNew] at input ordinary
        exact noConflict.apart other otherOld (Or.inl ordinary) txin otherIn input otherInput
      · rw [oneNew, otherNew] at differs
        exact absurd rfl differs
  · intro outpoint it
    rw [entries, members]
    cases kind : tx.hasZerocoinSpendInputs with
    | true =>
      rw [if_pos rfl, indexed.index]
      constructor
      · intro listed
        exact ⟨Or.inl listed.1, listed.2⟩
      · intro listed
        obtain old | new := listed.1
        · exact ⟨old, listed.2⟩
        · rw [new, kind] at listed
          cases listed.2.1
    | false =>
      rw [if_neg (by decide), registerInputs_eq]
      cases last : lastInput tx.vin outpoint with
      | none =>
        rw [map_none, none_or, indexed.index]
        constructor
        · intro listed
          exact ⟨Or.inl listed.1, listed.2⟩
        · intro listed
          obtain old | new := listed.1
          · exact ⟨old, listed.2⟩
          · rw [new, last] at listed
            cases listed.2.2
      | some k =>
        rw [map_some, some_or, Nat.zero_add]
        constructor
        · intro entry
          rw [← some.inj entry]
          exact ⟨Or.inr rfl, kind, last⟩
        · intro listed
          obtain ⟨old | new, ordinary, itsLast⟩ := listed
          · obtain ⟨own, isOwn, ownNames⟩ := (lastInput_spec _ _ _ last).1
            obtain ⟨other, isOther, otherNames⟩ := (lastInput_spec _ _ _ itsLast).1
            exact absurd (otherNames.trans ownNames.symm) (noConflict.apart it.ptx old
              (Or.inl kind) own other (mem_of_getElem? isOwn)
              (mem_of_getElem? isOther))
          · rw [new, last] at itsLast
            obtain ⟨ptx, n⟩ := it
            dsimp only at new itsLast
            rw [new, some.inj itsLast]
  · have total : (pool.addUnchecked getTxSize tx).totalTxSize =
        pool.totalTxSize + getTxSize tx := rfl
    rw [total, added, indexed.total, map_append, sum_append, map_singleton,
      sum_singleton]

end Index

inductive Event
  | addUnchecked (tx : CTransaction)
  | remove (origTx : CTransaction) (fRecursive : Bool)
  | removeConflicts (tx : CTransaction)
  | removeCoinbaseSpends (pcoins : CCoinsView) (nMemPoolHeight : Int)
  | removeForBlock (vtx : List CTransaction)
  | clear

section Runs

variable (getTxSize : CTransaction → UInt64) (params : CChainParams)

def step (pool : SizedPool) : Event → SizedPool
  | .addUnchecked tx => pool.addUnchecked getTxSize tx
  | .remove origTx fRecursive => pool.remove getTxSize origTx fRecursive
  | .removeConflicts tx => pool.removeConflicts getTxSize tx
  | .removeCoinbaseSpends pcoins nMemPoolHeight =>
    pool.removeCoinbaseSpends getTxSize params pcoins nMemPoolHeight
  | .removeForBlock vtx => pool.removeForBlock getTxSize vtx
  | .clear => .empty

/-- The transactions that enter do not conflict with the pool. -/
def Conflictless (pool : SizedPool) : Event → Prop
  | .addUnchecked tx => NoConflict pool.toCTxMemPool tx
  | _ => True

def Admissible (pool : SizedPool) : Event → Prop
  | .addUnchecked tx =>
    NoConflict pool.toCTxMemPool tx ∧ ∀ other ∈ pool.mapTx, other.hash ≠ tx.hash
  | _ => True

instance (pool : SizedPool) : (event : Event) → Decidable (Conflictless pool event)
  | .addUnchecked tx => inferInstanceAs (Decidable (NoConflict pool.toCTxMemPool tx))
  | .remove _ _ => isTrue trivial
  | .removeConflicts _ => isTrue trivial
  | .removeCoinbaseSpends _ _ => isTrue trivial
  | .removeForBlock _ => isTrue trivial
  | .clear => isTrue trivial

instance (pool : SizedPool) : (event : Event) → Decidable (Admissible pool event)
  | .addUnchecked tx => inferInstanceAs (Decidable (NoConflict pool.toCTxMemPool tx ∧ _))
  | .remove _ _ => isTrue trivial
  | .removeConflicts _ => isTrue trivial
  | .removeCoinbaseSpends _ _ => isTrue trivial
  | .removeForBlock _ => isTrue trivial
  | .clear => isTrue trivial

/-- The index has the outpoints of the ordinary transactions with their one spender and the last
input that does, and the size is the sum of the sizes. -/
structure Exact (pool : SizedPool) : Prop where
  spent : ∀ outpoint, (∃ it, pool.mapNextTx outpoint = some it) ↔
    ∃ tx ∈ pool.mapTx, tx.hasZerocoinSpendInputs = false ∧
      ∃ txin ∈ tx.vin, txin.prevout = outpoint
  spender : ∀ outpoint it, pool.mapNextTx outpoint = some it →
    it.ptx ∈ pool.mapTx ∧ it.ptx.hasZerocoinSpendInputs = false ∧
      (∃ txin, it.ptx.vin[it.n]? = some txin ∧ txin.prevout = outpoint) ∧
      ∀ tx ∈ pool.mapTx, tx.hasZerocoinSpendInputs = false → ∀ k txin, tx.vin[k]? = some txin →
        txin.prevout = outpoint → tx = it.ptx ∧ k ≤ it.n
  total : pool.totalTxSize = (pool.mapTx.map getTxSize).sum

variable {getTxSize} {params} {pool : SizedPool}

theorem Indexed.exact (indexed : Indexed getTxSize pool) : Exact getTxSize pool := by
  constructor
  · intro outpoint
    constructor
    · intro entry
      obtain ⟨it, entry⟩ := entry
      obtain ⟨member, ordinary, last⟩ := (indexed.index outpoint it).mp entry
      obtain ⟨txin, listed, names⟩ := (lastInput_spec _ _ _ last).1
      exact ⟨it.ptx, member, ordinary, txin, mem_of_getElem? listed, names⟩
    · intro spends
      obtain ⟨tx, member, ordinary, txin, input, names⟩ := spends
      obtain ⟨n, last⟩ := exists_lastInput tx.vin txin input
      rw [names] at last
      exact ⟨{ ptx := tx, n := n }, (indexed.index outpoint _).mpr ⟨member, ordinary, last⟩⟩
  · intro outpoint it entry
    obtain ⟨member, ordinary, last⟩ := (indexed.index outpoint it).mp entry
    obtain ⟨named, bound⟩ := lastInput_spec _ _ _ last
    refine ⟨member, ordinary, named, fun tx isTx txOrdinary k txin listed names => ?_⟩
    obtain ⟨own, isOwn, ownNames⟩ := named
    have same : tx = it.ptx := by
      by_contra differs
      have hashes : tx.hash ≠ it.ptx.hash :=
        fun equal => differs (indexed.by_hash tx it.ptx isTx member equal)
      exact indexed.apart it.ptx member ordinary tx isTx hashes own (mem_of_getElem? isOwn)
        txin (mem_of_getElem? listed) (names.trans ownNames.symm)
    rw [same] at listed
    exact ⟨same, bound k txin listed names⟩
  · exact indexed.total

theorem step_indexed (event : Event) (indexed : Indexed getTxSize pool)
    (admissible : Admissible pool event) : Indexed getTxSize (step getTxSize params pool event) := by
  cases event with
  | addUnchecked tx => exact indexed.addUnchecked tx admissible.2 admissible.1
  | remove origTx fRecursive =>
    exact indexed.erases (SizedPool.remove_erases getTxSize pool origTx fRecursive)
  | removeConflicts tx =>
    exact indexed.erases (SizedPool.removeConflicts_erases getTxSize pool tx)
  | removeCoinbaseSpends pcoins nMemPoolHeight =>
    exact indexed.erases
      (SizedPool.removeCoinbaseSpends_erases getTxSize params pool pcoins nMemPoolHeight)
  | removeForBlock vtx =>
    exact indexed.erases (SizedPool.removeForBlock_erases getTxSize pool vtx)
  | clear => exact indexed_empty getTxSize

end Runs

/-- Where the added transactions are new and do not conflict with the pool, the index and the size
are exact. -/
theorem index_and_size_exact (getTxSize : CTransaction → UInt64) (params : CChainParams)
    (events : List Event)
    (admissible : Guarded (step getTxSize params) (fun _ _ => ())
      (fun _ pool event => Admissible pool event) () .empty events) :
    Exact getTxSize (events.foldl (step getTxSize params) .empty) := by
  have indexed := invariant_of_guarded (step getTxSize params) (fun _ _ => ())
    (fun _ pool event => Admissible pool event) (fun _ pool => Indexed getTxSize pool)
    (fun _ pool event indexed admissible => step_indexed event indexed admissible)
    () .empty events (indexed_empty getTxSize) admissible
  exact indexed.exact

def privateSpend : CTransaction where
  hash := 31
  nVersion := 1
  vin := [{ prevout := .null, scriptSig := [Script.opZerocoinSpend], nSequence := 1 }]
  vout := []
  nLockTime := 0

def ordinaryPayment (hash spends : Uint256) : CTransaction where
  hash := hash
  nVersion := 1
  vin := [{ prevout := { hash := spends, n := 0 }, scriptSig := [], nSequence := 0xffffffff }]
  vout := [{ nValue := coin, scriptPubKey := [] }]
  nLockTime := 0

def hundredBytes : CTransaction → UInt64 := fun _ => 100

def spendTwice : List Event := [.addUnchecked privateSpend, .addUnchecked privateSpend]

/-- A spend does not conflict with itself, and counts twice if it comes twice. -/
theorem spend_added_twice_counts_twice :
    ¬ ∀ (getTxSize : CTransaction → UInt64) (params : CChainParams) (events : List Event),
      Guarded (step getTxSize params) (fun _ _ => ())
        (fun _ pool event => Conflictless pool event) () .empty events →
      Exact getTxSize (events.foldl (step getTxSize params) .empty) := by
  intro exact
  have conflictless : Guarded (step hundredBytes mainParams) (fun _ _ => ())
      (fun _ pool event => Conflictless pool event) () .empty spendTwice := by
    decide +kernel
  have total := (exact hundredBytes mainParams spendTwice conflictless).total
  have differs : (spendTwice.foldl (step hundredBytes mainParams) .empty).totalTxSize ≠
      ((spendTwice.foldl (step hundredBytes mainParams) .empty).mapTx.map hundredBytes).sum := by
    decide +kernel
  exact differs total

/-- A payment, one that spends it and a private spend enter; the first leaves
with its descendant, and the spend stays. -/
theorem payment_leaves_with_descendant :
    Exact hundredBytes
      ([Event.addUnchecked (ordinaryPayment 32 30), .addUnchecked (ordinaryPayment 33 32),
        .addUnchecked privateSpend, .remove (ordinaryPayment 32 30) true].foldl
          (step hundredBytes mainParams) .empty) := by
  apply index_and_size_exact hundredBytes mainParams
  decide +kernel

end ZenonCore.PoolIndex
