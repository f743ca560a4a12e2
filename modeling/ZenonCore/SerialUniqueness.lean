import ZenonCore.ChainTip
import ZenonCore.Library.Runs
import ZenonCore.Serials
import ZenonCore.ValueGate

/-!
# Serial uniqueness along the active chain

Serials stay unique over the runs of the tip as long as the chain's transactions are found and
no block erases a record it did not write.
-/

namespace ZenonCore.SerialUniqueness

open Script Primitives ChainParams Coins List
open Mempool Chain Validation Zerocoin Chainstate
open CheckBlock ConnectBlock DisconnectBlock ChainTip
open Serials Library.Runs ValueGate

def chainSpends (chain : CBlockIndex) : List (CTransaction × CTxIn) :=
  chain.flatMap CBlock.zerocoinInputs

/-- No two inputs of the active chain spend one serial number, which is on record for its
transaction. -/
structure SerialsUnique (services : Services) (node : NodeState) : Prop where
  unique : ((chainSpends node.chainActive).map fun spend =>
    spentSerial services.lib spend.2).Nodup
  recorded : ∀ spend ∈ chainSpends node.chainActive, ∃ bnSerial,
    spentSerial services.lib spend.2 = some bnSerial ∧
      node.zerocoinDB.readCoinSpend bnSerial = some spend.1.hash

/-- What the callers of a step promise: a tip in the block tree, a block that has passed
`CheckBlock`, distinct hashes. -/
def Promised (services : Services) (known : Set CTransaction) (node : NodeState) : Event → Prop
  | .connectTip _ _ pindexNew fromDisk fAlreadyChecked =>
    node.mapBlockIndex pindexNew.getBlockHash = some pindexNew ∧
    ∀ block pprev, pindexNew = block :: pprev →
      (∀ tx ∈ block.vtx, tx ∈ known) ∧
      ((fAlreadyChecked && !fromDisk) = true → ∃ here before merkle,
        checkBlock services here before block merkle = .ok ())
  | .disconnectTip _ _ => True
  | .acceptToMemoryPool _ tx => tx ∈ known

/-- `GetTransaction` finds the transaction of the chain: by the index, or by its coins. -/
def Located (node : NodeState) (txid : Uint256) : Prop :=
  node.fTxIndex = true ∨ ∃ coins block pprev,
    node.pcoinsTip.accessCoins txid = some coins ∧ 0 < coins.nHeight ∧
    node.chainActive.atHeight coins.nHeight = block :: pprev ∧ ∃ tx ∈ block.vtx, tx.hash = txid

/-- A transaction of the active chain is located if the step looks for it; a disconnected block has
no spend script with a previous output. -/
def LookupsSucceed (services : Services) (node : NodeState) : Event → Prop
  | .connectTip _ _ pindexNew _ _ =>
    ∀ block pprev, pindexNew = block :: pprev → ∀ spend ∈ block.zerocoinInputs, ∀ bnSerial,
      spentSerial services.lib spend.2 = some bnSerial →
      ∀ old ∈ chainSpends node.chainActive,
        node.zerocoinDB.readCoinSpend bnSerial = some old.1.hash → Located node old.1.hash
  | .disconnectTip _ _ =>
    ∀ block pprev, node.chainActive = block :: pprev → ∀ tx ∈ block.vtx,
      tx.hasZerocoinSpendInputs = true → ∀ txin ∈ tx.vin, erasesSpend txin = true →
        txin.spendsZerocoin = true
  | .acceptToMemoryPool _ tx =>
    ∀ old ∈ chainSpends node.chainActive, old.1 = tx → Located node tx.hash

structure Consistent (services : Services) (known : Set CTransaction) (node : NodeState) :
    Prop where
  serials : SerialsUnique services node
  tree : BlockTree services.params node.mapBlockIndex
  active : node.chainActive ≠ [] →
    node.mapBlockIndex node.chainActive.getBlockHash = some node.chainActive
  chainKnown : ∀ block ∈ node.chainActive, ∀ tx ∈ block.vtx, tx ∈ known
  poolKnown : ∀ tx ∈ node.mempool.mapTx, tx ∈ known
  indexed : node.fTxIndex = true → ∀ block ∈ node.chainActive, ∀ spend ∈ block.zerocoinInputs,
    node.txIndex spend.1.hash = some (block.hash, spend.1)
  notPooled : ∀ spend ∈ chainSpends node.chainActive, ∀ tx ∈ node.mempool.mapTx,
    tx.hash ≠ spend.1.hash

section Lookups

variable (services : Services) (known : Set CTransaction) (node : NodeState)

theorem mem_chainSpends (chain : CBlockIndex) (spend : CTransaction × CTxIn) :
    spend ∈ chainSpends chain ↔ ∃ block ∈ chain, spend ∈ block.zerocoinInputs := by
  simp [chainSpends]

theorem blockHash_inChain (consistent : Consistent services known node) (block : CBlock)
    (pprev : CBlockIndex) (suffix : block :: pprev <:+ node.chainActive) (tx : CTransaction)
    (txid : Uint256) (found : getTransaction node txid = some (tx, block.hash)) :
    (isTransactionInChain node txid).isSome = true := by
  have filed := consistent.tree.suffix_filed consistent.active suffix (by simp)
  rw [CBlockIndex.getBlockHash_cons] at filed
  have nonzero := (consistent.tree.filed _ _ filed).2.2
  have contained : node.chainActive.contains (block :: pprev) = true :=
    (CBlockIndex.contains_iff _ _ (by simp)).mpr suffix
  simpa [isTransactionInChain, found, isBlockHashInChain, filed, contained] using nonzero

theorem exists_suffix (chain : CBlockIndex) (block : CBlock) (member : block ∈ chain) :
    ∃ pprev, block :: pprev <:+ chain := by
  obtain ⟨newer, pprev, split⟩ := append_of_mem member
  exact ⟨pprev, newer, split.symm⟩

theorem located_inChain (consistent : Consistent services known node)
    (spend : CTransaction × CTxIn) (inChain : spend ∈ chainSpends node.chainActive)
    (located : Located node spend.1.hash) :
    (isTransactionInChain node spend.1.hash).isSome = true := by
  have missed : node.mempool.lookup spend.1.hash = none :=
    (CTxMemPool.lookup_none _ _).mpr (consistent.notPooled spend inChain)
  obtain ⟨block, member, input⟩ := (mem_chainSpends _ _).mp inChain
  by_cases index : node.fTxIndex = true
  · obtain ⟨pprev, suffix⟩ := exists_suffix node.chainActive block member
    have entry := consistent.indexed index block member spend input
    have found : getTransaction node spend.1.hash = some (spend.1, block.hash) := by
      simp [getTransaction, missed, index, entry]
    exact blockHash_inChain services known node consistent block pprev suffix _ _ found
  · obtain on | ⟨coins, other, pprev, entry, positive, atHeight, tx, inBlock, hash⟩ := located
    · exact absurd on index
    · have suffix : other :: pprev <:+ node.chainActive := by
        rw [← atHeight]
        exact CBlockIndex.atHeight_suffix _ _
      have present : (other.vtx.find? fun tx => tx.hash == spend.1.hash).isSome = true := by
        rw [find?_isSome]
        exact ⟨tx, inBlock, by simpa using hash⟩
      obtain ⟨found, isFound⟩ := Option.isSome_iff_exists.mp present
      have looked : getTransaction node spend.1.hash = some (found, other.hash) := by
        simp [getTransaction, missed, index, entry, positive, atHeight, isFound]
      exact blockHash_inChain services known node consistent other pprev suffix _ _ looked

end Lookups

section Connecting

variable (services : Services) (known : Set CTransaction) (node : NodeState)

variable (here : LocalState) (block : CBlock) (pprev : CBlockIndex) (view : CCoinsView)

theorem connectBlock_records (fAlreadyChecked : Bool) (acc : Connecting) (after : NodeState)
    (genesis : block.hash = services.params.hashGenesisBlock → block.zerocoinInputs = [])
    (connected : connectBlock services here node block pprev view false fAlreadyChecked =
      .ok (acc, after)) :
    ∃ records, List.Forall₂ (SpendQueued services node) block.zerocoinInputs records ∧
      after.zerocoinDB.spends = (node.zerocoinDB.writeCoinSpendBatch records).spends ∧
      after.mapBlockIndex = node.mapBlockIndex ∧ after.fTxIndex = node.fTxIndex ∧
      (block.zerocoinInputs = [] ∧ after.txIndex = node.txIndex ∨
        after.txIndex = (writeBlock here node block acc).txIndex) := by
  rcases (connectBlock_ok services here node block pprev view false fAlreadyChecked acc after
    connected).2.2 with ⟨isGenesis, _, same⟩ | ⟨later, _, last, loop, result⟩
  · refine ⟨[], ?_, by rw [same]; rfl, by rw [same], by rw [same], ?_⟩
    · rw [genesis isGenesis]
      exact .nil
    · exact Or.inl ⟨genesis isGenesis, by rw [same]⟩
  · rcases transactionsConnected_queued services node _ 0 block.vtx _ last loop with
      ⟨records, queued, all⟩
    rw [if_neg (by simp)] at result
    obtain ⟨accEq, afterEq⟩ := Prod.mk.inj result
    refine ⟨records, all, ?_, by rw [afterEq]; rfl, by rw [afterEq]; rfl, Or.inr ?_⟩
    · rw [afterEq]
      simp only [writeBlock]
      rw [writeAccumulatorValues_spends, writeCoinMintBatch_spends, queued]
      rfl
    · rw [afterEq]
      rfl

theorem connected_fresh (consistent : Consistent services known node) (block : CBlock)
    (records : List (CoinSpend × Uint256))
    (queued : List.Forall₂ (SpendQueued services node) block.zerocoinInputs records)
    (located : ∀ spend ∈ block.zerocoinInputs, ∀ bnSerial,
      spentSerial services.lib spend.2 = some bnSerial →
      ∀ old ∈ chainSpends node.chainActive,
        node.zerocoinDB.readCoinSpend bnSerial = some old.1.hash → Located node old.1.hash)
    (spend : CTransaction × CTxIn) (member : spend ∈ block.zerocoinInputs)
    (old : CTransaction × CTxIn) (inChain : old ∈ chainSpends node.chainActive) :
    spentSerial services.lib spend.2 ≠ spentSerial services.lib old.2 := by
  intro same
  obtain ⟨bnSerial, serial, recorded⟩ := consistent.serials.recorded old inChain
  obtain ⟨record, _, pair⟩ := paired_of_mem _ _ records queued spend member
  have found : (isSerialInBlockchain node bnSerial).isSome = true := by
    simp only [isSerialInBlockchain, recorded]
    apply located_inChain services known node consistent old inChain
    exact located spend member bnSerial (same.trans serial) old inChain recorded
  have fresh := pair.fresh
  have equal := pair.serial
  rw [same, serial] at equal
  rw [← Option.some.inj equal] at fresh
  rw [fresh] at found
  cases found

theorem connected_distinct (already : Bool) (acc : Connecting) (after : NodeState)
    (checkedBefore : already = true → ∃ here before merkle,
      checkBlock services here before block merkle = .ok ())
    (connected : connectBlock services here node block pprev view false already =
      .ok (acc, after)) :
    (block.zerocoinInputs.map fun spend => spentSerial services.lib spend.2).Nodup := by
  cases already with
  | true =>
    obtain ⟨earlier, before, merkle, checked⟩ := checkedBefore rfl
    exact checkBlock_serials services earlier before block merkle checked
  | false =>
    have checked := (connectBlock_ok services here node block pprev view false false acc after
      connected).1 rfl
    exact checkBlock_serials services here node block _ checked

theorem queued_written (block : CBlock) (records : List (CoinSpend × Uint256))
    (queued : List.Forall₂ (SpendQueued services node) block.zerocoinInputs records)
    (distinct : (block.zerocoinInputs.map fun spend => spentSerial services.lib spend.2).Nodup)
    (db : CZerocoinDB) :
    (∀ spend ∈ block.zerocoinInputs, ∃ bnSerial, spentSerial services.lib spend.2 = some bnSerial ∧
      (db.writeCoinSpendBatch records).spends bnSerial = some spend.1.hash) ∧
    ∀ bnSerial, (∀ spend ∈ block.zerocoinInputs, spentSerial services.lib spend.2 ≠ some bnSerial) →
      (db.writeCoinSpendBatch records).spends bnSerial = db.spends bnSerial := by
  have serials := queued_serials services node _ records queued
  have different : (records.map fun record => record.1.coinSerialNumber).Nodup := by
    rw [serials] at distinct
    exact distinct.of_map
  constructor
  · intro spend member
    obtain ⟨record, found, pair⟩ := paired_of_mem _ _ records queued spend member
    refine ⟨_, pair.serial, ?_⟩
    rw [← pair.txid]
    exact (writeCoinSpendBatch_spends db records _ different).1 record found rfl
  · intro bnSerial absent
    apply (writeCoinSpendBatch_spends db records bnSerial different).2
    intro record member equal
    have listed : some bnSerial ∈ block.zerocoinInputs.map fun spend =>
        spentSerial services.lib spend.2 := by
      rw [serials, ← equal]
      exact mem_map_of_mem (mem_map_of_mem member)
    obtain ⟨spend, inBlock, serial⟩ := mem_map.mp listed
    exact absent spend inBlock serial

end Connecting

section Steps

variable (services : Services) (known : Set CTransaction) (node after : NodeState)

theorem chainSpends_cons (block : CBlock) (pprev : CBlockIndex) :
    chainSpends (block :: pprev) = block.zerocoinInputs ++ chainSpends pprev := rfl

theorem spender_not_in_tip (distinct : Set.InjOn CTransaction.hash known)
    (block : CBlock) (pprev : CBlockIndex)
    (chainKnown : ∀ other ∈ block :: pprev, ∀ tx ∈ other.vtx, tx ∈ known)
    (unique : ((chainSpends (block :: pprev)).map fun spend =>
      spentSerial services.lib spend.2).Nodup)
    (spend : CTransaction × CTxIn) (inChain : spend ∈ chainSpends pprev) (tx : CTransaction)
    (member : tx ∈ block.vtx) : tx.hash ≠ spend.1.hash := by
  intro same
  obtain ⟨older, inPrev, input⟩ := (mem_chainSpends pprev spend).mp inChain
  have parts := (mem_zerocoinInputs older spend.1 spend.2).mp input
  have equal : tx = spend.1 := by
    apply distinct (chainKnown block mem_cons_self tx member) _ same
    exact chainKnown older (mem_cons_of_mem _ inPrev) spend.1 parts.1
  have again : spend ∈ block.zerocoinInputs :=
    (mem_zerocoinInputs block spend.1 spend.2).mpr ⟨equal ▸ member, parts.2⟩
  rw [chainSpends_cons, map_append, nodup_append] at unique
  exact unique.2.2 _ (mem_map_of_mem again) _ (mem_map_of_mem inChain) rfl

theorem indexed_after (consistent : Consistent services known node) (here : LocalState)
    (block : CBlock) (acc : Connecting) (txIndex : Uint256 → Option (Uint256 × CTransaction))
    (distinct : Set.InjOn CTransaction.hash known)
    (allKnown : ∀ other ∈ block :: node.chainActive, ∀ tx ∈ other.vtx, tx ∈ known)
    (unique : ((chainSpends (block :: node.chainActive)).map fun spend =>
      spentSerial services.lib spend.2).Nodup)
    (index : block.zerocoinInputs = [] ∧ txIndex = node.txIndex ∨
      txIndex = (writeBlock here node block acc).txIndex)
    (on : node.fTxIndex = true) (other : CBlock) (member : other ∈ block :: node.chainActive)
    (spend : CTransaction × CTxIn) (input : spend ∈ other.zerocoinInputs) :
    txIndex spend.1.hash = some (other.hash, spend.1) := by
  have before : other ∈ node.chainActive →
      node.txIndex spend.1.hash = some (other.hash, spend.1) :=
    fun inChain => consistent.indexed on other inChain spend input
  obtain ⟨without, same⟩ | same := index
  · obtain new | old := mem_cons.mp member
    · rw [new, without] at input
      cases input
    · rw [same]
      exact before old
  · have parts := (mem_zerocoinInputs other spend.1 spend.2).mp input
    simp only [writeBlock, on, if_true] at same
    rw [same]
    rcases indexBlock_entry block.hash block.vtx node.txIndex spend.1.hash with
      ⟨absent, entry⟩ | ⟨tx, inBlock, equal, entry⟩
    · rw [entry]
      obtain new | old := mem_cons.mp member
      · exact absurd rfl (absent spend.1 (new ▸ parts.1))
      · exact before old
    · rw [entry]
      obtain new | old := mem_cons.mp member
      · have isTx : tx = spend.1 :=
          distinct (allKnown block mem_cons_self tx inBlock)
            (allKnown other member spend.1 parts.1) equal
        rw [new, isTx]
      · have inChain := (mem_chainSpends node.chainActive spend).mpr ⟨other, old, input⟩
        exact absurd equal (spender_not_in_tip services known distinct block node.chainActive
          allKnown unique spend inChain tx inBlock)

theorem connectTip_consistent (distinct : Set.InjOn CTransaction.hash known)
    (consistent : Consistent services known node) (here : LocalState) (kept : Uint256 → Bool)
    (pindexNew : CBlockIndex) (fromDisk fAlreadyChecked : Bool)
    (promised : Promised services known node
      (.connectTip here kept pindexNew fromDisk fAlreadyChecked))
    (lookups : LookupsSucceed services node
      (.connectTip here kept pindexNew fromDisk fAlreadyChecked))
    (connected : connectTip services here kept node pindexNew fromDisk fAlreadyChecked =
      .ok after) : Consistent services known after := by
  rcases connectTip_ok services here kept node after pindexNew fromDisk fAlreadyChecked connected
    with ⟨block, acc, written, tip, connects, result⟩
  subst tip
  obtain ⟨filed, promised⟩ := promised
  obtain ⟨blockKnown, checkedBefore⟩ := promised block node.chainActive rfl
  have genesis : block.hash = services.params.hashGenesisBlock → block.zerocoinInputs = [] :=
    fun isGenesis => coinBases_no_zerocoin block
      (consistent.tree.genesis _ block node.chainActive filed isGenesis)
  rcases connectBlock_records services node here block node.chainActive node.pcoinsTip _ acc
    written genesis connects with ⟨records, queued, spends, sameTree, sameIndex, index⟩
  have nodup := connected_distinct services node here block _ _ _ acc written checkedBefore connects
  have fresh := connected_fresh services known node consistent block records queued
    (lookups block node.chainActive rfl)
  rcases queued_written services node block records queued nodup node.zerocoinDB with
    ⟨recorded, untouched⟩
  have allKnown : ∀ other ∈ block :: node.chainActive, ∀ tx ∈ other.vtx, tx ∈ known :=
    forall_mem_cons.mpr ⟨blockKnown, consistent.chainKnown⟩
  have unique : ((chainSpends (block :: node.chainActive)).map fun spend =>
      spentSerial services.lib spend.2).Nodup := by
    rw [chainSpends_cons, map_append, nodup_append]
    refine ⟨nodup, consistent.serials.unique, ?_⟩
    intro first inBlock second inChain equal
    obtain ⟨spend, member, here⟩ := mem_map.mp inBlock
    obtain ⟨old, older, there⟩ := mem_map.mp inChain
    exact fresh spend member old older (here.trans (equal.trans there.symm))
  subst result
  exact
    { serials :=
        { unique := unique
          recorded := by
            intro spend member
            rw [chainSpends_cons, mem_append] at member
            simp only [CZerocoinDB.readCoinSpend, spends]
            obtain inBlock | inChain := member
            · exact recorded spend inBlock
            · obtain ⟨bnSerial, serial, found⟩ := consistent.serials.recorded spend inChain
              refine ⟨bnSerial, serial, ?_⟩
              rw [untouched bnSerial fun other inBlock same =>
                fresh other inBlock spend inChain (same.trans serial.symm)]
              exact found }
      tree := by
        simp only [sameTree]
        exact consistent.tree
      active := by
        intro _
        simp only [sameTree]
        exact filed
      chainKnown := allKnown
      poolKnown := by
        intro tx member
        exact consistent.poolKnown tx (CTxMemPool.removeForBlock_subset _ _ member)
      indexed := by
        simp only [sameIndex]
        exact indexed_after services known node consistent here block acc _ distinct
          allKnown unique index
      notPooled := by
        intro spend member tx pooled
        rw [chainSpends_cons, mem_append] at member
        obtain inBlock | inChain := member
        · have parts := (mem_zerocoinInputs block spend.1 spend.2).mp inBlock
          exact CTxMemPool.removeForBlock_absent _ _ tx spend.1 pooled parts.1
        · exact consistent.notPooled spend inChain tx
            (CTxMemPool.removeForBlock_subset _ _ pooled) }

theorem disconnectTip_consistent (distinct : Set.InjOn CTransaction.hash known)
    (consistent : Consistent services known node) (here : LocalState) (kept : Uint256 → Bool)
    (lookups : LookupsSucceed services node (.disconnectTip here kept))
    (disconnected : disconnectTip services here kept node = (after, .ok ())) :
    Consistent services known after := by
  rcases disconnectTip_ok services here kept node after disconnected with
    ⟨block, pprev, db, view, resurrected, tip, undone, pools, result⟩
  rcases resurrects_ok services here { node with zerocoinDB := db, pcoinsTip := view.flush kept }
    block.vtx with ⟨pool, same, members⟩
  rw [same] at pools
  subst pools
  have allKnown := consistent.chainKnown
  have unique := consistent.serials.unique
  rw [tip] at allKnown unique
  have pooled : ∀ tx ∈ after.mempool.mapTx, tx ∈ node.mempool.mapTx ∨ tx ∈ block.vtx := by
    intro tx member
    rw [result] at member
    exact members tx (CTxMemPool.removeCoinbaseSpends_subset _ _ _ _ member)
  have older : ∀ spend ∈ chainSpends pprev, spend ∈ chainSpends node.chainActive := by
    intro spend inChain
    rw [tip, chainSpends_cons]
    exact mem_append_right _ inChain
  have kept : ∀ spend ∈ chainSpends pprev, ∀ bnSerial,
      spentSerial services.lib spend.2 = some bnSerial →
      db.spends bnSerial = node.zerocoinDB.spends bnSerial := by
    intro spend inChain bnSerial serial
    have untouched := disconnectBlock_spends services node block pprev node.pcoinsTip bnSerial
    rw [undone] at untouched
    apply untouched
    intro tx inBlock zerocoin txin input erases same
    have spends := lookups block pprev tip tx inBlock zerocoin txin input erases
    have again := (mem_zerocoinInputs block tx txin).mpr ⟨inBlock, input, spends⟩
    rw [chainSpends_cons, map_append, nodup_append] at unique
    exact unique.2.2 _ (mem_map_of_mem again) _ (mem_map_of_mem inChain)
      (same.trans serial.symm)
  subst result
  exact
    { serials :=
        { unique := by
            rw [chainSpends_cons, map_append, nodup_append] at unique
            exact unique.2.1
          recorded := by
            intro spend inChain
            rcases consistent.serials.recorded spend (older spend inChain) with
              ⟨bnSerial, serial, found⟩
            exact ⟨bnSerial, serial, (kept spend inChain bnSerial serial).trans found⟩ }
      tree := consistent.tree
      active := by
        intro present
        exact consistent.tree.suffix_filed consistent.active ⟨[block], tip.symm⟩ present
      chainKnown := fun other member => allKnown other (mem_cons_of_mem _ member)
      poolKnown := by
        intro tx member
        obtain old | inBlock := pooled tx member
        · exact consistent.poolKnown tx old
        · exact allKnown block mem_cons_self tx inBlock
      indexed := by
        intro on other member
        have inChain : other ∈ node.chainActive := by
          rw [tip]
          exact mem_cons_of_mem _ member
        exact consistent.indexed on other inChain
      notPooled := by
        intro spend inChain tx member
        obtain old | inBlock := pooled tx member
        · exact consistent.notPooled spend (older spend inChain) tx old
        · exact spender_not_in_tip services known distinct block pprev allKnown unique spend
            inChain tx inBlock }

theorem acceptToMemoryPool_consistent (distinct : Set.InjOn CTransaction.hash known)
    (consistent : Consistent services known node) (here : LocalState) (tx : CTransaction)
    (isKnown : tx ∈ known)
    (lookups : LookupsSucceed services node (.acceptToMemoryPool here tx)) (pool : CTxMemPool)
    (entered : acceptToMemoryPool services here node tx = .ok pool) :
    Consistent services known { node with mempool := pool } := by
  obtain ⟨same, accepted⟩ := acceptToMemoryPool_ok services here node tx pool entered
  have members : ∀ other ∈ pool.mapTx, other ∈ node.mempool.mapTx ∨ other = tx := by
    intro other member
    rw [same] at member
    obtain old | new := mem_append.mp member
    · exact Or.inl (mem_of_mem_filter old)
    · exact Or.inr (mem_singleton.mp new)
  exact
    { serials := ⟨consistent.serials.unique, consistent.serials.recorded⟩
      tree := consistent.tree
      active := consistent.active
      chainKnown := consistent.chainKnown
      poolKnown := by
        intro other member
        obtain old | new := members other member
        · exact consistent.poolKnown other old
        · exact new ▸ isKnown
      indexed := consistent.indexed
      notPooled := by
        intro spend inChain other member equal
        obtain old | new := members other member
        · exact consistent.notPooled spend inChain other old equal
        · subst new
          obtain ⟨block, inActive, input⟩ := (mem_chainSpends _ spend).mp inChain
          have parts := (mem_zerocoinInputs block spend.1 spend.2).mp input
          have isTx : spend.1 = other :=
            distinct (consistent.chainKnown block inActive spend.1 parts.1) isKnown equal.symm
          have zerocoin := hasZerocoinSpendInputs_of_mem spend.1 spend.2 parts.2.1 parts.2.2
          rw [isTx] at zerocoin
          have located := lookups spend inChain isTx
          rw [← isTx] at located
          have found := located_inChain services known node consistent spend inChain located
          rw [isTx, (accepted.zerocoin zerocoin).1] at found
          cases found }

theorem step_consistent (distinct : Set.InjOn CTransaction.hash known) (event : Event)
    (consistent : Consistent services known node) (promised : Promised services known node event)
    (lookups : LookupsSucceed services node event) (taken : step services node event = some after) :
    Consistent services known after := by
  cases event with
  | connectTip here kept pindexNew fromDisk fAlreadyChecked =>
    have connected := connectTip_of_step services here kept node after pindexNew fromDisk
      fAlreadyChecked taken
    exact connectTip_consistent services known node after distinct consistent here kept pindexNew
      fromDisk fAlreadyChecked promised lookups connected
  | disconnectTip here kept =>
    simp only [step] at taken
    split at taken
    · rename_i last disconnected
      cases taken
      exact disconnectTip_consistent services known node after distinct consistent here kept
        lookups disconnected
    · cases taken
  | acceptToMemoryPool here tx =>
    simp only [step] at taken
    split at taken
    · rename_i pool entered
      cases taken
      exact acceptToMemoryPool_consistent services known node distinct consistent here tx promised
        lookups pool entered
    · cases taken

end Steps

structure Fresh (services : Services) (known : Set CTransaction) (node : NodeState) : Prop where
  emptyDB : ∀ bnSerial, node.zerocoinDB.readCoinSpend bnSerial = none
  noSpends : chainSpends node.chainActive = []
  tree : BlockTree services.params node.mapBlockIndex
  active : node.chainActive ≠ [] →
    node.mapBlockIndex node.chainActive.getBlockHash = some node.chainActive
  chainKnown : ∀ block ∈ node.chainActive, ∀ tx ∈ block.vtx, tx ∈ known
  poolKnown : ∀ tx ∈ node.mempool.mapTx, tx ∈ known

theorem Fresh.consistent (services : Services) (known : Set CTransaction) (node : NodeState)
    (fresh : Fresh services known node) : Consistent services known node := by
  have none : ∀ spend, spend ∉ chainSpends node.chainActive := by
    intro spend
    rw [fresh.noSpends]
    exact not_mem_nil
  exact
    { serials :=
        { unique := by
            rw [fresh.noSpends]
            exact nodup_nil
          recorded := fun spend member => absurd member (none spend) }
      tree := fresh.tree
      active := fresh.active
      chainKnown := fresh.chainKnown
      poolKnown := fresh.poolKnown
      indexed := fun _ block member spend input =>
        absurd ((mem_chainSpends _ spend).mpr ⟨block, member, input⟩) (none spend)
      notPooled := fun spend member => absurd member (none spend) }

/-- Serial numbers stay unique in every run whose steps find the transactions they look for, and
erase no foreign record. -/
theorem serials_unique_while_lookups_succeed (services : Services) (known : Set CTransaction)
    (node last : NodeState) (events : List Event) (distinct : Set.InjOn CTransaction.hash known)
    (fresh : Fresh services known node)
    (promised : AllSteps (step services) (Promised services known) node events)
    (lookups : AllSteps (step services) (LookupsSucceed services) node events)
    (reached : run (step services) node events = some last) : SerialsUnique services last := by
  have both : AllSteps (step services)
      (fun state event => Promised services known state event ∧ LookupsSucceed services state event)
      node events := all_steps_and _ _ _ node events promised lookups
  have consistent := invariant_of_guarded_run (step services) _ (Consistent services known)
    (fun state event next holds guard taken => step_consistent services known state next distinct
      event holds guard.1 guard.2 taken)
    node last events (fresh.consistent services known node) both reached
  exact consistent.serials

/-- A public spend of the mint, in a transaction of the given hash. -/
def publicSpendTx (hash : Uint256) : CTransaction where
  hash := hash
  nVersion := 1
  vin := [{ prevout := { hash := 11, n := 0 }, scriptSig := [0xc3, 0, 0, 0], nSequence := 10 }]
  vout := [{ nValue := 10 * coin, scriptPubKey := [op1] }]
  nLockTime := 0

def paymentTx : CTransaction where
  hash := 15
  nVersion := 1
  vin := [{ prevout := { hash := 12, n := 0 }, scriptSig := [], nSequence := 0xffffffff }]
  vout := [{ nValue := 10 * coin, scriptPubKey := [op1] }]
  nLockTime := 0

def mintChain : CBlockIndex := [mintBlock, genesisBlock]

def spendChain : CBlockIndex :=
  exampleBlock 102 101 1600000060 [coinbaseTx 13, publicSpendTx 12] :: mintChain

def paymentChain : CBlockIndex :=
  exampleBlock 103 102 1600000120 [coinbaseTx 14, paymentTx] :: spendChain

def respendChain : CBlockIndex :=
  exampleBlock 104 103 1600000180 [coinbaseTx 16, publicSpendTx 17] :: paymentChain

def exampleEntries : List CBlockIndex :=
  [respendChain, paymentChain, spendChain, mintChain, [genesisBlock]]

/-- The node whose tip is the mint, with the blocks to come in its tree. -/
def awaitingNode (fTxIndex : Bool) : NodeState :=
  { mintedNode with
    mapBlockIndex := fileEntries exampleEntries
    fTxIndex := fTxIndex
    txIndex := fun hash => if hash = mintTx.hash then some (mintBlock.hash, mintTx) else none }

def exampleTransactions : Set CTransaction :=
  { tx | tx ∈ respendChain.flatMap CBlock.vtx }

/-- A block is connected from disk; the flush drops what is spent. -/
def connects (pindexNew : CBlockIndex) : Event :=
  .connectTip quietNode (fun _ => false) pindexNew true false

theorem exampleTransactions_distinct : Set.InjOn CTransaction.hash exampleTransactions := by
  have distinct : ∀ first ∈ respendChain.flatMap CBlock.vtx,
      ∀ second ∈ respendChain.flatMap CBlock.vtx, first.hash = second.hash → first = second := by
    decide +kernel
  exact fun first inFirst second inSecond => distinct first inFirst second inSecond

theorem awaitingNode_fresh (fTxIndex : Bool) :
    Fresh mainnetServices exampleTransactions (awaitingNode fTxIndex) where
  emptyDB := fun _ => rfl
  noSpends := by
    change chainSpends mintChain = []
    decide +kernel
  tree := fileEntries_tree mainParams exampleEntries (by decide +kernel)
  active := by
    intro _
    change fileEntries exampleEntries (CBlockIndex.getBlockHash mintChain) = some mintChain
    decide +kernel
  chainKnown := by
    have known : ∀ block ∈ mintChain, ∀ tx ∈ block.vtx, tx ∈ respendChain.flatMap CBlock.vtx := by
      decide +kernel
    exact known
  poolKnown := fun tx member => absurd member not_mem_nil

def promisedHere (node : NodeState) : Event → Bool
  | .connectTip _ _ pindexNew fromDisk fAlreadyChecked =>
    node.mapBlockIndex pindexNew.getBlockHash == some pindexNew &&
    (pindexNew.headD genesisBlock).vtx.all (fun tx =>
      (respendChain.flatMap CBlock.vtx).contains tx) && fromDisk && !fAlreadyChecked
  | _ => false

theorem promised_of_here (node : NodeState) (event : Event)
    (here : promisedHere node event = true) :
    Promised mainnetServices exampleTransactions node event := by
  cases event with
  | connectTip _ _ pindexNew fromDisk fAlreadyChecked =>
    simp only [promisedHere, Bool.and_eq_true, beq_iff_eq, all_eq_true,
      contains_iff_mem, Bool.not_eq_true'] at here
    refine ⟨here.1.1.1, fun block pprev tip => ⟨?_, ?_⟩⟩
    · rw [tip] at here
      exact here.1.1.2
    · simp [here.2]
  | disconnectTip _ _ => cases here
  | acceptToMemoryPool _ _ => cases here

/-- Without the index the serial number is spent twice: the coins of the first
spend are gone once its output is paid on. -/
theorem spent_coins_free_a_serial :
    ¬ ∀ (services : Services) (known : Set CTransaction) (node last : NodeState)
        (events : List Event),
      Set.InjOn CTransaction.hash known → Fresh services known node →
      AllSteps (step services) (Promised services known) node events →
      run (step services) node events = some last → SerialsUnique services last := by
  intro unique
  have outcome : ((run (step mainnetServices) (awaitingNode false)
      [connects spendChain, connects paymentChain, connects respendChain]).map
        NodeState.chainActive) = some respendChain := by
    decide +kernel
  obtain ⟨last, reached, tip⟩ := Option.map_eq_some_iff.mp outcome
  have promised : AllSteps (step mainnetServices) (fun node event => promisedHere node event = true)
      (awaitingNode false)
      [connects spendChain, connects paymentChain, connects respendChain] := by
    decide +kernel
  have serials := unique mainnetServices exampleTransactions (awaitingNode false) last _
    exampleTransactions_distinct (awaitingNode_fresh false)
    (promised.mono promised_of_here) reached
  have once := serials.unique
  rw [tip] at once
  exact absurd once (by decide +kernel)

/-- With the index the lookups succeed, and a spend leaves the serials unique. -/
theorem indexed_spend_is_unique :
    ∃ last, run (step mainnetServices) (awaitingNode true) [connects spendChain] = some last ∧
      SerialsUnique mainnetServices last := by
  have reached : (run (step mainnetServices) (awaitingNode true)
      [connects spendChain]).isSome = true := by
    decide +kernel
  obtain ⟨last, result⟩ := Option.isSome_iff_exists.mp reached
  have promised : AllSteps (step mainnetServices) (fun node event => promisedHere node event = true)
      (awaitingNode true) [connects spendChain] := by
    decide +kernel
  have lookups : AllSteps (step mainnetServices) (LookupsSucceed mainnetServices)
      (awaitingNode true) [connects spendChain] :=
    ⟨fun _ _ _ _ _ _ _ _ _ _ => Or.inl rfl, fun _ _ => trivial⟩
  exact ⟨last, result, serials_unique_while_lookups_succeed mainnetServices exampleTransactions
    (awaitingNode true) last _ exampleTransactions_distinct (awaitingNode_fresh true)
    (promised.mono promised_of_here) lookups result⟩

end ZenonCore.SerialUniqueness
