import ZenonCore.DisconnectBlock

/-!
# The pool and the tip

`AcceptToMemoryPool`, `ConnectTip` and `DisconnectTip`: how the pool and the
active chain change together.
-/

namespace ZenonCore.ChainTip

open Primitives ChainParams Coins Mempool List
open Chain Validation Zerocoin Chainstate
open CheckBlock ConnectBlock DisconnectBlock

def lockTimeThreshold : Int := 500000000

/-- `IsFinalTx` for a block height and time that are not zero. -/
def isFinalTx (tx : CTransaction) (nBlockHeight nBlockTime : Int) : Bool :=
  tx.nLockTime == 0 ||
    decide ((tx.nLockTime.toNat : Int) <
      if (tx.nLockTime.toNat : Int) < lockTimeThreshold then nBlockHeight else nBlockTime) ||
    tx.vin.all fun txin => txin.nSequence == 0xffffffff

/-- `CheckFinalTx` with the standard flags, which take the median time. -/
def checkFinalTx (node : NodeState) (tx : CTransaction) : Bool :=
  isFinalTx tx (node.chainActive.nHeight + 1) node.chainActive.getMedianTimePast

def maxTxSigOpsCurrent : Nat := 8000

/-- One zerocoin input of a transaction that wants to enter the pool. -/
def acceptSpend (services : Services) (node : NodeState) (tx : CTransaction) (txIn : CTxIn) :
    Validated Unit := do
  require txIn.spendsZerocoin (dos 0 "bad-txns-invalid-zznn")
  require (checkPublicCoinSpendEnforced services.params node.chainActive.nHeight
    txIn.isZerocoinPublicSpend) (dos 0 "bad-txns-invalid-zznn")
  let spend ← readSpend services node tx txIn
  require (contextualCheckZerocoinSpend services node tx spend node.chainActive.nHeight)
    (dos 0 "bad-txns-invalid-zznn")

/-- The branch of a transaction with zerocoin inputs: the value it brings. -/
def acceptZerocoin (services : Services) (node : NodeState) (tx : CTransaction) :
    Validated CAmount := do
  require (isTransactionInChain node tx.hash).isNone (dos 0 "bad-txns-inputs-spent")
  tx.vin.forM (acceptSpend services node tx)
  .ok (getZerocoinSpent tx)

/-- An output that mints, of a transaction that wants to enter the pool. -/
def acceptMint (services : Services) (node : NodeState) (out : CTxOut) : Validated Unit :=
  onlyIf out.isZerocoinMint do
    let pubCoin ← orDos (readMint out) 0 "" false
    require (contextualCheckZerocoinMint services node pubCoin node.chainActive.nHeight) (dos 0 "")

/-- The branch of an ordinary transaction, over the view of coins and pool. -/
def acceptOrdinary (services : Services) (node : NodeState) (view : CCoinsView)
    (tx : CTransaction) : Validated CAmount := do
  require (!view.haveCoins tx.hash) refuse
  tx.vin.forM fun txin => do
    require (view.haveCoins txin.prevout.hash) refuse
    require (validOutPoint services txin.prevout node.chainActive.nHeight)
      (dos 0 "bad-txns-invalid-inputs")
  tx.vout.forM (acceptMint services node)
  require (view.haveInputs tx) (dos 0 "bad-txns-inputs-spent")
  ofOption (getValueIn view tx) (.error .assertion)

/-- The height at which a transaction of the pool would be spent next. -/
def nSpendHeight (node : NodeState) (view : CCoinsView) : Validated Int :=
  ofOption ((node.mapBlockIndex view.hashBlock).map fun pindexPrev => pindexPrev.nHeight + 1)
    (.error .assertion)

/-- The checks of the inputs: against the standard flags and the mandatory ones. -/
def acceptScripts (services : Services) (node : NodeState) (view : CCoinsView)
    (tx : CTransaction) : Validated Unit := do
  let height ← nSpendHeight node view
  let cltv := if CBlockIndex.isSuperMajority services.params 5 node.chainActive
      services.params.nEnforceBlockUpgradeMajority then scriptVerifyCheckLockTimeVerify else 0
  let _ ← checkInputs services tx view height true (standardScriptVerifyFlags ||| cltv) false
  let _ ← checkInputs services tx view height true (scriptVerifyP2SH ||| cltv) false
  .ok ()

def acceptToMemoryPool (services : Services) (here : LocalState) (node : NodeState)
    (tx : CTransaction) : Validated CTxMemPool := do
  let pool := node.mempool
  let chainHeight := node.chainActive.nHeight
  let view := pool.viewMemPool node.pcoinsTip
  let zerocoin := tx.hasZerocoinSpendInputs
  require (!(decide (here.sporkZerocoinMaintenanceMode < here.getAdjustedTime) &&
    tx.containsZerocoins)) (dos 10 "bad-tx")
  orDos (checkTransaction services here node tx
    (decide (services.params.nZerocoinStartHeight ≤ chainHeight))
    (isBlockBetweenFakeSerialAttackRange services.params chainHeight)) 100 "bad-tx" false
  require (!tx.isCoinBase) (dos 100 "coinbase")
  require (!tx.isCoinStake) (dos 100 "coinstake")
  require (checkFinalTx node tx) (dos 0 "non-final")
  require (!services.params.fRequireStandard || services.isStandardTx tx) (dos 0 "")
  require (!pool.contains tx.hash) refuse
  require (tx.vin.all fun txin =>
    match here.mapLockedInputs txin.prevout with
    | none => true
    | some locked => locked == tx.hash) (dos 0 "tx-lock-conflict")
  onlyIf (!zerocoin) (require (tx.vin.all fun txin => (pool.mapNextTx txin.prevout).isNone) refuse)
  let nValueIn ← (
    if zerocoin then acceptZerocoin services node tx
    else acceptOrdinary services node view tx)
  require (!services.params.fRequireStandard || services.areInputsStandard tx view) refuse
  onlyIf (!zerocoin)
    (require (services.getLegacySigOpCount tx + services.getP2SHSigOpCount tx view ≤
      maxTxSigOpsCurrent) (dos 0 "bad-txns-too-many-sigops"))
  let nValueOut ← ofOption tx.getValueOut (.error (.fault .exception))
  here.feePolicy tx (nValueIn - nValueOut)
  require (services.params.networkID == .regtest || nValueIn - nValueOut != 0 || zerocoin) refuse
  -- `CheckInputs` passes a transaction with zerocoin inputs at once
  onlyIf (!zerocoin) (acceptScripts services node view tx)
  .ok (pool.addUnchecked tx)

/-- `ConnectTip` of `pindexNew`, which checks a block from disk again. `kept` are the spent entries
kept. -/
def connectTip (services : Services) (here : LocalState) (kept : Uint256 → Bool)
    (node : NodeState) (pindexNew : CBlockIndex) (fromDisk fAlreadyChecked : Bool) :
    Validated NodeState :=
  match pindexNew with
  | [] => .error .assertion
  | block :: pprev => do
      require (decide (pprev = node.chainActive)) (.error .assertion)
      let (acc, written) ← connectBlock services here node block pprev node.pcoinsTip false
        (fAlreadyChecked && !fromDisk)
      .ok
        { written with
          pcoinsTip := acc.view.flush kept
          mempool := node.mempool.removeForBlock block.vtx
          chainActive := pindexNew }

/-- A transaction of a disconnected block goes back to the pool, or its
descendants leave it. -/
def resurrect (services : Services) (here : LocalState) (node : NodeState) (tx : CTransaction) :
    NodeState :=
  if tx.isCoinBase || tx.isCoinStake then { node with mempool := node.mempool.remove tx true }
  else match acceptToMemoryPool services here node tx with
    | .ok pool => { node with mempool := pool }
    | .error _ => { node with mempool := node.mempool.remove tx true }

/-- `DisconnectTip`, with the node it leaves in any case. A block whose undo
data did not fit fails as well. -/
def disconnectTip (services : Services) (here : LocalState) (kept : Uint256 → Bool)
    (node : NodeState) : NodeState × Validated Unit :=
  match node.chainActive with
  | [] => (node, .error .assertion)
  | block :: pprev =>
    match disconnectBlock services node block pprev node.pcoinsTip with
    | (db, .error failure) => ({ node with zerocoinDB := db }, .error failure)
    | (db, .ok (view, fClean)) =>
      if !fClean then ({ node with zerocoinDB := db }, refuse)
      else
        let flushed := { node with zerocoinDB := db, pcoinsTip := view.flush kept }
        let resurrected := block.vtx.foldl (resurrect services here) flushed
        ({ resurrected with
            mempool := resurrected.mempool.removeCoinbaseSpends services.params
              flushed.pcoinsTip node.chainActive.nHeight
            chainActive := pprev }, .ok ())

inductive Event
  | connectTip (here : LocalState) (kept : Uint256 → Bool) (pindexNew : CBlockIndex)
      (fromDisk fAlreadyChecked : Bool)
  | disconnectTip (here : LocalState) (kept : Uint256 → Bool)
  | acceptToMemoryPool (here : LocalState) (tx : CTransaction)

def step (services : Services) (node : NodeState) : Event → Option NodeState
  | .connectTip here kept pindexNew fromDisk fAlreadyChecked =>
    (connectTip services here kept node pindexNew fromDisk fAlreadyChecked).toOption
  | .disconnectTip here kept =>
    match disconnectTip services here kept node with
    | (after, .ok ()) => some after
    | (_, .error _) => none
  | .acceptToMemoryPool here tx =>
    match acceptToMemoryPool services here node tx with
    | .ok pool => some { node with mempool := pool }
    | .error _ => none

/-- The block tree: each entry is filed under its hash, with its ancestors.
The genesis block has coinbases only. -/
structure BlockTree (params : CChainParams) (mapBlockIndex : Uint256 → Option CBlockIndex) :
    Prop where
  filed : ∀ hash pindex, mapBlockIndex hash = some pindex →
    pindex ≠ [] ∧ CBlockIndex.getBlockHash pindex = hash ∧ hash ≠ 0
  ancestors : ∀ hash block pprev, mapBlockIndex hash = some (block :: pprev) → pprev ≠ [] →
    mapBlockIndex (CBlockIndex.getBlockHash pprev) = some pprev
  genesis : ∀ hash block pprev, mapBlockIndex hash = some (block :: pprev) →
    block.hash = params.hashGenesisBlock → ∀ tx ∈ block.vtx, tx.isCoinBase = true

theorem BlockTree.suffix_filed {params : CChainParams}
    {mapBlockIndex : Uint256 → Option CBlockIndex} {chain pindex : CBlockIndex}
    (tree : BlockTree params mapBlockIndex)
    (active : chain ≠ [] → mapBlockIndex chain.getBlockHash = some chain)
    (suffix : pindex <:+ chain) (present : pindex ≠ []) :
    mapBlockIndex pindex.getBlockHash = some pindex := by
  obtain ⟨newer, whole⟩ := suffix
  induction newer generalizing chain with
  | nil =>
    subst whole
    exact active present
  | cons block rest ih =>
    subst whole
    have nonempty : rest ++ pindex ≠ [] := by simp [present]
    have filed := active (by simp)
    exact ih (fun _ => tree.ancestors _ block (rest ++ pindex) filed nonempty) rfl

def fileEntries (entries : List CBlockIndex) (hash : Uint256) : Option CBlockIndex :=
  entries.find? fun pindex => pindex.getBlockHash == hash

def entriesFiled (params : CChainParams) (entries : List CBlockIndex) : Bool :=
  entries.all fun pindex =>
    match pindex with
    | [] => false
    | block :: pprev =>
      block.hash != 0 &&
      (pprev.isEmpty || fileEntries entries (CBlockIndex.getBlockHash pprev) == some pprev) &&
      (block.hash != params.hashGenesisBlock || block.vtx.all CTransaction.isCoinBase)

theorem fileEntries_tree (params : CChainParams) (entries : List CBlockIndex)
    (filed : entriesFiled params entries = true) :
    BlockTree params (fileEntries entries) := by
  have found : ∀ hash pindex, fileEntries entries hash = some pindex →
      pindex ∈ entries ∧ CBlockIndex.getBlockHash pindex = hash := by
    intro hash pindex entry
    have same := List.find?_some entry
    exact ⟨List.mem_of_find?_eq_some entry, by simpa using same⟩
  have each := List.all_eq_true.mp filed
  have shape : ∀ hash block pprev, fileEntries entries hash = some (block :: pprev) →
      block.hash = hash ∧ block.hash ≠ 0 ∧
      (pprev ≠ [] → fileEntries entries (CBlockIndex.getBlockHash pprev) = some pprev) ∧
      (block.hash = params.hashGenesisBlock → ∀ tx ∈ block.vtx, tx.isCoinBase = true) := by
    intro hash block pprev entry
    have parts := each _ (found hash _ entry).1
    simp only [Bool.and_eq_true, Bool.or_eq_true, bne_iff_ne, ne_eq, List.isEmpty_iff,
      beq_iff_eq, List.all_eq_true] at parts
    refine ⟨(found hash _ entry).2, parts.1.1, fun present => ?_, fun isGenesis => ?_⟩
    · exact parts.1.2.resolve_left present
    · exact parts.2.resolve_left fun other => other isGenesis
  exact
    { filed := by
        intro hash pindex entry
        cases pindex with
        | nil => exact absurd (each _ (found hash _ entry).1) (by simp)
        | cons block pprev =>
          have parts := shape hash block pprev entry
          exact ⟨by simp, parts.1, parts.1 ▸ parts.2.1⟩
      ancestors := fun hash block pprev entry => (shape hash block pprev entry).2.2.1
      genesis := fun hash block pprev entry => (shape hash block pprev entry).2.2.2 }

section Specifications

variable (services : Services) (here : LocalState) (kept : Uint256 → Bool) (node after : NodeState)

structure Accepted (tx : CTransaction) : Prop where
  absent : node.mempool.contains tx.hash = false
  notCoinBase : tx.isCoinBase = false
  notCoinStake : tx.isCoinStake = false
  zerocoin : tx.hasZerocoinSpendInputs = true → isTransactionInChain node tx.hash = none ∧
    ∀ txin ∈ tx.vin, acceptSpend services node tx txin = .ok ()
  ordinary : tx.hasZerocoinSpendInputs = false →
    (∀ txin ∈ tx.vin, node.mempool.mapNextTx txin.prevout = none) ∧
    (∃ nValueIn, acceptOrdinary services node (node.mempool.viewMemPool node.pcoinsTip) tx =
      .ok nValueIn) ∧
    acceptScripts services node (node.mempool.viewMemPool node.pcoinsTip) tx = .ok ()

theorem forM_ok {α : Type} (check : α → Validated Unit) (list : List α)
    (passed : list.forM check = .ok ()) (element : α) (member : element ∈ list) :
    check element = .ok () := by
  induction list with
  | nil => cases member
  | cons first rest ih =>
    have unfolded : (check first >>= fun _ => rest.forM check) = .ok () := passed
    rw [bind_eq_ok] at unfolded
    obtain ⟨_, here, later⟩ := unfolded
    obtain same | inRest := mem_cons.mp member
    · exact same ▸ here
    · exact ih later inRest

theorem acceptToMemoryPool_ok (tx : CTransaction) (pool : CTxMemPool)
    (accepted : acceptToMemoryPool services here node tx = .ok pool) :
    pool = node.mempool.addUnchecked tx ∧ Accepted services node tx := by
  unfold acceptToMemoryPool at accepted
  simp only [bind_eq_ok, dos, refuse, require_eq_ok, onlyIf_eq_ok, orDos_eq_ok,
    exists_and_left, exists_const] at accepted
  rcases accepted with ⟨_, _, _, notCoinBase, notCoinStake, _, _, absent, _, unspent, nValueIn,
    branch, _, _, _, _, _, _, _, _, scripts, result⟩
  cases result
  refine ⟨rfl, by simpa using absent, by simpa using notCoinBase, by simpa using notCoinStake,
    ?_, ?_⟩
  · intro zerocoin
    rw [if_pos zerocoin] at branch
    unfold acceptZerocoin at branch
    simp only [bind_eq_ok, dos, require_eq_ok, exists_and_left, exists_const] at branch
    obtain ⟨notInChain, _, loop, _⟩ := branch
    exact ⟨by simpa using notInChain, forM_ok _ tx.vin loop⟩
  · intro ordinary
    rw [if_neg (by simp [ordinary])] at branch
    have isOrdinary : (!tx.hasZerocoinSpendInputs) = true := by simp [ordinary]
    exact ⟨by simpa using unspent isOrdinary, ⟨nValueIn, branch⟩, scripts isOrdinary⟩

variable (pindexNew : CBlockIndex) (fromDisk fAlreadyChecked : Bool)

theorem connectTip_ok (connected : connectTip services here kept node pindexNew fromDisk fAlreadyChecked =
      .ok after) :
    ∃ block acc written, pindexNew = block :: node.chainActive ∧
      connectBlock services here node block node.chainActive node.pcoinsTip false
        (fAlreadyChecked && !fromDisk) = .ok (acc, written) ∧
      after =
        { written with
          pcoinsTip := acc.view.flush kept
          mempool := node.mempool.removeForBlock block.vtx
          chainActive := pindexNew } := by
  unfold connectTip at connected
  cases pindexNew with
  | nil => cases connected
  | cons block pprev =>
    simp only [bind_eq_ok, require_eq_ok, exists_and_left, exists_const] at connected
    obtain ⟨atTip, ⟨acc, written⟩, connects, result⟩ := connected
    have same : pprev = node.chainActive := by simpa using atTip
    subst same
    exact ⟨block, acc, written, rfl, connects, (Except.ok.inj result).symm⟩

theorem resurrects_ok (vtx : List CTransaction) :
    ∃ pool, vtx.foldl (resurrect services here) node = { node with mempool := pool } ∧
      ∀ tx ∈ pool.mapTx, tx ∈ node.mempool.mapTx ∨ tx ∈ vtx := by
  induction vtx generalizing node with
  | nil => exact ⟨node.mempool, rfl, fun tx member => Or.inl member⟩
  | cons first rest ih =>
    have one : ∃ pool, resurrect services here node first = { node with mempool := pool } ∧
        ∀ tx ∈ pool.mapTx, tx ∈ node.mempool.mapTx ∨ tx = first := by
      unfold resurrect
      split_ifs
      · exact ⟨_, rfl, fun tx member => Or.inl (CTxMemPool.remove_subset _ _ _ member)⟩
      · split
        · rename_i pool accepted
          refine ⟨pool, rfl, fun tx member => ?_⟩
          rw [(acceptToMemoryPool_ok services here node first pool accepted).1] at member
          obtain old | new := mem_append.mp member
          · exact Or.inl (mem_of_mem_filter old)
          · exact Or.inr (mem_singleton.mp new)
        · exact ⟨_, rfl, fun tx member => Or.inl (CTxMemPool.remove_subset _ _ _ member)⟩
    obtain ⟨pool, changed, members⟩ := one
    rw [foldl_cons, changed]
    rcases ih { node with mempool := pool } with ⟨last, result, others⟩
    refine ⟨last, result, fun tx member => ?_⟩
    obtain before | later := others tx member
    · obtain old | new := members tx before
      · exact Or.inl old
      · exact Or.inr (mem_cons.mpr (Or.inl new))
    · exact Or.inr (mem_cons_of_mem _ later)

theorem disconnectTip_ok (disconnected : disconnectTip services here kept node = (after, .ok ())) :
    ∃ block pprev db view resurrected, node.chainActive = block :: pprev ∧
      disconnectBlock services node block pprev node.pcoinsTip = (db, .ok (view, true)) ∧
      resurrected = block.vtx.foldl (resurrect services here)
        { node with zerocoinDB := db, pcoinsTip := view.flush kept } ∧
      after =
        { resurrected with
          mempool := resurrected.mempool.removeCoinbaseSpends services.params (view.flush kept)
            node.chainActive.nHeight
          chainActive := pprev } := by
  unfold disconnectTip at disconnected
  split at disconnected
  · cases disconnected
  · rename_i block pprev tip
    split at disconnected
    · cases disconnected
    · rename_i db view fClean undone
      split_ifs at disconnected with unclean
      · cases disconnected
      · have clean : fClean = true := by simpa using unclean
        subst clean
        exact ⟨block, pprev, db, view, _, tip, undone, rfl, (Prod.mk.inj disconnected).1.symm⟩

theorem connectTip_of_step (taken : step services node (.connectTip here kept pindexNew fromDisk fAlreadyChecked) =
      some after) :
    connectTip services here kept node pindexNew fromDisk fAlreadyChecked = .ok after := by
  simp only [step] at taken
  cases outcome : connectTip services here kept node pindexNew fromDisk fAlreadyChecked with
  | error failure => rw [outcome] at taken; cases taken
  | ok last => rw [outcome] at taken; cases taken; rfl

end Specifications

end ZenonCore.ChainTip
