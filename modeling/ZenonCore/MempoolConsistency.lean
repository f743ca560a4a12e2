import ZenonCore.ChainTip
import ZenonCore.Library.Runs
import ZenonCore.PoolInvariant
import ZenonCore.ValueGate

/-!
# The memory pool and the chain

Every ordinary input of the pool has its output, nobody else's, and none immature. Zerocoin
inputs are in no index.
-/

namespace ZenonCore.MempoolConsistency

open Script Primitives ChainParams Coins List Option
open Mempool Chain Validation Zerocoin Chainstate
open CheckBlock ConnectBlock DisconnectBlock ChainTip
open UnspentOutputs PoolInvariant Library.Runs ValueGate

structure Knows (known : Set CTransaction) (node : NodeState) : Prop where
  pool : ∀ tx ∈ node.mempool.mapTx, tx ∈ known
  index : ∀ hash hashBlock tx, node.txIndex hash = some (hashBlock, tx) → tx ∈ known
  chain : ∀ block ∈ node.chainActive, ∀ tx ∈ block.vtx, tx ∈ known

section Acceptance

variable (services : Services) (known : Set CTransaction) (node : NodeState)

theorem getTransaction_known (knows : Knows known node) (hash : Uint256) (tx : CTransaction)
    (hashBlock : Uint256) (found : getTransaction node hash = some (tx, hashBlock)) :
    tx ∈ known ∧ tx.hash = hash := by
  unfold getTransaction at found
  cases pooled : node.mempool.lookup hash with
  | some other =>
    rw [pooled] at found
    cases found
    obtain ⟨member, same⟩ := CTxMemPool.lookup_some _ _ _ pooled
    exact ⟨knows.pool _ member, same⟩
  | none =>
    rw [pooled] at found
    dsimp only at found
    split_ifs at found with index
    · split at found
      · cases found
      · rename_i entry
        split_ifs at found with same
        cases found
        exact ⟨knows.index _ _ _ entry, same⟩
    · split at found
      · cases found
      · split_ifs at found
        split at found
        · cases found
        · rename_i block pprev atHeight
          rw [map_eq_some_iff] at found
          obtain ⟨other, isFound, same⟩ := found
          cases same
          have suffix := CBlockIndex.atHeight_suffix node.chainActive
          have member : block ∈ node.chainActive := by
            apply (suffix _).subset
            rw [atHeight]
            exact mem_cons_self
          have hash := find?_some isFound
          exact ⟨knows.chain block member _ (mem_of_find?_eq_some isFound),
            by simpa using hash⟩

theorem readSpend_source (knows : Knows known node) (tx : CTransaction) (txIn : CTxIn)
    (spend : Spend) (zerocoin : txIn.spendsZerocoin = true)
    (read : readSpend services node tx txIn = .ok spend) :
    txIn.prevout.hash = 0 ∨ txIn.isZerocoinPublicSpend = true ∧
      ∃ parent ∈ known, parent.hash = txIn.prevout.hash ∧
        ∃ txout, parent.vout[txIn.prevout.n.toNat]? = some txout ∧ txout.isZerocoinMint = true := by
  unfold readSpend at read
  split_ifs at read with isPublic
  · right
    refine ⟨isPublic, ?_⟩
    unfold parseZerocoinPublicSpend at read
    simp only [bind_eq_ok, orDos_eq_ok, ofFault_eq_ok, dos, ofOption_eq_ok] at read
    obtain ⟨_, ⟨prevOut, output, parsed, parsing, isSome⟩, _⟩ := read
    rw [isSome] at parsing
    have mint : prevOut.isZerocoinMint = true := by
      unfold parseCoinSpend at parsing
      split_ifs at parsing with refused
      · cases parsing
      · have both : txIn.isZerocoinPublicSpend = true ∧ prevOut.isZerocoinMint = true := by
          simpa using refused
        exact both.2
    unfold getOutput at output
    cases found : getTransaction node txIn.prevout.hash with
    | none => rw [found] at output; cases output
    | some entry =>
      obtain ⟨isKnown, same⟩ := getTransaction_known known node knows _ _ _ found
      rw [found] at output
      dsimp only at output
      split_ifs at output
      · cases output
      · split at output
        · cases output
        · rename_i txout listed
          cases output
          exact ⟨entry.1, isKnown, same, _, listed, mint⟩
  · left
    have isPrivate : txIn.isZerocoinSpend = true := by
      simpa [CTxIn.spendsZerocoin, isPublic] using zerocoin
    simp only [CTxIn.isZerocoinSpend, Bool.and_eq_true, beq_iff_eq] at isPrivate
    exact isPrivate.1

theorem acceptSpend_minted (knows : Knows known node) (tx : CTransaction) (txIn : CTxIn)
    (accepted : acceptSpend services node tx txIn = .ok ()) :
    txIn.spendsZerocoin = true ∧ Minted known txIn.prevout := by
  unfold acceptSpend at accepted
  simp only [bind_eq_ok, dos, require_eq_ok, exists_and_left, exists_const] at accepted
  obtain ⟨zerocoin, _, spend, read, _⟩ := accepted
  refine ⟨zerocoin, ?_⟩
  rcases readSpend_source services known node knows tx txIn spend zerocoin read with
    null | ⟨_, source⟩
  · exact Or.inl null
  · exact Or.inr source

theorem viewMemPool_hasOutput (pool : CTxMemPool) (base : CCoinsView) (outpoint : COutPoint)
    (offered : (pool.viewMemPool base).hasOutput outpoint = true) :
    Backed (fun outpoint => base.hasOutput outpoint = true) pool outpoint := by
  unfold CCoinsView.hasOutput CTxMemPool.viewMemPool at offered
  dsimp only at offered
  cases pooled : pool.lookup outpoint.hash with
  | some parent =>
    obtain ⟨member, hash⟩ := CTxMemPool.lookup_some _ _ _ pooled
    rw [pooled] at offered
    left
    refine ⟨parent, member, ?_⟩
    simp only [makes, hash, beq_self_eq_true, Bool.true_and]
    exact offered
  | none =>
    right
    rw [pooled] at offered
    dsimp only at offered
    unfold CCoinsView.hasOutput
    cases entry : base.coins outpoint.hash with
    | none => rw [entry] at offered; cases offered
    | some coins =>
      rw [entry] at offered
      cases pruned : coins.isPruned with
      | true => simp [Option.filter, pruned] at offered
      | false => simpa [Option.filter, pruned] using offered

variable (view : CCoinsView) (outpoint : COutPoint)

theorem haveCoins_of_hasOutput (output : view.hasOutput outpoint = true) : view.haveCoins outpoint.hash = true := by
  unfold CCoinsView.hasOutput at output
  unfold CCoinsView.haveCoins
  cases entry : view.coins outpoint.hash with
  | none => rw [entry] at output; cases output
  | some coins =>
    rw [entry] at output
    cases vout : coins.vout with
    | nil => simp [CCoins.isAvailable, vout] at output
    | cons first rest => simp [vout]

theorem not_pruned_of_hasOutput (output : view.hasOutput outpoint = true) (coins : CCoins)
    (entry : view.accessCoins outpoint.hash = some coins) : coins.isPruned = false := by
  have inView : view.coins outpoint.hash = some coins := entry
  rw [CCoinsView.hasOutput, inView] at output
  dsimp only [CCoins.isAvailable] at output
  split at output
  · cases output
  · rename_i txout listed
    have notNull : txout.isNull = false := by
      simp only [Bool.and_eq_true, Bool.not_eq_true'] at output
      exact output.1
    by_contra pruned
    have allNull : coins.isPruned = true := by simpa using pruned
    have null := all_eq_true.mp allNull txout (mem_of_getElem? listed)
    rw [notNull] at null
    cases null

theorem accepted_enters (knows : Knows known node) (chain : CBlockIndex)
    (chainKnown : ∀ block ∈ chain, ∀ tx ∈ block.vtx, tx ∈ known)
    (coins : CoinsCorrect services.params chain node.pcoinsTip)
    (tx : CTransaction) (isKnown : tx ∈ known) (accepted : Accepted services node tx) :
    Enters known node.mempool tx ∧
      TxBacked (fun outpoint => (unspentOutputs services.params chain outpoint).isSome = true)
        node.mempool tx := by
  have inputs : tx.hasZerocoinSpendInputs = false → ∀ txin ∈ tx.vin,
      Backed (fun outpoint => (unspentOutputs services.params chain outpoint).isSome = true)
        node.mempool txin.prevout ∧ txin.prevout.hash ≠ tx.hash := by
    intro ordinary txin input
    obtain ⟨nValueIn, branch⟩ := (accepted.ordinary ordinary).2.1
    unfold acceptOrdinary at branch
    simp only [bind_eq_ok, refuse, dos, require_eq_ok, exists_and_left, exists_const] at branch
    obtain ⟨absent, _, _, _, _, haveInputs, _⟩ := branch
    have output : (node.mempool.viewMemPool node.pcoinsTip).hasOutput txin.prevout = true := by
      unfold CCoinsView.haveInputs at haveInputs
      rw [if_pos (by simp [accepted.notCoinBase, ordinary])] at haveInputs
      exact all_eq_true.mp haveInputs txin input
    constructor
    · apply (viewMemPool_hasOutput _ _ _ output).mono
      intro outpoint outside
      rwa [coins.outputs] at outside
    · intro same
      have have_ := haveCoins_of_hasOutput _ _ output
      rw [same] at have_
      simp [have_] at absent
  constructor
  · exact
      { isKnown := isKnown
        notGenerated := ⟨accepted.notCoinBase, accepted.notCoinStake⟩
        absent := by
          have missing : node.mempool.lookup tx.hash = none := by
            simpa [CTxMemPool.contains] using accepted.absent
          exact (CTxMemPool.lookup_none _ _).mp missing
        zerocoin := fun zerocoin txin input =>
          acceptSpend_minted services known node knows tx txin
            ((accepted.zerocoin zerocoin).2 txin input)
        ordinary := by
          intro ordinary txin input
          refine ⟨?_, (inputs ordinary txin input).2, (accepted.ordinary ordinary).1 txin input⟩
          obtain ⟨parent, member, made⟩ | outside := (inputs ordinary txin input).1
          · exact ⟨parent, knows.pool parent member, made⟩
          · obtain ⟨⟨maker, nHeight⟩, entry⟩ := isSome_iff_exists.mp outside
            obtain ⟨⟨block, inChain, inBlock⟩, made, _⟩ := unspentOutputs_made _ _ _ _ _ entry
            exact ⟨maker, chainKnown block inChain maker inBlock, made⟩ }
  · exact fun ordinary txin input => (inputs ordinary txin input).1

theorem checkInputs_mature (tx : CTransaction) (inputs : CCoinsView) (nSpendHeight : Int)
    (scripts : Bool) (flags : UInt32) (pvChecks : Bool) (checks : List CScriptCheck)
    (notCoinBase : tx.isCoinBase = false) (ordinary : tx.hasZerocoinSpendInputs = false)
    (passed : checkInputs services tx inputs nSpendHeight scripts flags pvChecks = .ok checks)
    (txin : CTxIn) (input : txin ∈ tx.vin) (coins : CCoins)
    (entry : inputs.accessCoins txin.prevout.hash = some coins)
    (generated : coins.isGenerated = true) :
    services.params.nMaturity ≤ nSpendHeight - coins.nHeight := by
  unfold checkInputs at passed
  rw [if_pos (by simp [notCoinBase, ordinary])] at passed
  simp only [bind_eq_ok, dos, require_eq_ok, exists_and_left, exists_const] at passed
  obtain ⟨_, nValueIn, values, _⟩ := passed
  have loop : ∀ (vin : List CTxIn) (before after : CAmount),
      vin.foldlM (checkInputValue services.params inputs nSpendHeight) before = .ok after →
      txin ∈ vin → services.params.nMaturity ≤ nSpendHeight - coins.nHeight := by
    intro vin
    induction vin with
    | nil => exact fun _ _ _ absent => absurd absent not_mem_nil
    | cons first rest ih =>
      intro before after folded member
      rw [foldlM_cons, bind_eq_ok] at folded
      obtain ⟨next, taken, later⟩ := folded
      obtain here | inRest := mem_cons.mp member
      · subst here
        unfold checkInputValue at taken
        simp only [bind_eq_ok, dos, ofOption_eq_ok, require_eq_ok, entry, some.injEq,
          exists_eq_left', exists_and_left, exists_const] at taken
        simpa [generated] using taken.1
      · exact ih next after later inRest
  exact loop tx.vin 0 nValueIn values input

end Acceptance

section Invariant

variable (services : Services) (known : Set CTransaction) (node after : NodeState)

def InChain (params : CChainParams) (chain : CBlockIndex) (outpoint : COutPoint) : Prop :=
  (unspentOutputs params chain outpoint).isSome = true

/-- No ordinary input of the pool spends coins of the chain that would be
immature in the next block. -/
def Mature (params : CChainParams) (chain : CBlockIndex) (pool : CTxMemPool) : Prop :=
  ∀ tx ∈ pool.mapTx, tx.hasZerocoinSpendInputs = false → ∀ txin ∈ tx.vin, ∀ maker nHeight,
    unspentOutputs params chain txin.prevout = some (maker, nHeight) →
    (maker.isCoinBase || maker.isCoinStake) = true →
      params.nMaturity ≤ chain.nHeight + 1 - nHeight

structure Consistent : Prop where
  tree : BlockTree services.params node.mapBlockIndex
  active : node.chainActive ≠ [] →
    node.mapBlockIndex node.chainActive.getBlockHash = some node.chainActive
  bounded : node.chainActive.nHeight < 2 ^ 31
  knows : Knows known node
  coins : CoinsCorrect services.params node.chainActive node.pcoinsTip
  sound : Sound known (InChain services.params node.chainActive) node.mempool
  mature : Mature services.params node.chainActive node.mempool

/-- What the callers of a step promise: transactions that occur, and a tip in the block tree with an
`int` height and neither of the two that may overwrite. -/
def Promised (known : Set CTransaction) (node : NodeState) : Event → Prop
  | .connectTip _ _ pindexNew _ _ =>
    node.mapBlockIndex pindexNew.getBlockHash = some pindexNew ∧ pindexNew.nHeight < 2 ^ 31 ∧
    ∀ block pprev, pindexNew = block :: pprev →
      (∀ tx ∈ block.vtx, tx ∈ known) ∧ bip30Exempt pindexNew.nHeight block.hash = false
  | .disconnectTip _ _ => True
  | .acceptToMemoryPool _ tx => tx ∈ known

/-- The coins views are correct: the step leaves the coins of its chain. -/
def ViewsCorrect (services : Services) (node : NodeState) (event : Event) : Prop :=
  ∀ after, step services node event = some after →
    CoinsCorrect services.params after.chainActive after.pcoinsTip

/-- A transaction with an unspent output and the hash of one of the pool is in the pool, so it was
not generated. -/
theorem pooled_not_generated (hashes : HashesDistinct known) (pool : CTxMemPool)
    (wellFormed : WellFormed known pool) (chain : CBlockIndex)
    (chainKnown : ∀ block ∈ chain, ∀ tx ∈ block.vtx, tx ∈ known) (outpoint : COutPoint)
    (maker parent : CTransaction) (nHeight : Int)
    (entry : unspentOutputs services.params chain outpoint = some (maker, nHeight))
    (member : parent ∈ pool.mapTx) (same : parent.hash = outpoint.hash) :
    (maker.isCoinBase || maker.isCoinStake) = false := by
  obtain ⟨⟨block, inChain, inBlock⟩, made, _⟩ := unspentOutputs_made _ _ _ _ _ entry
  have hash := makes_hash maker outpoint made
  have isMaker := wellFormed.by_hash hashes parent maker member
    (chainKnown block inChain maker inBlock) (same.trans hash.symm)
  rw [← isMaker]
  simp [wellFormed.notGenerated parent member]

theorem acceptToMemoryPool_consistent (hashes : HashesDistinct known)
    (consistent : Consistent services known node) (here : LocalState) (tx : CTransaction)
    (isKnown : tx ∈ known) (pool : CTxMemPool)
    (entered : acceptToMemoryPool services here node tx = .ok pool) :
    Consistent services known { node with mempool := pool } := by
  obtain ⟨result, accepted⟩ := acceptToMemoryPool_ok services here node tx pool entered
  have knows := consistent.knows
  rcases accepted_enters services known node knows node.chainActive knows.chain consistent.coins tx
    isKnown accepted with ⟨enters, inputs⟩
  have wellFormed := addUnchecked_wellFormed known node.mempool consistent.sound.wellFormed tx enters
  rw [← result] at wellFormed
  exact
    { tree := consistent.tree
      active := consistent.active
      bounded := consistent.bounded
      knows := { pool := wellFormed.isKnown, index := knows.index, chain := knows.chain }
      coins := consistent.coins
      sound :=
        { wellFormed := wellFormed
          backed := by
            rw [result]
            apply addUnchecked_backed _ node.mempool tx enters.absent _ inputs
            exact consistent.sound.backed.mono fun outpoint => Or.inl }
      mature := by
        intro other member ordinary txin input maker nHeight entry generated
        rw [result] at member
        obtain ⟨old, _⟩ | new := (mem_addUnchecked node.mempool tx other).mp member
        · exact consistent.mature other old ordinary txin input maker nHeight entry generated
        · subst new
          have scripts := (accepted.ordinary ordinary).2.2
          unfold acceptScripts nSpendHeight at scripts
          simp only [bind_eq_ok, ofOption_eq_ok, map_eq_some_iff] at scripts
          obtain ⟨height, ⟨pindexPrev, filed, next⟩, checks, passed, _⟩ := scripts
          have missed : node.mempool.lookup txin.prevout.hash = none := by
            rw [CTxMemPool.lookup_none]
            intro parent inPool same
            have ungenerated := pooled_not_generated services known hashes node.mempool
              consistent.sound.wellFormed node.chainActive knows.chain txin.prevout maker parent
              nHeight entry inPool same
            rw [generated] at ungenerated
            cases ungenerated
          rcases consistent.coins.entries txin.prevout maker nHeight entry with
            ⟨coins, found, atHeight, flag⟩
          have output : node.pcoinsTip.hasOutput txin.prevout = true := by
            rw [consistent.coins.outputs, entry]
            rfl
          have kept : (node.mempool.viewMemPool node.pcoinsTip).accessCoins txin.prevout.hash =
              some coins := by
            have unpruned := not_pruned_of_hasOutput node.pcoinsTip txin.prevout output coins found
            have inBase : node.pcoinsTip.coins txin.prevout.hash = some coins := found
            simp [CCoinsView.accessCoins, CTxMemPool.viewMemPool, missed, inBase, Option.filter,
              unpruned]
          have isTip : pindexPrev = node.chainActive := by
            have best : node.mapBlockIndex node.chainActive.getBlockHash = some pindexPrev := by
              rw [← consistent.coins.bestBlock]
              exact filed
            by_cases empty : node.chainActive = []
            · rw [empty] at best
              exact absurd rfl (consistent.tree.filed _ _ best).2.2
            · rw [consistent.active empty] at best
              exact (some.inj best).symm
          have mature := checkInputs_mature services other _ height _ _ _ checks
            accepted.notCoinBase ordinary passed txin input coins kept (flag.trans generated)
          rw [atHeight, ← next, isTip] at mature
          exact mature }

theorem connected_node (here : LocalState) (block : CBlock) (pprev : CBlockIndex)
    (view : CCoinsView) (fAlreadyChecked : Bool) (acc : Connecting) (written : NodeState)
    (connected : connectBlock services here node block pprev view false fAlreadyChecked =
      .ok (acc, written)) :
    written.mapBlockIndex = node.mapBlockIndex ∧
    (∀ hash hashBlock tx, written.txIndex hash = some (hashBlock, tx) →
      node.txIndex hash = some (hashBlock, tx) ∨ tx ∈ block.vtx) ∧
    (block.hash ≠ services.params.hashGenesisBlock →
      bip30Exempt (pprev.nHeight + 1) block.hash = false → overwritesNothing view block = true) := by
  rcases (connectBlock_ok services here node block pprev view false fAlreadyChecked acc written
    connected).2.2 with ⟨isGenesis, _, same⟩ | ⟨_, overwrites, last, _, result⟩
  · rw [same]
    exact ⟨rfl, fun _ _ _ entry => Or.inl entry, fun other => absurd isGenesis other⟩
  · rw [if_neg (by simp)] at result
    rw [(Prod.mk.inj result).2]
    refine ⟨rfl, ?_, fun _ exempt => overwrites (by simp [exempt])⟩
    intro hash hashBlock tx entry
    simp only [writeBlock] at entry
    split_ifs at entry
    · rcases indexBlock_entry block.hash block.vtx node.txIndex hash with
        ⟨_, same⟩ | ⟨other, member, _, mine⟩
      · exact Or.inl (same ▸ entry)
      · rw [mine] at entry
        cases entry
        exact Or.inr member
    · exact Or.inl entry

theorem not_overwritten (params : CChainParams) (chain : CBlockIndex) (view : CCoinsView)
    (coins : CoinsCorrect params chain view) (block : CBlock)
    (overwrites : overwritesNothing view block = true) (outpoint : COutPoint)
    (inChain : InChain params chain outpoint) (tx : CTransaction) (member : tx ∈ block.vtx) :
    tx.hash ≠ outpoint.hash := by
  intro same
  obtain ⟨⟨maker, nHeight⟩, entry⟩ := isSome_iff_exists.mp inChain
  obtain ⟨found, present, _⟩ := coins.entries outpoint maker nHeight entry
  have output : view.hasOutput outpoint = true := by
    rw [coins.outputs]
    exact inChain
  have unpruned := not_pruned_of_hasOutput view outpoint output found present
  have checked := all_eq_true.mp overwrites tx member
  rw [same, present] at checked
  exact absurd checked (by simp [unpruned])

/-- No input of the pool is spent by the block, so what had its output before has it in the longer
chain. -/
theorem connected_backed (params : CChainParams) (hashes : HashesDistinct known) (block : CBlock)
    (pprev : CBlockIndex) (blockKnown : ∀ tx ∈ block.vtx, tx ∈ known)
    (genesis : block.hash = params.hashGenesisBlock → ∀ tx ∈ block.vtx, tx.isCoinBase = true)
    (overwritten : block.hash ≠ params.hashGenesisBlock → ∀ outpoint,
      InChain params pprev outpoint → ∀ tx ∈ block.vtx, tx.hash ≠ outpoint.hash)
    (pool : CTxMemPool)
    (backed : AllBacked (fun outpoint => InChain params pprev outpoint ∨
      ∃ tx ∈ block.vtx, Releases tx outpoint) pool)
    (untouched : ∀ tx ∈ block.vtx, ∀ txin ∈ tx.vin, Untouched pool txin.prevout) :
    AllBacked (InChain params (block :: pprev)) pool := by
  intro tx member ordinary txin input
  have unspent : ∀ other ∈ block.vtx, spends other txin.prevout = false := by
    intro other inBlock
    by_contra spent
    simp only [spends, Bool.not_eq_false, Bool.and_eq_true, List.any_eq_true, beq_iff_eq] at spent
    obtain ⟨own, ownInput, same⟩ := spent.2
    exact untouched other inBlock own ownInput tx member ordinary txin input same.symm
  obtain inside | outside | ⟨maker, inBlock, made, plain⟩ := backed tx member ordinary txin input
  · exact Or.inl inside
  · right
    rw [InChain, unspentOutputs, applyBlock]
    split_ifs with isGenesis
    · exact outside
    · rw [applyTransactions_kept]
      · exact outside
      · exact fun other inBlock =>
          ⟨overwritten isGenesis _ outside other inBlock, unspent other inBlock⟩
  · right
    rw [InChain, unspentOutputs, applyBlock]
    split_ifs with isGenesis
    · rw [genesis isGenesis maker inBlock] at plain
      exact absurd plain.1 (by simp)
    · rw [applyTransactions_made _ _ _ _ maker inBlock made _ unspent]
      · rfl
      · exact fun other otherIn same =>
          hashes.injective (blockKnown other otherIn) (blockKnown maker inBlock) same

theorem connected_mature (hashes : HashesDistinct known) (block : CBlock) (pprev : CBlockIndex)
    (allKnown : ∀ other ∈ block :: pprev, ∀ tx ∈ other.vtx, tx ∈ known)
    (overwritten : block.hash ≠ services.params.hashGenesisBlock → ∀ outpoint,
      InChain services.params pprev outpoint → ∀ tx ∈ block.vtx, tx.hash ≠ outpoint.hash)
    (before pool : CTxMemPool) (subset : pool.mapTx ⊆ before.mapTx)
    (sound : Sound known (fun outpoint => InChain services.params pprev outpoint ∨
      ∃ tx ∈ block.vtx, Releases tx outpoint) pool)
    (mature : Mature services.params pprev before) :
    Mature services.params (block :: pprev) pool := by
  intro tx member ordinary txin input maker nHeight entry generated
  have older : unspentOutputs services.params pprev txin.prevout = some (maker, nHeight) →
      services.params.nMaturity ≤ CBlockIndex.nHeight (block :: pprev) + 1 - nHeight := by
    intro earlier
    have enough := mature tx (subset member) ordinary txin input maker nHeight earlier generated
    rw [CBlockIndex.nHeight_cons]
    omega
  have made := (unspentOutputs_made _ _ _ _ _ entry).2.1
  have whole := entry
  rw [unspentOutputs, applyBlock] at entry
  split_ifs at entry with isGenesis
  · exact older entry
  · obtain ⟨inBlock, _, _⟩ | ⟨_, earlier⟩ := applyTransactions_some _ _ _ _ _ _ entry
    · -- the block made it: the input had it from the pool, or it was overwritten
      exfalso
      have hash := makes_hash maker txin.prevout made
      rcases sound.backed tx member ordinary txin input with
        ⟨parent, parentIn, made⟩ | outside | ⟨other, otherIn, made, plain⟩
      · have ungenerated := pooled_not_generated services known hashes pool sound.wellFormed
          (block :: pprev) allKnown txin.prevout maker parent nHeight whole parentIn
          (makes_hash parent txin.prevout made)
        rw [generated] at ungenerated
        cases ungenerated
      · exact overwritten isGenesis _ outside maker inBlock hash
      · have isMaker : other = maker := by
          apply hashes.injective (allKnown block mem_cons_self other otherIn)
            (allKnown block mem_cons_self maker inBlock)
          exact (makes_hash other txin.prevout made).trans hash.symm
        rw [isMaker] at plain
        simp [plain] at generated
    · exact older earlier

theorem connectTip_consistent (hashes : HashesDistinct known)
    (consistent : Consistent services known node) (here : LocalState) (kept : Uint256 → Bool)
    (pindexNew : CBlockIndex) (fromDisk fAlreadyChecked : Bool)
    (promised : Promised known node (.connectTip here kept pindexNew fromDisk fAlreadyChecked))
    (connected : connectTip services here kept node pindexNew fromDisk fAlreadyChecked = .ok after)
    (correct : CoinsCorrect services.params after.chainActive after.pcoinsTip) :
    Consistent services known after := by
  rcases connectTip_ok services here kept node after pindexNew fromDisk fAlreadyChecked connected
    with ⟨block, acc, written, tip, connects, result⟩
  subst tip
  obtain ⟨filed, bounded, promised⟩ := promised
  obtain ⟨blockKnown, exempt⟩ := promised block node.chainActive rfl
  rcases connected_node services node here block _ _ _ acc written connects with
    ⟨sameTree, index, overwrites⟩
  have genesis := consistent.tree.genesis _ block node.chainActive filed
  have overwritten : block.hash ≠ services.params.hashGenesisBlock →
      ∀ outpoint, InChain services.params node.chainActive outpoint → ∀ tx ∈ block.vtx,
        tx.hash ≠ outpoint.hash := fun other outpoint =>
    not_overwritten services.params node.chainActive node.pcoinsTip consistent.coins block
      (overwrites other (by simpa using exempt)) outpoint
  rcases removeForBlock_sound known _ node.mempool hashes block.vtx blockKnown consistent.sound with
    ⟨shrunk, untouched⟩
  have subset := CTxMemPool.removeForBlock_subset node.mempool block.vtx
  have allKnown : ∀ other ∈ block :: node.chainActive, ∀ tx ∈ other.vtx, tx ∈ known :=
    forall_mem_cons.mpr ⟨blockKnown, consistent.knows.chain⟩
  subst result
  exact
    { tree := by
        simp only [sameTree]
        exact consistent.tree
      active := by
        intro _
        simp only [sameTree]
        exact filed
      bounded := bounded
      knows :=
        { pool := shrunk.wellFormed.isKnown
          index := by
            intro hash hashBlock tx entry
            obtain old | new := index hash hashBlock tx entry
            · exact consistent.knows.index hash hashBlock tx old
            · exact blockKnown tx new
          chain := allKnown }
      coins := correct
      sound :=
        { wellFormed := shrunk.wellFormed
          backed := connected_backed known services.params hashes block node.chainActive
            blockKnown genesis overwritten _ shrunk.backed untouched }
      mature := connected_mature services known hashes block node.chainActive allKnown
        overwritten node.mempool _ subset shrunk consistent.mature }

/-- The transactions of a disconnected block go back to the pool or leave with their descendants;
what those to come make is a source from outside. -/
theorem resurrects_sound (hashes : HashesDistinct known) (here : LocalState) (chain : CBlockIndex)
    (coins : CoinsCorrect services.params chain node.pcoinsTip)
    (chainKnown : ∀ block ∈ chain, ∀ tx ∈ block.vtx, tx ∈ known) (knows : Knows known node)
    (vtx : List CTransaction) (areKnown : ∀ tx ∈ vtx, tx ∈ known)
    (sound : Sound known (fun outpoint => InChain services.params chain outpoint ∨
      ∃ tx ∈ vtx, makes tx outpoint = true) node.mempool) :
    Sound known (InChain services.params chain)
      (vtx.foldl (resurrect services here) node).mempool := by
  induction vtx generalizing node with
  | nil =>
    refine ⟨sound.wellFormed, sound.backed.mono fun outpoint outside => ?_⟩
    exact outside.resolve_right (by simp)
  | cons first rest ih =>
    obtain ⟨firstKnown, restKnown⟩ := forall_mem_cons.mp areKnown
    have split : AllBacked (fun outpoint => (InChain services.params chain outpoint ∨
        ∃ tx ∈ rest, makes tx outpoint = true) ∨ makes first outpoint = true) node.mempool := by
      apply sound.backed.mono
      intro outpoint outside
      obtain inChain | ⟨tx, member, made⟩ := outside
      · exact Or.inl (Or.inl inChain)
      · obtain here | later := mem_cons.mp member
        · exact Or.inr (here ▸ made)
        · exact Or.inl (Or.inr ⟨tx, later, made⟩)
    have leaves : Sound known (fun outpoint => InChain services.params chain outpoint ∨
        ∃ tx ∈ rest, makes tx outpoint = true) (node.mempool.remove first true) :=
      { wellFormed := remove_wellFormed known node.mempool hashes sound.wellFormed first true
        backed := remove_recursive_source known _ node.mempool hashes sound.wellFormed first
          firstKnown split }
    have one : ∃ pool, resurrect services here node first = { node with mempool := pool } ∧
        Sound known (fun outpoint => InChain services.params chain outpoint ∨
          ∃ tx ∈ rest, makes tx outpoint = true) pool := by
      unfold resurrect
      split_ifs
      · exact ⟨_, rfl, leaves⟩
      · split
        · rename_i pool accepted
          obtain ⟨result, shown⟩ := acceptToMemoryPool_ok services here node first pool accepted
          rcases accepted_enters services known node knows chain chainKnown coins first firstKnown
            shown with ⟨enters, inputs⟩
          refine ⟨pool, rfl, ?_⟩
          rw [result]
          exact
            { wellFormed := addUnchecked_wellFormed known node.mempool sound.wellFormed first enters
              backed := by
                apply addUnchecked_backed _ node.mempool first enters.absent split
                exact fun ordinary txin input =>
                  (inputs ordinary txin input).mono fun outpoint => Or.inl }
        · exact ⟨_, rfl, leaves⟩
    obtain ⟨pool, changed, next⟩ := one
    rw [foldl_cons, changed]
    apply ih { node with mempool := pool } coins _ restKnown next
    exact { pool := next.wellFormed.isKnown, index := knows.index, chain := knows.chain }

theorem remaining_mature (hashes : HashesDistinct known) (chain : CBlockIndex)
    (bounded : chain.nHeight + 1 < 2 ^ 31) (maturity : services.params.nMaturity < 2 ^ 32)
    (chainKnown : ∀ block ∈ chain, ∀ tx ∈ block.vtx, tx ∈ known) (view : CCoinsView)
    (coins : CoinsCorrect services.params chain view) (before pool : CTxMemPool)
    (wellFormed : WellFormed known before)
    (remains : ∀ tx ∈ pool.mapTx, ∀ txin ∈ tx.vin,
      before.spendsImmature services.params view (chain.nHeight + 1) txin = false) :
    Mature services.params chain pool := by
  intro tx member ordinary txin input maker nHeight entry generated
  have passes := remains tx member txin input
  obtain ⟨_, _, low, high⟩ := unspentOutputs_made _ _ _ _ _ entry
  unfold CTxMemPool.spendsImmature at passes
  split_ifs at passes with contained
  · exfalso
    obtain ⟨parent, found⟩ := isSome_iff_exists.mp contained
    obtain ⟨parentIn, same⟩ := CTxMemPool.lookup_some _ _ _ found
    have ungenerated := pooled_not_generated services known hashes before wellFormed chain
      chainKnown txin.prevout maker parent nHeight entry parentIn same
    rw [generated] at ungenerated
    cases ungenerated
  · obtain ⟨found, present, height, flag⟩ := coins.entries txin.prevout maker nHeight entry
    rw [present] at passes
    simp only [flag, generated, Bool.true_and, decide_eq_false_iff_not, height] at passes
    -- the difference is that of two heights, so the unsigned numbers do not wrap
    have difference : (chain.nHeight + 1 - nHeight) % 2 ^ 32 = chain.nHeight + 1 - nHeight := by
      apply Int.emod_eq_of_lt <;> omega
    rw [difference] at passes
    by_cases negative : services.params.nMaturity < 0
    · omega
    · have same : services.params.nMaturity % 2 ^ 32 = services.params.nMaturity := by
        apply Int.emod_eq_of_lt <;> omega
      omega

theorem disconnectTip_consistent (hashes : HashesDistinct known)
    (maturity : services.params.nMaturity < 2 ^ 32)
    (consistent : Consistent services known node) (here : LocalState) (kept : Uint256 → Bool)
    (disconnected : disconnectTip services here kept node = (after, .ok ()))
    (correct : CoinsCorrect services.params after.chainActive after.pcoinsTip) :
    Consistent services known after := by
  rcases disconnectTip_ok services here kept node after disconnected with
    ⟨block, pprev, db, view, resurrected, tip, undone, pools, result⟩
  have knows := consistent.knows
  have bounded := consistent.bounded
  have allKnown := knows.chain
  have sound := consistent.sound
  rw [tip] at allKnown sound
  rw [tip, CBlockIndex.nHeight_cons] at bounded
  obtain ⟨blockKnown, chainKnown⟩ := forall_mem_cons.mp allKnown
  rcases resurrects_ok services here { node with zerocoinDB := db, pcoinsTip := view.flush kept }
    block.vtx with ⟨pool, same, _⟩
  have flushed : CoinsCorrect services.params pprev (view.flush kept) := by
    rw [result, pools, same] at correct
    exact correct
  have back := resurrects_sound services known
    { node with zerocoinDB := db, pcoinsTip := view.flush kept } hashes here pprev flushed chainKnown
    { pool := knows.pool, index := knows.index, chain := knows.chain } block.vtx blockKnown
    { wellFormed := sound.wellFormed
      backed := sound.backed.mono fun outpoint =>
        unspentOutputs_pprev services.params block pprev outpoint }
  rw [same] at back pools
  rcases removeCoinbaseSpends_sound known _ pool hashes services.params (view.flush kept)
    node.chainActive.nHeight back with ⟨last, remains⟩
  subst pools
  have mature := remaining_mature services known hashes pprev (by omega) maturity chainKnown
    (view.flush kept) flushed pool
    (pool.removeCoinbaseSpends services.params (view.flush kept) node.chainActive.nHeight)
    back.wellFormed
  rw [tip, CBlockIndex.nHeight_cons] at remains mature
  subst result
  exact
    { tree := consistent.tree
      active := fun present =>
        consistent.tree.suffix_filed consistent.active ⟨[block], tip.symm⟩ present
      bounded := by
        change CBlockIndex.nHeight pprev < 2 ^ 31
        omega
      knows := { pool := last.wellFormed.isKnown, index := knows.index, chain := chainKnown }
      coins := correct
      sound := last
      mature := by
        rw [tip, CBlockIndex.nHeight_cons]
        exact mature remains }

theorem step_consistent (hashes : HashesDistinct known)
    (maturity : services.params.nMaturity < 2 ^ 32) (event : Event)
    (consistent : Consistent services known node) (promised : Promised known node event)
    (views : ViewsCorrect services node event) (taken : step services node event = some after) :
    Consistent services known after := by
  have correct := views after taken
  cases event with
  | connectTip here kept pindexNew fromDisk fAlreadyChecked =>
    have connected := connectTip_of_step services here kept node after pindexNew fromDisk
      fAlreadyChecked taken
    exact connectTip_consistent services known node after hashes consistent here kept pindexNew
      fromDisk fAlreadyChecked promised connected correct
  | disconnectTip here kept =>
    simp only [step] at taken
    split at taken
    · rename_i last disconnected
      cases taken
      exact disconnectTip_consistent services known node after hashes maturity consistent here
        kept disconnected correct
    · cases taken
  | acceptToMemoryPool here tx =>
    simp only [step] at taken
    split at taken
    · rename_i pool entered
      cases taken
      exact acceptToMemoryPool_consistent services known node hashes consistent here tx promised
        pool entered
    · cases taken

end Invariant

/-- No two transactions of the pool spend one outpoint, among the inputs that
count. -/
def SpendOnce (counts : CTxIn → Prop) (node : NodeState) : Prop :=
  ∀ tx ∈ node.mempool.mapTx, ∀ other ∈ node.mempool.mapTx, ∀ txin ∈ tx.vin, ∀ otherIn ∈ other.vin,
    counts txin → counts otherIn → txin.prevout = otherIn.prevout → tx = other

/-- No input of the pool that counts spends a coinbase or coinstake that would be immature in the
next block. -/
def SpendMature (params : CChainParams) (counts : CTxIn → Prop) (node : NodeState) : Prop :=
  ∀ tx ∈ node.mempool.mapTx, ∀ txin ∈ tx.vin, counts txin → ∀ coins (txout : CTxOut),
    node.pcoinsTip.accessCoins txin.prevout.hash = some coins →
    coins.vout[txin.prevout.n.toNat]? = some txout → txout.isNull = false →
    coins.isGenerated = true → params.nMaturity ≤ node.chainActive.nHeight + 1 - coins.nHeight

def Ordinary (txin : CTxIn) : Prop := txin.spendsZerocoin = false

/-- The pool is consistent with the chain, as far as some inputs go. -/
structure PoolConsistent (params : CChainParams) (counts : CTxIn → Prop) (node : NodeState) :
    Prop where
  available : ∀ tx ∈ node.mempool.mapTx, ∀ txin ∈ tx.vin, Ordinary txin →
    (∃ other ∈ node.mempool.mapTx, other ≠ tx ∧ other.hash = txin.prevout.hash ∧
      txin.prevout.n.toNat < other.vout.length) ∨
    node.pcoinsTip.hasOutput txin.prevout = true
  once : SpendOnce counts node
  mature : SpendMature params counts node

/-- A node with an empty pool, whose stores and views are those of its chain. -/
structure Fresh (services : Services) (known : Set CTransaction) (node : NodeState) : Prop where
  tree : BlockTree services.params node.mapBlockIndex
  active : node.chainActive ≠ [] →
    node.mapBlockIndex node.chainActive.getBlockHash = some node.chainActive
  bounded : node.chainActive.nHeight < 2 ^ 31
  index : ∀ hash hashBlock tx, node.txIndex hash = some (hashBlock, tx) → tx ∈ known
  chain : ∀ block ∈ node.chainActive, ∀ tx ∈ block.vtx, tx ∈ known
  coins : CoinsCorrect services.params node.chainActive node.pcoinsTip
  empty : node.mempool = CTxMemPool.empty

theorem Fresh.consistent {services : Services} {known : Set CTransaction} {node : NodeState}
    (fresh : Fresh services known node) : Consistent services known node := by
  have none : ∀ tx, tx ∉ node.mempool.mapTx := by
    intro tx
    rw [fresh.empty]
    exact not_mem_nil
  exact
    { tree := fresh.tree
      active := fresh.active
      bounded := fresh.bounded
      knows :=
        { pool := fun tx member => absurd member (none tx)
          index := fresh.index
          chain := fresh.chain }
      coins := fresh.coins
      sound :=
        { wellFormed :=
            { isKnown := fun tx member => absurd member (none tx)
              notGenerated := fun tx member => absurd member (none tx)
              zerocoin := fun tx member => absurd member (none tx)
              ordinary := fun tx member => absurd member (none tx)
              indexed := fun tx member => absurd member (none tx) }
          backed := fun tx member => absurd member (none tx) }
      mature := fun tx member => absurd member (none tx) }

theorem Consistent.poolConsistent {services : Services} {known : Set CTransaction}
    {node : NodeState} (consistent : Consistent services known node)
    (hashes : HashesDistinct known) : PoolConsistent services.params Ordinary node := by
  have wellFormed := consistent.sound.wellFormed
  have plain : ∀ tx ∈ node.mempool.mapTx, ∀ txin ∈ tx.vin, Ordinary txin →
      tx.hasZerocoinSpendInputs = false := by
    intro tx member txin input ordinary
    by_contra zerocoin
    have spends := (wellFormed.zerocoin tx member (by simpa using zerocoin) txin input).1
    rw [ordinary] at spends
    cases spends
  exact
    { available := by
        intro tx member txin input ordinary
        have isPlain := plain tx member txin input ordinary
        rcases consistent.sound.backed tx member isPlain txin input with
          ⟨parent, parentIn, made⟩ | outside
        · left
          have hash := makes_hash parent txin.prevout made
          obtain ⟨txout, listed, _⟩ := makes_output parent txin.prevout made
          refine ⟨parent, parentIn, ?_, hash, (List.getElem?_eq_some_iff.mp listed).1⟩
          intro same
          exact (wellFormed.ordinary tx member isPlain txin input).2 (same ▸ hash.symm)
        · right
          rw [consistent.coins.outputs]
          exact outside
      once := by
        intro tx member other otherMember txin input otherIn otherInput ordinary otherOrdinary same
        exact wellFormed.unique tx other member otherMember (plain tx member txin input ordinary)
          (plain other otherMember otherIn otherInput otherOrdinary) txin otherIn input otherInput
          same
      mature := by
        intro tx member txin input ordinary coins txout found listed notNull generated
        have isPlain := plain tx member txin input ordinary
        obtain ⟨maker, isKnown, made⟩ := (wellFormed.ordinary tx member isPlain txin input).1
        rcases consistent.coins.contents _ coins _ txout found listed notNull with
          ⟨block, inChain, creator, inBlock, hash, output⟩
        have isMaker : creator = maker := hashes.injective
          (consistent.knows.chain block inChain creator inBlock) isKnown
          (hash.trans (makes_hash maker txin.prevout made).symm)
        obtain ⟨same, madeOutput, notMint⟩ := makes_output maker txin.prevout made
        rw [isMaker, madeOutput] at output
        have spendable : node.pcoinsTip.hasOutput txin.prevout = true := by
          have entry : node.pcoinsTip.coins txin.prevout.hash = some coins := found
          rw [some.inj output] at notMint
          simp [CCoinsView.hasOutput, entry, CCoins.isAvailable, listed, notNull, notMint]
        rw [consistent.coins.outputs] at spendable
        obtain ⟨⟨origin, nHeight⟩, entry⟩ := isSome_iff_exists.mp spendable
        obtain ⟨others, present, height, flag⟩ := consistent.coins.entries _ origin nHeight entry
        rw [found] at present
        cases present
        rw [generated] at flag
        rw [height]
        exact consistent.mature tx member isPlain txin input origin nHeight entry flag.symm }

/-- After every run in which the coins views are correct the pool is
consistent with the chain, as far as ordinary inputs go. -/
theorem pool_consistent (services : Services) (known : Set CTransaction) (node last : NodeState)
    (events : List Event) (hashes : HashesDistinct known)
    (maturity : services.params.nMaturity < 2 ^ 32) (fresh : Fresh services known node)
    (promised : AllSteps (step services) (Promised known) node events)
    (views : AllSteps (step services) (ViewsCorrect services) node events)
    (reached : run (step services) node events = some last) :
    PoolConsistent services.params Ordinary last := by
  have consistent := invariant_of_guarded_run (step services) _ (Consistent services known)
    (fun state event next holds guard taken => step_consistent services known state next hashes
      maturity event holds guard.1 guard.2 taken)
    node last events fresh.consistent (all_steps_and _ _ _ node events promised views) reached
  exact consistent.poolConsistent hashes

def stakeMintTx : CTransaction where
  hash := 11
  nVersion := 1
  vin := [{ prevout := { hash := 9, n := 0 }, scriptSig := [], nSequence := 0xffffffff }]
  vout := [{ nValue := 0, scriptPubKey := [] },
    { nValue := 10 * coin, scriptPubKey := [0xc1, 0, 0, 0, 0, 0, 5] }]
  nLockTime := 0

/-- A transaction with one input, given by its outpoint and script, and one
output. -/
def simpleTx (hash : Uint256) (prevout : COutPoint) (scriptSig : CScript) (nValue : CAmount) :
    CTransaction where
  hash := hash
  nVersion := 1
  vin := [{ prevout := prevout, scriptSig := scriptSig, nSequence := 10 }]
  vout := [{ nValue := nValue, scriptPubKey := [op1] }]
  nLockTime := 0

def fundingTx : CTransaction := simpleTx 21 { hash := 9, n := 1 } [] (10 * coin)

def feeTx : CTransaction := simpleTx 22 { hash := 21, n := 0 } [] (9 * coin)

def publicSpend (hash : Uint256) : CTransaction :=
  simpleTx hash { hash := 11, n := 1 } [0xc3, 0, 0, 0] (10 * coin)

def fundedBlock : CBlock :=
  exampleBlock 101 mainParams.hashGenesisBlock 1600000000 [coinbaseTx 10, stakeMintTx, fundingTx]

def fundedChain : CBlockIndex := [fundedBlock, genesisBlock]

def fundedNode : NodeState :=
  { mintedNode with
    mapBlockIndex := fileEntries [fundedChain, [genesisBlock]]
    chainActive := fundedChain
    pcoinsTip := blockCoins fundedBlock 1 }

def poolTransactions : List CTransaction :=
  [coinbaseTx 10, stakeMintTx, fundingTx, feeTx, publicSpend 12, publicSpend 17]

theorem poolTransactions_distinct : HashesDistinct { tx | tx ∈ poolTransactions } where
  injective := by
    have distinct : ∀ first ∈ poolTransactions, ∀ second ∈ poolTransactions,
        first.hash = second.hash → first = second := by
      decide +kernel
    exact fun first inFirst second inSecond => distinct first inFirst second inSecond
  nonzero := by
    have nonzero : ∀ tx ∈ poolTransactions, tx.hash ≠ 0 := by decide +kernel
    exact nonzero

theorem fundedNode_coins : CoinsCorrect mainParams fundedChain fundedNode.pcoinsTip :=
  blockCoins_correct mainParams fundedBlock [genesisBlock] (by decide +kernel) (fun _ => rfl)
    (by decide +kernel) (by decide +kernel)

theorem fundedNode_fresh : Fresh mainnetServices { tx | tx ∈ poolTransactions } fundedNode where
  tree := fileEntries_tree mainParams _ (by decide +kernel)
  active := by
    intro _
    change fileEntries [fundedChain, [genesisBlock]] (CBlockIndex.getBlockHash fundedChain) =
      some fundedChain
    decide +kernel
  bounded := by
    change CBlockIndex.nHeight fundedChain < 2 ^ 31
    decide +kernel
  index := fun _ _ _ entry => by cases entry
  chain := by
    have known : ∀ block ∈ fundedChain, ∀ tx ∈ block.vtx, tx ∈ poolTransactions := by
      decide +kernel
    exact known
  coins := fundedNode_coins
  empty := rfl

def offersOf (txs : List CTransaction) : List Event :=
  txs.map fun tx => .acceptToMemoryPool quietNode tx

variable (services : Services) (node : NodeState)

theorem offers_promised (txs : List CTransaction)
    (known : ∀ tx ∈ txs, tx ∈ poolTransactions) :
    AllSteps (step services) (Promised { tx | tx ∈ poolTransactions }) node (offersOf txs) := by
  induction txs generalizing node with
  | nil => trivial
  | cons tx rest ih =>
    obtain ⟨here, later⟩ := forall_mem_cons.mp known
    exact ⟨here, fun next _ => ih next later⟩

theorem offers_views (chain : CBlockIndex)
    (view : CCoinsView) (correct : CoinsCorrect services.params chain view)
    (atTip : node.chainActive = chain) (coins : node.pcoinsTip = view) (txs : List CTransaction) :
    AllSteps (step services) (ViewsCorrect services) node (offersOf txs) := by
  induction txs generalizing node with
  | nil => trivial
  | cons tx rest ih =>
    have kept : ∀ after, step services node (.acceptToMemoryPool quietNode tx) = some after →
        after.chainActive = chain ∧ after.pcoinsTip = view := by
      intro after taken
      simp only [step] at taken
      split at taken
      · cases taken
        exact ⟨atTip, coins⟩
      · cases taken
    constructor
    · intro after taken
      rw [(kept after taken).1, (kept after taken).2]
      exact correct
    · intro next taken
      exact ih next (kept next taken).1 (kept next taken).2

/-- Two transactions of the pool spend one mint, and it is immature: the pool
has no index of zerocoin inputs. -/
theorem public_spends_share_an_immature_mint :
    ∃ (known : Set CTransaction) (node last : NodeState) (events : List Event),
      HashesDistinct known ∧ Fresh mainnetServices known node ∧
      AllSteps (step mainnetServices) (Promised known) node events ∧
      AllSteps (step mainnetServices) (ViewsCorrect mainnetServices) node events ∧
      run (step mainnetServices) node events = some last ∧
      ¬ SpendOnce (fun _ => True) last ∧ ¬ SpendMature mainParams (fun _ => True) last := by
  have outcome : ((run (step mainnetServices) fundedNode (offersOf [publicSpend 12,
      publicSpend 17])).map fun last => (last.mempool.mapTx, last.chainActive,
        last.pcoinsTip.accessCoins stakeMintTx.hash)) =
      some ([publicSpend 12, publicSpend 17], fundedChain, some (CCoins.fromTx stakeMintTx 1)) := by
    decide +kernel
  obtain ⟨last, reached, state⟩ := map_eq_some_iff.mp outcome
  obtain ⟨pool, rest⟩ := Prod.mk.inj state
  obtain ⟨tip, coins⟩ := Prod.mk.inj rest
  refine ⟨{ tx | tx ∈ poolTransactions }, fundedNode, last, _, poolTransactions_distinct,
    fundedNode_fresh, offers_promised _ _ _ (by decide +kernel), ?_, reached, ?_, ?_⟩
  · exact offers_views _ fundedNode fundedChain _ fundedNode_coins rfl rfl _
  · intro once
    rw [SpendOnce, pool] at once
    have same := once (publicSpend 12) (by simp) (publicSpend 17) (by simp) _ mem_cons_self _
      mem_cons_self trivial trivial rfl
    exact absurd same (by decide +kernel)
  · intro mature
    rw [SpendMature, pool, tip] at mature
    have enough := mature (publicSpend 12) (by simp) _ mem_cons_self trivial _
      { nValue := 10 * coin, scriptPubKey := [0xc1, 0, 0, 0, 0, 0, 5] } coins (by decide +kernel)
      (by decide +kernel) (by decide +kernel)
    exact absurd enough (by decide +kernel)

/-- The rule at a payment of the funds: it is in the pool, whose inputs have
their outputs. -/
theorem payment_is_consistent :
    ∃ last, run (step mainnetServices) fundedNode (offersOf [feeTx]) = some last ∧
      last.mempool.mapTx = [feeTx] ∧ PoolConsistent mainParams Ordinary last := by
  have outcome : ((run (step mainnetServices) fundedNode (offersOf [feeTx])).map
      fun last => last.mempool.mapTx) = some [feeTx] := by
    decide +kernel
  obtain ⟨last, reached, pool⟩ := map_eq_some_iff.mp outcome
  exact ⟨last, reached, pool, pool_consistent mainnetServices { tx | tx ∈ poolTransactions }
    fundedNode last _ poolTransactions_distinct (by decide) fundedNode_fresh
    (offers_promised _ _ _ (by decide +kernel))
    (offers_views _ fundedNode fundedChain _ fundedNode_coins rfl rfl _) reached⟩

end ZenonCore.MempoolConsistency
