import ZenonCore.Chain
import ZenonCore.Coins

/-!
# The unspent outputs of a chain

For each output of the chain that ordinary inputs can still spend, the transaction that made
it and its height.
-/

namespace ZenonCore.UnspentOutputs

open Primitives ChainParams Coins Chain List

def makes (tx : CTransaction) (outpoint : COutPoint) : Bool :=
  tx.hash == outpoint.hash && (CCoins.fromTx tx 0).isAvailable outpoint.n.toNat

def spends (tx : CTransaction) (outpoint : COutPoint) : Bool :=
  !tx.isCoinBase && !tx.hasZerocoinSpendInputs && tx.vin.any fun txin => txin.prevout == outpoint

abbrev Unspent := COutPoint → Option (CTransaction × Int)

def applyTransaction (nHeight : Int) (unspent : Unspent) (tx : CTransaction) : Unspent :=
  fun outpoint =>
    if tx.hash = outpoint.hash then if makes tx outpoint then some (tx, nHeight) else none
    else if spends tx outpoint then none
    else unspent outpoint

def applyBlock (params : CChainParams) (block : CBlock) (nHeight : Int) (unspent : Unspent) :
    Unspent :=
  if block.hash = params.hashGenesisBlock then unspent
  else block.vtx.foldl (applyTransaction nHeight) unspent

def unspentOutputs (params : CChainParams) : CBlockIndex → Unspent
  | [] => fun _ => none
  | block :: pprev =>
    applyBlock params block (CBlockIndex.nHeight pprev + 1) (unspentOutputs params pprev)

/-- A view represents a chain: its outputs, what entries say of their transactions, and nothing
else. -/
structure CoinsCorrect (params : CChainParams) (chain : CBlockIndex) (view : CCoinsView) : Prop where
  bestBlock : view.hashBlock = chain.getBlockHash
  outputs : ∀ outpoint, view.hasOutput outpoint = (unspentOutputs params chain outpoint).isSome
  entries : ∀ outpoint tx nHeight,
    unspentOutputs params chain outpoint = some (tx, nHeight) →
      ∃ coins, view.accessCoins outpoint.hash = some coins ∧ coins.nHeight = nHeight ∧
        coins.isGenerated = (tx.isCoinBase || tx.isCoinStake)
  contents : ∀ txid coins (n : Nat) (txout : CTxOut), view.accessCoins txid = some coins →
    coins.vout[n]? = some txout → txout.isNull = false →
      ∃ block ∈ chain, ∃ tx ∈ block.vtx, tx.hash = txid ∧ tx.vout[n]? = some txout

variable (tx : CTransaction) (outpoint : COutPoint)

theorem makes_hash (made : makes tx outpoint = true) :
    tx.hash = outpoint.hash := by
  simp only [makes, Bool.and_eq_true, beq_iff_eq] at made
  exact made.1

theorem fromTx_output (tx : CTransaction) (nHeight : Int) (n : Nat) (txout : CTxOut)
    (found : (CCoins.fromTx tx nHeight).vout[n]? = some txout) (notNull : txout.isNull = false) :
    tx.vout[n]? = some txout := by
  have kept : (CCoins.fromTx tx nHeight).vout <+: tx.vout.map fun txout =>
      if isUnspendable txout.scriptPubKey then CTxOut.null else txout :=
    rdropWhile_prefix _ _
  obtain ⟨bound, entry⟩ := List.getElem?_eq_some_iff.mp found
  have listed := prefix_iff_getElem?.mp kept _ bound
  rw [entry, getElem?_map, Option.map_eq_some_iff] at listed
  obtain ⟨original, same, result⟩ := listed
  split_ifs at result with unspendable
  · rw [← result] at notNull
    exact absurd notNull (by decide)
  · exact result ▸ same

theorem makes_output (made : makes tx outpoint = true) :
    ∃ txout, tx.vout[outpoint.n.toNat]? = some txout ∧ txout.isZerocoinMint = false := by
  simp only [makes, Bool.and_eq_true, CCoins.isAvailable] at made
  split at made
  · exact absurd made.2 (by simp)
  · rename_i txout found
    have available : txout.isNull = false ∧ txout.isZerocoinMint = false := by simpa using made.2
    exact ⟨txout, fromTx_output tx 0 _ txout found available.1, available.2⟩

variable (nHeight : Int) (vtx : List CTransaction) (unspent : Unspent) (outpoint : COutPoint)

theorem applyTransactions_some (tx : CTransaction) (height : Int)
    (found : vtx.foldl (applyTransaction nHeight) unspent outpoint = some (tx, height)) :
    (tx ∈ vtx ∧ height = nHeight ∧ makes tx outpoint = true) ∨
      ((∀ other ∈ vtx, other.hash ≠ outpoint.hash) ∧ unspent outpoint = some (tx, height)) := by
  induction vtx generalizing unspent with
  | nil => exact Or.inr ⟨fun other member => absurd member not_mem_nil, found⟩
  | cons first rest ih =>
    obtain here | ⟨others, before⟩ := ih (applyTransaction nHeight unspent first) found
    · exact Or.inl ⟨mem_cons_of_mem _ here.1, here.2⟩
    · unfold applyTransaction at before
      split_ifs at before with same made spent
      · cases before
        exact Or.inl ⟨mem_cons_self, rfl, made⟩
      · exact Or.inr ⟨forall_mem_cons.mpr ⟨same, others⟩, before⟩

theorem applyTransactions_kept
    (untouched : ∀ tx ∈ vtx, tx.hash ≠ outpoint.hash ∧ spends tx outpoint = false) :
    vtx.foldl (applyTransaction nHeight) unspent outpoint = unspent outpoint := by
  induction vtx generalizing unspent with
  | nil => rfl
  | cons first rest ih =>
    obtain ⟨here, later⟩ := forall_mem_cons.mp untouched
    rw [foldl_cons, ih _ later, applyTransaction, if_neg here.1, if_neg (by simp [here.2])]

theorem applyTransactions_made (tx : CTransaction) (member : tx ∈ vtx)
    (made : makes tx outpoint = true)
    (single : ∀ other ∈ vtx, other.hash = tx.hash → other = tx)
    (unspentBy : ∀ other ∈ vtx, spends other outpoint = false) :
    vtx.foldl (applyTransaction nHeight) unspent outpoint = some (tx, nHeight) := by
  induction vtx generalizing unspent with
  | nil => cases member
  | cons first rest ih =>
    obtain ⟨_, singleRest⟩ := forall_mem_cons.mp single
    obtain ⟨_, unspentRest⟩ := forall_mem_cons.mp unspentBy
    rw [foldl_cons]
    by_cases later : tx ∈ rest
    · exact ih _ later singleRest unspentRest
    · have here : tx = first := (mem_cons.mp member).resolve_right later
      have hash := makes_hash tx outpoint made
      have absent : ∀ other ∈ rest, other.hash ≠ outpoint.hash ∧ spends other outpoint = false := by
        intro other inRest
        refine ⟨fun same => later ?_, unspentRest other inRest⟩
        rw [← singleRest other inRest (same.trans hash.symm)]
        exact inRest
      rw [applyTransactions_kept nHeight rest _ outpoint absent, applyTransaction, ← here,
        if_pos hash, if_pos made]

theorem unspentOutputs_made (params : CChainParams) (chain : CBlockIndex) (outpoint : COutPoint)
    (tx : CTransaction) (nHeight : Int)
    (found : unspentOutputs params chain outpoint = some (tx, nHeight)) :
    (∃ block ∈ chain, tx ∈ block.vtx) ∧ makes tx outpoint = true ∧ 0 ≤ nHeight ∧
      nHeight ≤ chain.nHeight := by
  induction chain with
  | nil => cases found
  | cons block pprev ih =>
    have older : unspentOutputs params pprev outpoint = some (tx, nHeight) →
        (∃ other ∈ block :: pprev, tx ∈ other.vtx) ∧ makes tx outpoint = true ∧ 0 ≤ nHeight ∧
          nHeight ≤ CBlockIndex.nHeight (block :: pprev) := by
      intro before
      obtain ⟨⟨other, member, inBlock⟩, made, low, high⟩ := ih before
      refine ⟨⟨other, mem_cons_of_mem _ member, inBlock⟩, made, low, ?_⟩
      rw [CBlockIndex.nHeight_cons]
      omega
    rw [unspentOutputs, applyBlock] at found
    split_ifs at found with genesis
    · exact older found
    · obtain ⟨inBlock, height, made⟩ | ⟨_, before⟩ := applyTransactions_some _ _ _ _ _ _ found
      · refine ⟨⟨block, mem_cons_self, inBlock⟩, made, ?_⟩
        rw [height, CBlockIndex.nHeight_cons]
        simp [CBlockIndex.nHeight]
      · exact older before

variable (params : CChainParams) (block : CBlock) (pprev : CBlockIndex)

theorem unspentOutputs_pprev (outpoint : COutPoint)
    (found : (unspentOutputs params (block :: pprev) outpoint).isSome = true) :
    (unspentOutputs params pprev outpoint).isSome = true ∨
      ∃ tx ∈ block.vtx, makes tx outpoint = true := by
  obtain ⟨⟨tx, nHeight⟩, entry⟩ := Option.isSome_iff_exists.mp found
  rw [unspentOutputs, applyBlock] at entry
  split_ifs at entry with genesis
  · exact Or.inl (by rw [entry]; rfl)
  · obtain ⟨inBlock, _, made⟩ | ⟨_, before⟩ := applyTransactions_some _ _ _ _ _ _ entry
    · exact Or.inr ⟨tx, inBlock, made⟩
    · exact Or.inl (by rw [before]; rfl)

def blockCoins (block : CBlock) (nHeight : Int) : CCoinsView :=
  { hashBlock := block.hash
    coins := fun txid =>
      (block.vtx.find? fun tx => tx.hash == txid).map fun tx => CCoins.fromTx tx nHeight }

/-- They are correct if the transactions have different hashes and spend
nothing of each other. -/
theorem blockCoins_correct (notGenesis : block.hash ≠ params.hashGenesisBlock)
    (older : ∀ outpoint, unspentOutputs params pprev outpoint = none)
    (distinct : ∀ tx ∈ block.vtx, ∀ other ∈ block.vtx, other.hash = tx.hash → other = tx)
    (independent : ∀ tx ∈ block.vtx, ∀ other ∈ block.vtx, ∀ txin ∈ other.vin,
      txin.prevout.hash ≠ tx.hash) :
    CoinsCorrect params (block :: pprev) (blockCoins block (CBlockIndex.nHeight pprev + 1)) := by
  have entry : ∀ tx ∈ block.vtx, (blockCoins block (CBlockIndex.nHeight pprev + 1)).coins tx.hash =
      some (CCoins.fromTx tx (CBlockIndex.nHeight pprev + 1)) := by
    intro tx member
    have present : (block.vtx.find? fun other => other.hash == tx.hash).isSome = true := by
      rw [find?_isSome]
      exact ⟨tx, member, by simp⟩
    obtain ⟨found, isFound⟩ := Option.isSome_iff_exists.mp present
    have same := find?_some isFound
    have isTx := distinct tx member found (mem_of_find?_eq_some isFound) (by simpa using same)
    simp [blockCoins, isFound, isTx]
  have listed : ∀ txid coins, (blockCoins block (CBlockIndex.nHeight pprev + 1)).coins txid =
      some coins → ∃ tx ∈ block.vtx, tx.hash = txid ∧
        coins = CCoins.fromTx tx (CBlockIndex.nHeight pprev + 1) := by
    intro txid coins found
    simp only [blockCoins, Option.map_eq_some_iff] at found
    obtain ⟨tx, isFound, same⟩ := found
    have hash := find?_some isFound
    exact ⟨tx, mem_of_find?_eq_some isFound, by simpa using hash, same.symm⟩
  have unfolded : unspentOutputs params (block :: pprev) =
      block.vtx.foldl (applyTransaction (CBlockIndex.nHeight pprev + 1))
        (unspentOutputs params pprev) := by
    rw [unspentOutputs, applyBlock, if_neg notGenesis]
  have made : ∀ outpoint tx, tx ∈ block.vtx → makes tx outpoint = true →
      unspentOutputs params (block :: pprev) outpoint =
        some (tx, CBlockIndex.nHeight pprev + 1) := by
    intro outpoint tx member isMade
    rw [unfolded]
    apply applyTransactions_made _ _ _ _ tx member isMade (distinct tx member)
    intro other inBlock
    by_contra spent
    simp only [spends, Bool.not_eq_false, Bool.and_eq_true, any_eq_true, beq_iff_eq] at spent
    obtain ⟨txin, input, same⟩ := spent.2
    apply independent tx member other inBlock txin input
    rw [same]
    exact (makes_hash tx outpoint isMade).symm
  have origin : ∀ outpoint tx nHeight,
      unspentOutputs params (block :: pprev) outpoint = some (tx, nHeight) →
      tx ∈ block.vtx ∧ nHeight = CBlockIndex.nHeight pprev + 1 ∧ makes tx outpoint = true := by
    intro outpoint tx nHeight found
    rw [unfolded] at found
    obtain here | ⟨_, before⟩ := applyTransactions_some _ _ _ _ _ _ found
    · exact here
    · rw [older] at before
      cases before
  exact
    { bestBlock := rfl
      outputs := by
        intro outpoint
        rw [Bool.eq_iff_iff]
        constructor
        · intro output
          unfold CCoinsView.hasOutput at output
          cases found : (blockCoins block (CBlockIndex.nHeight pprev + 1)).coins outpoint.hash with
          | none => rw [found] at output; cases output
          | some coins =>
            rw [found] at output
            obtain ⟨tx, member, hash, same⟩ := listed _ _ found
            rw [same] at output
            have isMade : makes tx outpoint = true := by
              simp only [makes, hash, beq_self_eq_true, Bool.true_and]
              exact output
            rw [made outpoint tx member isMade]
            rfl
        · intro present
          obtain ⟨⟨tx, nHeight⟩, found⟩ := Option.isSome_iff_exists.mp present
          obtain ⟨member, _, isMade⟩ := origin outpoint tx nHeight found
          have hash := makes_hash tx outpoint isMade
          simp only [makes, hash, beq_self_eq_true, Bool.true_and] at isMade
          rw [CCoinsView.hasOutput, ← hash, entry tx member]
          exact isMade
      entries := by
        intro outpoint tx nHeight found
        obtain ⟨member, height, isMade⟩ := origin outpoint tx nHeight found
        refine ⟨CCoins.fromTx tx (CBlockIndex.nHeight pprev + 1), ?_, height.symm, rfl⟩
        rw [← makes_hash tx outpoint isMade]
        exact entry tx member
      contents := by
        intro txid coins n txout found output notNull
        obtain ⟨tx, member, hash, same⟩ := listed txid coins found
        rw [same] at output
        exact ⟨block, mem_cons_self, tx, member, hash,
          fromTx_output tx _ n txout output notNull⟩ }

end ZenonCore.UnspentOutputs
