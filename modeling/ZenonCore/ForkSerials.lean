import ZenonCore.AcceptBlock
import ZenonCore.Serials
import ZenonCore.ValueGate

/-!
# Zerocoin serial numbers on a fork

Where the parent is not on the active chain, `AcceptBlock` compares the coinstake's private
spends with those of the fork.
-/

namespace ZenonCore.ForkSerials

open Script Primitives ChainParams Coins Chain List
open Validation Zerocoin Chainstate ChainTip
open Serials BoundedReads BlockReads StakeInput
open AcceptBlock ValueGate

def BuiltIn (params : CChainParams) : Prop :=
  params = mainParams ∨ ∃ hash, params = testNetParams hash ∨ params = regTestParams hash

/-- A block of the fork that ends in `pindexPrev`, above the split. -/
def OnFork (store : BlockStore) (pindexPrev : CBlockIndex) (block : CBlock) : Prop :=
  ∃ pprev, (block :: pprev) <:+ pindexPrev ∧
    store.node.chainActive.contains (block :: pprev) = false

/-- A block of the fork spends the serial number, by an input of some kind. -/
def SpentOnFork (services : AcceptServices) (store : BlockStore) (pindexPrev : CBlockIndex)
    (kind : CTxIn → Bool) (serial : Int) : Prop :=
  ∃ block, OnFork store pindexPrev block ∧ ∃ tx ∈ block.vtx, ∃ txin ∈ tx.vin,
    kind txin = true ∧ spentSerial services.lib txin = some serial

theorem privateSpend_not_public (txin : CTxIn) (privateSpend : txin.isZerocoinSpend = true) :
    txin.isZerocoinPublicSpend = false := by
  simp only [CTxIn.isZerocoinSpend, Bool.and_eq_true] at privateSpend
  rw [CTxIn.isZerocoinPublicSpend]
  by_contra isPublic
  have same := startsWithOpcode_unique txin.scriptSig opZerocoinSpend opZerocoinPublicSpend
    privateSpend.2 (by simpa [Script.isZerocoinPublicSpend] using isPublic)
  exact absurd same (by decide)

theorem privateSpend_serial (lib : Libzerocoin) (txin : CTxIn) (spend : CoinSpend) (serial : Int)
    (privateSpend : txin.isZerocoinSpend = true)
    (read : txInToZerocoinSpend lib txin = .ok spend)
    (spends : spentSerial lib txin = some serial) : spend.coinSerialNumber = serial := by
  have notPublic := privateSpend_not_public txin privateSpend
  unfold spentSerial at spends
  rw [notPublic, if_neg (by simp), read] at spends
  exact Option.some.inj spends

section Walk

variable (services : AcceptServices) (store : BlockStore) (stakeTx : CTransaction)

theorem noteSerial_ok (txin stakeIn : CTxIn) (serials next : List Int)
    (taken : (do
      require (stakeIn.prevout != txin.prevout) (dos 100 "")
      if txin.isZerocoinSpend then do
        let spend ← ofFault (txInToZerocoinSpend services.lib txin)
        .ok (spend.coinSerialNumber :: serials)
      else .ok serials : Validated (List Int)) = .ok next) :
    serials ⊆ next ∧ ∀ serial, txin.isZerocoinSpend = true →
      spentSerial services.lib txin = some serial → serial ∈ next := by
  simp only [bind_eq_ok, dos, require_eq_ok, exists_and_left, exists_const] at taken
  obtain ⟨_, noted⟩ := taken
  split at noted
  · rename_i privateSpend
    simp only [bind_eq_ok, ofFault_eq_ok] at noted
    obtain ⟨spend, read, result⟩ := noted
    cases result
    constructor
    · exact subset_cons_self _ _
    · intro serial _ spends
      rw [← privateSpend_serial services.lib txin spend serial privateSpend read spends]
      exact mem_cons_self
  · rename_i ordinary
    cases noted
    exact ⟨fun _ member => member, fun _ privateSpend => absurd privateSpend ordinary⟩

variable (txin : CTxIn) (serial : Int) (before after : List Int)

theorem forkInput_keeps (taken : forkInput services stakeTx before txin = .ok after) (member : serial ∈ before) :
    serial ∈ after := by
  unfold forkInput at taken
  apply foldlM_keeps (fun serials => serial ∈ serials) _ _ _ before after taken member
  intro serials stakeIn next round held
  exact (noteSerial_ok services txin stakeIn serials next round).1 held

/-- While the coinstake has an ordinary input, the serial number of every
private spend is noted. -/
theorem forkInput_notes (ordinary : znnInputs stakeTx ≠ []) (privateSpend : txin.isZerocoinSpend = true)
    (spends : spentSerial services.lib txin = some serial)
    (taken : forkInput services stakeTx before txin = .ok after) : serial ∈ after := by
  obtain ⟨stakeIn, member⟩ := exists_mem_of_ne_nil _ ordinary
  unfold forkInput at taken
  apply foldlM_establishes (fun serials => serial ∈ serials) _ _ _ before after taken stakeIn member
  · intro serials next round
    exact (noteSerial_ok services txin stakeIn serials next round).2 serial privateSpend spends
  · intro serials other next round held
    exact (noteSerial_ok services txin other serials next round).1 held

theorem forkTransaction_keeps (tx : CTransaction) (serial : Int) (before after : List Int)
    (taken : tx.vin.foldlM (forkInput services stakeTx) before = .ok after)
    (member : serial ∈ before) : serial ∈ after := by
  apply foldlM_keeps (fun serials => serial ∈ serials) _ _ _ before after taken member
  intro serials txin next round held
  exact forkInput_keeps services stakeTx txin serial serials next round held

theorem forkBlock_keeps (block : CBlock) (serial : Int) (before after : List Int)
    (taken : forkBlock services stakeTx before block = .ok after) (member : serial ∈ before) :
    serial ∈ after := by
  unfold forkBlock at taken
  apply foldlM_keeps (fun serials => serial ∈ serials) _ _ _ before after taken member
  intro serials tx next round held
  exact forkTransaction_keeps services stakeTx tx serial serials next round held

theorem forkBlock_notes (block : CBlock) (tx : CTransaction) (txin : CTxIn) (serial : Int)
    (before after : List Int) (ordinary : znnInputs stakeTx ≠ []) (inBlock : tx ∈ block.vtx)
    (input : txin ∈ tx.vin) (privateSpend : txin.isZerocoinSpend = true)
    (spends : spentSerial services.lib txin = some serial)
    (taken : forkBlock services stakeTx before block = .ok after) : serial ∈ after := by
  unfold forkBlock at taken
  apply foldlM_establishes (fun serials => serial ∈ serials) _ _ _ before after taken tx inBlock
  · intro serials next round
    apply foldlM_establishes (fun serials => serial ∈ serials) _ _ _ serials next round txin input
    · intro earlier later step
      exact forkInput_notes services stakeTx txin serial earlier later ordinary privateSpend spends
        step
    · intro earlier other later step held
      exact forkInput_keeps services stakeTx other serial earlier later step held
  · intro serials other next round held
    exact forkTransaction_keeps services stakeTx other serial serials next round held

theorem walkFork_notes (ordinary : znnInputs stakeTx ≠ []) (readBlock : Int)
    (pindex split : CBlockIndex) (before after : List Int)
    (walked : walkFork services store stakeTx readBlock pindex before = .ok (split, after)) :
    before ⊆ after ∧
      ∀ serial, SpentOnFork services store pindex CTxIn.isZerocoinSpend serial →
        serial ∈ after := by
  induction pindex generalizing readBlock before with
  | nil => cases walked
  | cons block pprev ih =>
    unfold walkFork at walked
    split at walked
    · rename_i onChain
      cases walked
      constructor
      · exact fun _ member => member
      · intro serial spent
        obtain ⟨forked, ⟨older, suffix, off⟩, _⟩ := spent
        -- the fork's block would be below an entry of the active chain
        have inChain := (CBlockIndex.contains_iff _ _ (by simp)).mp onChain
        have contained := (CBlockIndex.contains_iff _ _ (by simp)).mpr (suffix.trans inChain)
        rw [contained] at off
        cases off
    · simp only [bind_eq_ok, refuse, require_eq_ok, exists_and_left, exists_const] at walked
      obtain ⟨_, noted, passed, _, _, rest⟩ := walked
      have later := ih (readBlock + 1) noted rest
      constructor
      · intro serial member
        exact later.1 (forkBlock_keeps services stakeTx block serial before noted passed member)
      · intro serial spent
        rcases spent with ⟨forked, ⟨older, suffix, off⟩, tx, inBlock, txin, input, privateSpend,
          spends⟩
        obtain here | below := suffix_cons_iff.mp suffix
        · cases here
          exact later.1 (forkBlock_notes services stakeTx block tx txin serial before noted
            ordinary inBlock input privateSpend spends passed)
        · exact later.2 serial ⟨forked, ⟨older, below, off⟩, tx, inBlock, txin, input,
            privateSpend, spends⟩

theorem checkFork_fresh (nHeight : Int) (pindexPrev : CBlockIndex) (txin : CTxIn) (serial : Int)
    (ordinary : znnInputs stakeTx ≠ []) (input : txin ∈ stakeTx.vin)
    (privateSpend : txin.isZerocoinSpend = true)
    (spends : spentSerial services.lib txin = some serial)
    (checked : checkFork services store nHeight stakeTx pindexPrev = .ok ()) :
    ¬ SpentOnFork services store pindexPrev CTxIn.isZerocoinSpend serial := by
  intro spent
  unfold checkFork at checked
  simp only [bind_eq_ok] at checked
  obtain ⟨_, _, ⟨split, noted⟩, walked, forked⟩ := checked
  have known := (walkFork_notes services store stakeTx ordinary 0 pindexPrev split [] noted
    walked).2 serial spent
  have staked : txin ∈ zznnInputs stakeTx := mem_filter.mpr ⟨input, privateSpend⟩
  have fresh := forM_ok _ _ forked txin staked
  unfold checkForkSpend at fresh
  simp only [bind_eq_ok, dos, ofFault_eq_ok, require_eq_ok, exists_and_left, exists_const]
    at fresh
  obtain ⟨spend, read, unknown, _⟩ := fresh
  rw [privateSpend_serial services.lib txin spend serial privateSpend read spends] at unknown
  simp [known] at unknown

end Walk

section Kernel

variable (services : AcceptServices) (here : AcceptState) (store : BlockStore)

/-- Where a private spend is the kernel, the version two of zerocoin has
started before. -/
theorem initStakeInput_private (stakeTx : CTransaction) (nPreviousBlockHeight : Int)
    (stake : CStakeInput) (onlyPrivate : znnInputs stakeTx = [])
    (initialised : initStakeInput services.toStakeServices store.node stakeTx
      nPreviousBlockHeight = .ok stake) :
    services.params.nBlockZerocoinV2 ≤ nPreviousBlockHeight := by
  unfold initStakeInput at initialised
  simp only [bind_eq_ok, attempt_eq_ok, refuse, require_eq_ok, exists_and_left, exists_const]
    at initialised
  obtain ⟨_, txin, read, branch⟩ := initialised
  have member := mem_of_getElem? ((readAt_eq_ok _ _ _ _).mp read)
  have privateSpend : txin.isZerocoinSpend = true := by
    by_contra ordinary
    have inOrdinary : txin ∈ znnInputs stakeTx := mem_filter.mpr ⟨member, by simp [ordinary]⟩
    rw [onlyPrivate] at inOrdinary
    cases inOrdinary
  rw [if_pos privateSpend] at branch
  simp only [bind_eq_ok, attempt_eq_ok, exists_and_left, exists_const, require_eq_ok] at branch
  obtain ⟨spend, _, _, _, contextual, _⟩ := branch
  unfold contextualCheckZerocoinStake at contextual
  simp only [bind_eq_ok, refuse, require_eq_ok, exists_and_left, exists_const] at contextual
  exact of_decide_eq_true contextual.1

theorem checkInBlock_private (nHeight : Int) (stakeTx tx : CTransaction) (txin : CTxIn)
    (before after : List Int) (started : services.params.nZerocoinStartHeight ≤ nHeight)
    (enforced : services.params.nPublicZCSpends ≤ nHeight)
    (privateSpend : txin.isZerocoinSpend = true) :
    checkInBlock services store nHeight stakeTx tx before txin ≠ .ok after := by
  intro taken
  unfold checkInBlock at taken
  have notPublic := privateSpend_not_public txin privateSpend
  have spends : txin.spendsZerocoin = true := by simp [CTxIn.spendsZerocoin, privateSpend]
  rw [if_pos ⟨started, spends⟩] at taken
  simp only [bind_eq_ok, attempt_eq_ok, refuse, require_eq_ok, exists_and_left, exists_const,
    checkPublicCoinSpendEnforced, if_pos enforced, notPublic] at taken
  obtain ⟨_, ⟨impossible, _⟩, _⟩ := taken
  cases impossible

/-- What the built-in parameters have in common: who stakes privately is past the start of zerocoin.
-/
theorem builtIn_heights (params : CChainParams) (builtIn : BuiltIn params) :
    params.nZerocoinStartHeight ≤ params.nBlockZerocoinV2 + 1 ∧
      params.nPublicZCSpends ≤ params.nZerocoinStartHeight := by
  obtain main | ⟨hash, testnet | regtest⟩ := builtIn
  · subst main
    decide
  · subst testnet
    simp [testNetParams, mainParams]
  · subst regtest
    simp [regTestParams, testNetParams, mainParams]

theorem andThen_ok {α β : Type} (before : BlockStore) (run : Reading α)
    (next : α → BlockStore × Reading β) (value : β)
    (accepted : (andThen before run next).2 = .ok value) :
    ∃ found, run = .ok found ∧ (next found).2 = .ok value := by
  cases run with
  | error stop => cases accepted
  | ok found => exact ⟨found, rfl, accepted⟩

variable (block : CBlock) (pindexPrev : CBlockIndex) (stakeTx : CTransaction)

theorem checkProofs_stake (proof : Option Uint256) (proofOfStake : block.isProofOfStake = true)
    (coinstake : block.vtx[1]? = some stakeTx)
    (checked : checkProofs services store block pindexPrev = .ok proof) :
    proof.isSome = true ∧ ∃ stake, initStakeInput services.toStakeServices store.node stakeTx
      pindexPrev.nHeight = .ok stake := by
  unfold checkProofs at checked
  simp only [bind_eq_ok, isProofOfStakeReading_eq, proofOfStake, Except.ok.injEq,
    exists_eq_left', if_true, orDosReading_eq_ok] at checked
  obtain ⟨_, _, _, _, hashProofOfStake, proves, result⟩ := checked
  subst result
  unfold checkProofOfStake at proves
  simp only [bind_eq_ok, readAt_eq_ok, coinstake, Option.some.injEq, exists_eq_left'] at proves
  obtain ⟨stake, initialised, _⟩ := proves
  exact ⟨rfl, stake, initialised⟩

/-- The entry of an accepted header: the one that is known, or a new one
without data behind the parent. -/
theorem acceptBlockHeader_ok (block : CBlock) (after : BlockStore) (pindex : CBlockIndex)
    (accepted : acceptBlockHeader services here store block = .ok (after, pindex)) :
    after.node.chainActive = store.node.chainActive ∧
      (store.node.mapBlockIndex block.hash = some pindex ∧ after = store ∨
        store.node.mapBlockIndex block.hash = none ∧
          pindex = block :: (store.node.mapBlockIndex block.hashPrevBlock).getD [] ∧
          (after.nStatus pindex).fHaveData = false) := by
  unfold acceptBlockHeader at accepted
  cases known : store.node.mapBlockIndex block.hash with
  | some found =>
    simp only [known, bind_eq_ok, exists_and_right] at accepted
    obtain ⟨_, result⟩ := accepted
    cases result
    exact ⟨rfl, Or.inl ⟨rfl, rfl⟩⟩
  | none =>
    simp only [known, bind_eq_ok] at accepted
    obtain ⟨_, _, _, _, added⟩ := accepted
    unfold addToBlockIndex at added
    simp only [known, bind_eq_ok] at added
    obtain ⟨_, _, entry, _, result⟩ := added
    cases result
    exact ⟨rfl, Or.inr ⟨rfl, rfl, by simp⟩⟩

theorem acceptNew_ok (block : CBlock) (pindexPrev pindex : CBlockIndex)
    (fAlreadyCheckedBlock : Bool)
    (accepted : (acceptNew services here store block pindexPrev pindex true
      fAlreadyCheckedBlock).2 = .ok ()) :
    checkStake services store block pindexPrev pindex.nHeight = .ok () := by
  unfold acceptNew at accepted
  split at accepted
  · cases accepted
  · obtain ⟨_, staked, _⟩ := andThen_ok store _ _ () accepted
    rwa [if_pos rfl] at staked

/-- The stages of a proof of stake block that is accepted, is not held yet and
whose parent is not marked. -/
theorem acceptBlock_stake (fAlreadyCheckedBlock : Bool) (proofOfStake : block.isProofOfStake = true)
    (coinstake : block.vtx[1]? = some stakeTx)
    (parent : store.node.mapBlockIndex block.hashPrevBlock = some pindexPrev)
    (unmarked : (store.nStatus pindexPrev).fFailed = false)
    (filed : ∀ pindex, store.node.mapBlockIndex block.hash = some pindex →
      pindex = block :: pindexPrev ∧ (store.nStatus pindex).fHaveData = false)
    (accepted : (acceptBlock services here store block fAlreadyCheckedBlock).2 = .ok ()) :
    (∃ stake, initStakeInput services.toStakeServices store.node stakeTx
        pindexPrev.nHeight = .ok stake) ∧
      ∃ indexed : BlockStore, indexed.node.chainActive = store.node.chainActive ∧
        checkStake services indexed block pindexPrev (pindexPrev.nHeight + 1) = .ok () := by
  unfold acceptBlock at accepted
  have notMarked : markedParent services store block = none := by
    unfold markedParent
    split
    · rfl
    · simp [parent, unmarked]
  rw [notMarked] at accepted
  obtain ⟨found, isParent, accepted⟩ := andThen_ok store _ _ () accepted
  rw [attempt_eq_ok] at isParent
  obtain ⟨proof, proves, accepted⟩ := andThen_ok store _ _ () accepted
  obtain ⟨⟨indexed, pindex⟩, header, accepted⟩ := andThen_ok _ _ _ () accepted
  have staked := checkProofs_stake services store block found stakeTx proof proofOfStake coinstake
    proves
  have same : found = pindexPrev := by
    unfold parentOf at isParent
    split at isParent
    · -- the genesis block has no parent, and a proof of stake block needs one
      cases isParent
      unfold checkProofs at proves
      simp [bind_eq_ok, proofOfStake] at proves
    · rw [parent] at isParent
      exact (Except.ok.inj isParent).symm
  subst same
  have entry := acceptBlockHeader_ok services here _ block indexed pindex header
  have placed : pindex = block :: found ∧ (indexed.nStatus pindex).fHaveData = false := by
    obtain ⟨known, unchanged⟩ | ⟨_, isNew, without⟩ := entry.2
    · have held := filed pindex known
      subst unchanged
      exact held
    · refine ⟨?_, without⟩
      simpa [recordProof, parent] using isNew
  rw [placed.2, if_neg (by simp), staked.1] at accepted
  have checked := acceptNew_ok services here indexed block found pindex fAlreadyCheckedBlock
    accepted
  rw [placed.1, CBlockIndex.nHeight_cons] at checked
  exact ⟨staked.2, indexed, entry.1, checked⟩

end Kernel

/-- On a built-in network a proof of stake block on a fork whose coinstake repeats a private spend
of the fork is rejected. -/
theorem respent_stake_is_rejected (services : AcceptServices) (here : AcceptState)
    (store : BlockStore) (block : CBlock) (pindexPrev : CBlockIndex) (stakeTx : CTransaction)
    (fAlreadyCheckedBlock : Bool) (txin : CTxIn) (serial : Int)
    (builtIn : BuiltIn services.params) (proofOfStake : block.isProofOfStake = true)
    (coinstake : block.vtx[1]? = some stakeTx)
    (parent : store.node.mapBlockIndex block.hashPrevBlock = some pindexPrev)
    (unmarked : (store.nStatus pindexPrev).fFailed = false)
    (filed : ∀ pindex, store.node.mapBlockIndex block.hash = some pindex →
      pindex = block :: pindexPrev ∧ (store.nStatus pindex).fHaveData = false)
    (fork : store.node.chainActive.contains pindexPrev = false)
    (input : txin ∈ stakeTx.vin) (privateSpend : txin.isZerocoinSpend = true)
    (spends : spentSerial services.lib txin = some serial)
    (spent : SpentOnFork services store pindexPrev CTxIn.isZerocoinSpend serial) :
    ∃ stop, (acceptBlock services here store block fAlreadyCheckedBlock).2 = .error stop := by
  cases outcome : (acceptBlock services here store block fAlreadyCheckedBlock).2 with
  | error stop => exact ⟨stop, rfl⟩
  | ok result =>
    exfalso
    rcases acceptBlock_stake services here store block pindexPrev stakeTx fAlreadyCheckedBlock
      proofOfStake coinstake parent unmarked filed outcome with
      ⟨⟨stake, initialised⟩, indexed, sameChain, checked⟩
    unfold checkStake at checked
    simp only [bind_eq_ok, readAt_eq_ok, coinstake, Option.some.injEq, exists_eq_left',
      attempt_eq_ok, onlyIf_eq_ok] at checked
    obtain ⟨noted, inBlock, _, forked, _⟩ := checked
    by_cases ordinary : znnInputs stakeTx = []
    · -- a kernel that is a private spend needs heights at which the block may not have one
      have started := initStakeInput_private services store stakeTx _ stake ordinary initialised
      have heights := builtIn_heights services.params builtIn
      have member := mem_of_getElem? coinstake
      rcases foldlM_visits _ block.vtx [] noted inBlock stakeTx member with
        ⟨before, after, round⟩
      rcases foldlM_visits _ stakeTx.vin before after round txin input with
        ⟨earlier, later, step⟩
      exact checkInBlock_private services indexed _ stakeTx stakeTx txin earlier later (by omega)
        (by omega) privateSpend step
    · have present : pindexPrev ≠ [] := by
        intro empty
        subst empty
        simp [CBlockIndex.contains, CBlockIndex.atHeight, CBlockIndex.nHeight] at fork
      have differs : indexed.node.chainActive ≠ pindexPrev := by
        intro same
        rw [← sameChain, same,
          (CBlockIndex.contains_iff pindexPrev pindexPrev present).mpr suffix_rfl] at fork
        cases fork
      have isFork : (!pindexPrev.isEmpty && decide (indexed.node.chainActive ≠ pindexPrev)) =
          true := by
        simp [present, differs]
      have onFork : SpentOnFork services indexed pindexPrev CTxIn.isZerocoinSpend serial := by
        unfold SpentOnFork OnFork
        rw [sameChain]
        exact spent
      exact checkFork_fresh services indexed stakeTx _ pindexPrev txin serial ordinary input
        privateSpend spends (forked isFork) onFork

def onePrivateSpend : Libzerocoin :=
  { onePublicSpend with
    coinSpend := fun _ => some
      { coinSerialNumber := 7
        denomination := .zqTen
        ptxHash := 0
        accChecksum := 0
        version := 2
        pubkey := []
        vchSig := []
        spendType := .spend
        proofs := [] } }

def mainnetAccepting : AcceptServices where
  toServices := { mainnetServices with lib := onePrivateSpend }
  nZerocoinRequiredStakeDepth := 200
  hashKernel := fun _ _ _ _ => 0
  nearEnough := fun _ _ => true
  fCheckpointsEnabled := true
  mapCheckpoints :=
    [(0, mainParams.hashGenesisBlock),
      (21000, 0x4619d25fd45b6efe951d34d98abb38db3e8c6c4a7c3aae0ff08713c72c4f77df)]
  computeNextStakeModifier := fun _ _ => (1, true)
  hashStakeModifier := fun _ _ => 1
  maxReorg := 100

def quietAccepting : AcceptState where
  toLocalState := quietNode
  isTransactionValid := fun _ _ => true
  sporkMasternodePaymentEnforcement := false
  findBlockPos := fun _ => true
  writeBlockToDisk := fun _ => true
  reconsider := fun store _ => (store, false)

def privateSpendInput : CTxIn :=
  { prevout := { hash := 0, n := 0 }, scriptSig := [0xc2, 0, 0, 0, 9], nSequence := 10 }

def privateSpendTx (hash : Uint256) : CTransaction where
  hash := hash
  nVersion := 1
  vin := [privateSpendInput]
  vout := [{ nValue := 10 * coin, scriptPubKey := [op1] }]
  nLockTime := 0

def stakedTx : CTransaction :=
  { coinbaseTx 30 with vout := [{ nValue := 100, scriptPubKey := [op1] }] }

def stakingTx (hash : Uint256) (others : List CTxIn) : CTransaction where
  hash := hash
  nVersion := 1
  vin := { prevout := { hash := 30, n := 0 }, scriptSig := [], nSequence := 0xffffffff } :: others
  vout := [{ nValue := 0, scriptPubKey := [] }, { nValue := 100, scriptPubKey := [op1] }]
  nLockTime := 0

def emptyCoinbaseTx (hash : Uint256) : CTransaction :=
  { coinbaseTx hash with vout := [{ nValue := 0, scriptPubKey := [] }] }

def stakingBlock (hash hashPrevBlock : Uint256) (nTime : UInt32) (vtx : List CTransaction) :
    CBlock :=
  { exampleBlock hash hashPrevBlock nTime vtx with nBits := 0x1e0fffff }

def activeBlock : CBlock :=
  exampleBlock 201 mainParams.hashGenesisBlock 1600000000 [coinbaseTx 31]

def besideBlock : CBlock :=
  exampleBlock 202 mainParams.hashGenesisBlock 1600000000 [coinbaseTx 32, privateSpendTx 33]

def forkedStore : BlockStore where
  node :=
    { mintedNode with
      mapBlockIndex := fileEntries
        [[genesisBlock], [activeBlock, genesisBlock], [besideBlock, genesisBlock]]
      chainActive := [activeBlock, genesisBlock]
      pcoinsTip := { hashBlock := 201, coins := fun _ => none }
      fTxIndex := true
      txIndex := fun hash => if hash = 30 then some (genesisBlock.hash, stakedTx) else none }
  nStatus := fun _ => { fFailed := false, fHaveData := true }
  stakeEntry := fun _ =>
    { nStakeModifier := 1, fGeneratedStakeModifier := true, nStakeModifierV2 := 0 }
  mapProofOfStake := fun _ => none

/-- A block behind `besideBlock` that makes its private spend again, though
not in the coinstake. -/
def respendingBlock : CBlock :=
  stakingBlock 203 202 1600000060 [emptyCoinbaseTx 34, stakingTx 35 [], privateSpendTx 36]

theorem respendingBlock_accepted :
    (acceptBlock mainnetAccepting quietAccepting forkedStore respendingBlock true).2 = .ok () := by
  decide +kernel

/-- A proof of stake block on a fork may spend a serial number of that fork
again: `AcceptBlock` compares the coinstake only. -/
theorem respent_transaction_is_accepted :
    ¬ ∀ (services : AcceptServices) (here : AcceptState) (store : BlockStore) (block : CBlock)
        (pindexPrev : CBlockIndex) (fAlreadyCheckedBlock : Bool),
      BuiltIn services.params → block.isProofOfStake = true →
      store.node.mapBlockIndex block.hashPrevBlock = some pindexPrev →
      (store.nStatus pindexPrev).fFailed = false →
      store.node.mapBlockIndex block.hash = none →
      store.node.chainActive.contains pindexPrev = false →
      (∃ tx ∈ block.vtx, ∃ txin ∈ tx.vin, ∃ serial, txin.spendsZerocoin = true ∧
        spentSerial services.lib txin = some serial ∧
        SpentOnFork services store pindexPrev CTxIn.spendsZerocoin serial) →
      ∃ stop, (acceptBlock services here store block fAlreadyCheckedBlock).2 = .error stop := by
  intro rejects
  have onFork : OnFork forkedStore [besideBlock, genesisBlock] besideBlock :=
    ⟨[genesisBlock], suffix_rfl, by decide +kernel⟩
  have spent : SpentOnFork mainnetAccepting forkedStore [besideBlock, genesisBlock]
      CTxIn.spendsZerocoin 7 :=
    ⟨besideBlock, onFork, privateSpendTx 33, by simp [besideBlock, exampleBlock],
      privateSpendInput, by simp [privateSpendTx], by decide, by decide⟩
  rcases rejects mainnetAccepting quietAccepting forkedStore respendingBlock
    [besideBlock, genesisBlock] true (Or.inl rfl) (by decide +kernel) (by decide +kernel) rfl
    (by decide +kernel) (by decide +kernel)
    ⟨privateSpendTx 36, by simp [respendingBlock, stakingBlock, exampleBlock], privateSpendInput,
      by simp [privateSpendTx], 7, by decide, by decide, spent⟩ with ⟨stop, rejected⟩
  rw [respendingBlock_accepted] at rejected
  cases rejected

/-- A block behind `besideBlock` whose coinstake makes the private spend again. -/
def respendingStake : CBlock :=
  stakingBlock 204 202 1600000060 [emptyCoinbaseTx 34, stakingTx 35 [privateSpendInput]]

theorem respending_stake_is_rejected :
    ∃ stop, (acceptBlock mainnetAccepting quietAccepting forkedStore respendingStake true).2 =
      .error stop := by
  have onFork : OnFork forkedStore [besideBlock, genesisBlock] besideBlock :=
    ⟨[genesisBlock], suffix_rfl, by decide +kernel⟩
  have spent : SpentOnFork mainnetAccepting forkedStore [besideBlock, genesisBlock]
      CTxIn.isZerocoinSpend 7 :=
    ⟨besideBlock, onFork, privateSpendTx 33, by simp [besideBlock, exampleBlock],
      privateSpendInput, by simp [privateSpendTx], by decide, by decide⟩
  have unknown : forkedStore.node.mapBlockIndex respendingStake.hash = none := by decide +kernel
  exact respent_stake_is_rejected mainnetAccepting quietAccepting forkedStore respendingStake
    [besideBlock, genesisBlock] (stakingTx 35 [privateSpendInput]) true privateSpendInput 7
    (Or.inl rfl) (by decide +kernel) rfl (by decide +kernel) rfl
    (by simp [unknown]) (by decide +kernel) (by simp [stakingTx]) (by decide) (by decide) spent

end ZenonCore.ForkSerials
