import ZenonCore.ConnectBlock

/-!
# The zerocoin value gate

`ConnectBlock` credits the denomination of every zerocoin input; whether it was validated was
decided before, from the header's time.
-/

namespace ZenonCore.ValueGate

open Script Primitives ChainParams Coins
open Mempool Chain Validation Zerocoin
open Chainstate CheckBlock ConnectBlock

/-- `CheckZerocoinSpend`, with the proofs verified, accepts the transaction at
the tip at which the block was checked. -/
def SpendValidated (services : Services) (node : NodeState) (tx : CTransaction) : Prop :=
  checkZerocoinSpend services node tx true
    (isBlockBetweenFakeSerialAttackRange services.params (node.chainActive.nHeight + 1)) = .ok ()

/-- Every zerocoin value that a connected block gets credited was validated,
and before zerocoin starts none is. -/
structure CreditsValidated (services : Services) (node : NodeState) (block : CBlock)
    (connected : Connecting) : Prop where
  validated : ∀ tx txin, (tx, txin) ∈ connected.credited → SpendValidated services node tx
  notBeforeStart : block.getBlockTime ≤ services.params.nZerocoinStartTime →
    connected.credited = []

section Credits

variable (services : Services) (here : LocalState) (node : NodeState)

theorem transactionsConnected_credited (nHeight : Int) (i : Nat) (vtx : List CTransaction)
    (acc last : Connecting)
    (connected : TransactionsConnected services node nHeight i vtx acc last) :
    last.credited = acc.credited ++
      vtx.flatMap fun tx => tx.zerocoinInputs.map fun txin => (tx, txin) := by
  induction connected with
  | done => simp
  | round i tx rest acc next last taken later ih =>
    rw [ih, taken.credited]
    simp

/-- The inputs credited are the zerocoin inputs; the genesis block is connected without its own. -/
theorem connectBlock_credited (block : CBlock) (pprev : CBlockIndex) (view : CCoinsView)
    (fJustCheck fAlreadyChecked : Bool) (acc : Connecting) (after : NodeState)
    (connected : connectBlock services here node block pprev view fJustCheck fAlreadyChecked =
      .ok (acc, after)) :
    acc.credited =
      if block.hash = services.params.hashGenesisBlock then []
      else block.zerocoinInputs := by
  rcases (connectBlock_ok services here node block pprev view fJustCheck fAlreadyChecked acc after
    connected).2.2 with ⟨genesis, start, _⟩ | ⟨later, _, last, loop, result⟩
  · rw [start, if_pos genesis]
    rfl
  · have credited := transactionsConnected_credited services node _ 0 block.vtx _ last loop
    have same : acc.credited = last.credited := by
      split_ifs at result
      · rw [(Prod.mk.inj result).1]
      · rw [(Prod.mk.inj result).1]
    rw [same, credited, if_neg later]
    rfl

theorem blockInputs_eq_nil (block : CBlock) :
    block.zerocoinInputs = [] ↔ ∀ tx ∈ block.vtx, tx.hasZerocoinSpendInputs = false := by
  simp only [CBlock.zerocoinInputs, List.flatMap_eq_nil_iff, List.map_eq_nil_iff,
    zerocoinInputs_eq_nil]

theorem checkTransaction_spends (tx : CTransaction) (fFakeSerialAttack : Bool)
    (zerocoin : tx.hasZerocoinSpendInputs = true)
    (checked : checkTransaction services here node tx true fFakeSerialAttack = .ok ()) :
    checkZerocoinSpend services node tx (verifiesSignatures here node) fFakeSerialAttack =
      .ok () := by
  unfold checkTransaction checkZerocoinInputs at checked
  simp only [bind_eq_ok, dos, require_eq_ok, onlyIf_eq_ok, orDos_eq_ok, exists_and_left,
    exists_const] at checked
  obtain ⟨_, _, _, _, _, _, _, _, inputs, _⟩ := checked
  exact (inputs trivial).2 zerocoin |>.2

theorem checkBlock_spends (block : CBlock) (fCheckMerkleRoot : Bool)
    (checked : checkBlock services here node block fCheckMerkleRoot = .ok ())
    (verifies : verifiesSignatures here node = true)
    (active : services.params.nZerocoinStartTime < block.getBlockTime) (tx : CTransaction)
    (member : tx ∈ block.vtx) (zerocoin : tx.hasZerocoinSpendInputs = true) :
    SpendValidated services node tx := by
  have isActive : zerocoinActive services.params block = true := by
    simp [zerocoinActive, active]
  unfold checkBlock at checked
  simp only [bind_eq_ok, isActive] at checked
  obtain ⟨_, _, _, _, _, _, _, _, _, _, last, loop, _⟩ := checked
  obtain ⟨before, after, round⟩ := foldlM_visits _ block.vtx [] last loop tx member
  unfold checkBlockTransaction at round
  rw [bind_eq_ok] at round
  obtain ⟨_, transaction, _⟩ := round
  have spends := checkTransaction_spends services here node tx _ zerocoin transaction
  rwa [verifies] at spends

end Credits

/-- Only validated value is credited exactly if the transactions are skipped, the block's time is
after the start of zerocoin, or it has no zerocoin inputs. -/
theorem credits_validated_iff (services : Services) (hereChecked hereConnected : LocalState)
    (nodeChecked nodeConnected after : NodeState) (block : CBlock) (pprev : CBlockIndex)
    (view : CCoinsView) (fCheckMerkleRoot fJustCheck fAlreadyChecked : Bool)
    (acc : Connecting)
    (checked : checkBlock services hereChecked nodeChecked block fCheckMerkleRoot = .ok ())
    (verifies : verifiesSignatures hereChecked nodeChecked = true)
    (connected : connectBlock services hereConnected nodeConnected block pprev view fJustCheck
      fAlreadyChecked = .ok (acc, after)) :
    CreditsValidated services nodeChecked block acc ↔
      block.hash = services.params.hashGenesisBlock ∨
      services.params.nZerocoinStartTime < block.getBlockTime ∨
      ∀ tx ∈ block.vtx, tx.hasZerocoinSpendInputs = false := by
  have credited := connectBlock_credited services hereConnected nodeConnected block pprev view
    fJustCheck fAlreadyChecked acc after connected
  by_cases genesis : block.hash = services.params.hashGenesisBlock
  · rw [if_pos genesis] at credited
    have none : CreditsValidated services nodeChecked block acc :=
      { validated := by simp [credited]
        notBeforeStart := fun _ => credited }
    exact iff_of_true none (Or.inl genesis)
  · rw [if_neg genesis] at credited
    constructor
    · intro validated
      right
      by_cases active : services.params.nZerocoinStartTime < block.getBlockTime
      · exact Or.inl active
      · right
        rw [← blockInputs_eq_nil, ← credited]
        exact validated.notBeforeStart (not_lt.mp active)
    · intro condition
      obtain isGenesis | active | without := condition
      · exact absurd isGenesis genesis
      · constructor
        · intro tx txin member
          rw [credited, mem_zerocoinInputs] at member
          obtain ⟨inBlock, input, zerocoin⟩ := member
          exact checkBlock_spends services hereChecked nodeChecked block fCheckMerkleRoot checked
            verifies active tx inBlock (hasZerocoinSpendInputs_of_mem tx txin input zerocoin)
        · intro early
          omega
      · have none := (blockInputs_eq_nil block).mpr without
        exact
          { validated := by simp [credited, none]
            notBeforeStart := fun _ => credited.trans none }

/-- A library that reads one public spend, of a coin of the second version. -/
def onePublicSpend : Libzerocoin where
  coinSpend := fun _ => none
  publicCoinSpend := fun _ => some
    { coinSerialNumber := 7
      denomination := .zqError
      ptxHash := 0
      accChecksum := 0
      version := 2
      pubkey := []
      vchSig := []
      spendType := .spend
      proofs := []
      randomness := 3
      txHash := 0
      outputIndex := 0
      pubCoin := { value := 0, denomination := .zqError } }
  parseSerial := fun _ => none
  hasValidSignature := fun _ => some false
  hasValidSerial := fun _ _ => true
  verify := fun _ _ _ _ => false
  commitmentValue := fun _ _ => 0
  validate := fun _ => true
  getHash := fun _ _ _ _ => 77

def mainnetServices : Services where
  params := mainParams
  lib := onePublicSpend
  getSerializeSize := fun _ => 300
  getBlockSerializeSize := fun _ => 1000
  buildMerkleTree := fun _ => (55, false)
  checkProofOfWork := fun _ _ => true
  getLegacySigOpCount := fun _ => 1
  getP2SHSigOpCount := fun _ _ => 0
  scriptCheck := fun _ _ _ _ => true
  getTotalBlocksEstimate := 0
  containsOutPoint := fun _ => false
  isStandardTx := fun _ => true
  areInputsStandard := fun _ _ => true

def quietNode : LocalState where
  getTime := 1600000600
  getAdjustedTime := 1600000600
  isInitialBlockDownload := false
  sporkZerocoinMaintenanceMode := 4070908800
  sporkSwiftTXBlockFiltering := false
  mapLockedInputs := fun _ => none
  isBlockPayeeValid := fun _ _ => true
  masternodeSynced := true
  updateZZNNSupply := fun _ => true
  validateAccumulatorCheckpoint := fun _ => true
  databaseChecksums := fun _ => []
  nScriptCheckThreads := 0
  feePolicy := fun _ _ => .ok ()
  shutdownRequested := false

def coinbaseTx (hash : Uint256) : CTransaction where
  hash := hash
  nVersion := 1
  vin := [{ prevout := .null, scriptSig := [1, 2], nSequence := 0xffffffff }]
  vout := [{ nValue := 10 * coin, scriptPubKey := [op1] }]
  nLockTime := 0

def exampleBlock (hash hashPrevBlock : Uint256) (nTime : UInt32) (vtx : List CTransaction) :
    CBlock where
  hash := hash
  nVersion := 3
  hashPrevBlock := hashPrevBlock
  hashMerkleRoot := 55
  nTime := nTime
  nBits := 0x1e0ffff0
  nNonce := 0
  nAccumulatorCheckpoint := 0
  vtx := vtx
  vchBlockSig := []

/-- A transaction that mints ten coins, from a time when that was possible. -/
def mintTx : CTransaction where
  hash := 11
  nVersion := 1
  vin := [{ prevout := { hash := 9, n := 0 }, scriptSig := [], nSequence := 0xffffffff }]
  vout := [{ nValue := 10 * coin, scriptPubKey := [0xc1, 0, 0, 0, 0, 0, 5] }]
  nLockTime := 0

def genesisBlock : CBlock := exampleBlock mainParams.hashGenesisBlock 0 1553068993 []

def mintBlock : CBlock :=
  exampleBlock 101 mainParams.hashGenesisBlock 1600000000 [coinbaseTx 10, mintTx]

def mintedNode : NodeState where
  mapBlockIndex := fun hash =>
    if hash = 101 then some [mintBlock, genesisBlock]
    else if hash = mainParams.hashGenesisBlock then some [genesisBlock]
    else none
  chainActive := [mintBlock, genesisBlock]
  pcoinsTip :=
    { hashBlock := 101
      coins := fun txid => if txid = 11 then some (CCoins.fromTx mintTx 1) else none }
  mempool := CTxMemPool.empty
  zerocoinDB := CZerocoinDB.empty
  fTxIndex := false
  txIndex := fun _ => none
  blockUndo := fun _ => none
  fVerifyingBlocks := false

/-- A public spend of the mint whose `nSequence` is not the denomination. -/
def wrongDenominationTx : CTransaction where
  hash := 12
  nVersion := 1
  vin := [{ prevout := { hash := 11, n := 0 }, scriptSig := [0xc3, 0, 0, 0], nSequence := 500 }]
  vout := [{ nValue := 10 * coin, scriptPubKey := [op1] }]
  nLockTime := 0

def earlyBlock : CBlock := exampleBlock 102 101 1600000060 [coinbaseTx 13, wrongDenominationTx]

theorem earlyBlock_checked :
    checkBlock mainnetServices quietNode mintedNode earlyBlock true = .ok () := by
  decide +kernel

theorem earlyBlock_connected :
    ∃ acc after, connectBlock mainnetServices quietNode mintedNode earlyBlock
        [mintBlock, genesisBlock] mintedNode.pcoinsTip false true = .ok (acc, after) := by
  have succeeds : (connectBlock mainnetServices quietNode mintedNode earlyBlock
      [mintBlock, genesisBlock] mintedNode.pcoinsTip false true).isOk = true := by
    decide +kernel
  cases outcome : connectBlock mainnetServices quietNode mintedNode earlyBlock
      [mintBlock, genesisBlock] mintedNode.pcoinsTip false true with
  | error failure => rw [outcome] at succeeds; cases succeeds
  | ok result => exact ⟨result.1, result.2, rfl⟩

/-- A block of today that spends the mint with a wrong denomination is connected, and its value is
credited. -/
theorem early_spend_is_credited_unvalidated :
    ¬ ∀ (services : Services) (here : LocalState) (node after : NodeState) (block : CBlock)
        (pprev : CBlockIndex) (view : CCoinsView) (acc : Connecting),
      checkBlock services here node block true = .ok () →
      verifiesSignatures here node = true →
      connectBlock services here node block pprev view false true = .ok (acc, after) →
      CreditsValidated services node block acc := by
  intro gate
  obtain ⟨acc, after, connected⟩ := earlyBlock_connected
  have validated := gate mainnetServices quietNode mintedNode after earlyBlock
    [mintBlock, genesisBlock] mintedNode.pcoinsTip acc earlyBlock_checked (by decide +kernel)
    connected
  have credited := connectBlock_credited mainnetServices quietNode mintedNode earlyBlock _ _ _ _
    acc after connected
  have none := validated.notBeforeStart (by decide)
  rw [credited] at none
  exact absurd none (by decide +kernel)

/-- The equivalence at that block: its time is not after the start and it
has a zerocoin input, so the gate does not hold. -/
theorem early_block_is_not_gated :
    ∃ acc, ¬ CreditsValidated mainnetServices mintedNode earlyBlock acc := by
  obtain ⟨acc, after, connected⟩ := earlyBlock_connected
  have gate := credits_validated_iff mainnetServices quietNode quietNode mintedNode mintedNode
    after earlyBlock [mintBlock, genesisBlock] mintedNode.pcoinsTip true false true acc
    earlyBlock_checked (by decide +kernel) connected
  exact ⟨acc, fun validated => absurd (gate.mp validated) (by decide +kernel)⟩

end ZenonCore.ValueGate
