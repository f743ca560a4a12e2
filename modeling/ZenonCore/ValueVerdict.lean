import ZenonCore.ValueGate

/-!
# What a block may mint, and what the node has synchronised

`IsBlockValueValid` gets the subsidy of the previous height. A synchronised node compares it
with what was minted, but at superblock heights only with budget data.
-/

namespace ZenonCore.ValueVerdict

open Primitives ChainParams Coins Chain
open Validation Chainstate ConnectBlock ValueGate

/-- The heights at which `IsBlockValueValid` takes a block for a superblock. -/
def InSuperblockWindow (params : CChainParams) (nHeight : Int) : Prop :=
  nHeight < 106600 ∧ Int.tmod nHeight params.nBudgetCycleBlocks < 100

instance (params : CChainParams) (nHeight : Int) :
    Decidable (InSuperblockWindow params nHeight) :=
  inferInstanceAs (Decidable (_ ∧ _))

/-- The block is behind `pprev` in the index of a node that has a chain. -/
structure Behind (node : NodeState) (block : CBlock) (pprev : CBlockIndex) : Prop where
  active : node.chainActive ≠ []
  atTip : node.chainActive.getBlockHash = block.hashPrevBlock → pprev = node.chainActive
  known : node.mapBlockIndex block.hashPrevBlock = some pprev

def expectedMint (services : Services) (block : CBlock) (pprev : CBlockIndex)
    (acc : Connecting) : CAmount :=
  getBlockValue services.params pprev.nHeight + if block.isProofOfWork then acc.nFees else 0

def mintedValue (acc : Connecting) : CAmount := acc.nValueOut - acc.nValueIn + acc.nFees

def valueVerdict (services : Services) (masternodeSynced : Bool) (node : NodeState)
    (block : CBlock) (pprev : CBlockIndex) (acc : Connecting) : Bool :=
  isBlockValueValid services.params masternodeSynced node block
    (expectedMint services block pprev acc) (mintedValue acc)

section Verdict

variable (services : Services) (node : NodeState) (block : CBlock) (pprev : CBlockIndex)

theorem blockHeight_behind (behind : Behind node block pprev) :
    blockHeight node block = pprev.nHeight + 1 := by
  unfold blockHeight
  by_cases tip : node.chainActive.getBlockHash = block.hashPrevBlock
  · rw [if_pos tip, behind.atTip tip]
  · rw [if_neg tip, behind.known]

theorem isBlockValueValid_eq (masternodeSynced : Bool) (nExpectedValue nMinted : CAmount)
    (behind : Behind node block pprev) :
    isBlockValueValid services.params masternodeSynced node block nExpectedValue nMinted = true ↔
      (masternodeSynced = false ∧ InSuperblockWindow services.params (pprev.nHeight + 1)) ∨
        nMinted ≤ nExpectedValue := by
  have nonempty : node.chainActive.isEmpty = false := by
    cases chain : node.chainActive with
    | nil => exact absurd chain behind.active
    | cons => rfl
  unfold isBlockValueValid InSuperblockWindow
  rw [nonempty, blockHeight_behind node block pprev behind]
  cases masternodeSynced with
  | true => simp
  | false =>
    by_cases window : pprev.nHeight + 1 < 106600 ∧
        Int.tmod (pprev.nHeight + 1) services.params.nBudgetCycleBlocks < 100
    · simp [window]
    · simp [window]

/-- A connected block that is not the genesis block has passed the verdict,
with the values its loop has ended with. -/
theorem connectBlock_verdict (here : LocalState) (view : CCoinsView)
    (fJustCheck fAlreadyChecked : Bool) (acc : Connecting) (after : NodeState)
    (notGenesis : block.hash ≠ services.params.hashGenesisBlock)
    (connected : connectBlock services here node block pprev view fJustCheck fAlreadyChecked =
      .ok (acc, after)) :
    valueVerdict services here.masternodeSynced node block pprev acc = true := by
  unfold connectBlock at connected
  simp only [bind_eq_ok, onlyIf_eq_ok, require_eq_ok, exists_and_left, exists_const] at connected
  obtain ⟨_, _, _, rest⟩ := connected
  rw [if_neg notGenesis] at rest
  simp only [bind_eq_ok, dos, onlyIf_eq_ok, require_eq_ok, exists_and_left, exists_const] at rest
  obtain ⟨_, _, _, last, _, _, checked, result⟩ := rest
  unfold checkConnected at checked
  simp only [bind_eq_ok, dos, require_eq_ok, exists_and_left, exists_const] at checked
  have passed := checked.2.1
  have height : pprev.nHeight + 1 - 1 = pprev.nHeight := by omega
  rw [height] at passed
  unfold valueVerdict expectedMint mintedValue
  cases fJustCheck with
  | true =>
    rw [if_pos rfl] at result
    cases result
    exact passed
  | false =>
    rw [if_neg (by decide)] at result
    cases result
    exact passed

end Verdict

/-- Outside the window the verdict is the comparison, inside it that of a synchronised node is. A
block that mints too much is connected inside the window only, by a node that is not synchronised.
-/
theorem value_verdict_is_the_comparison (services : Services) (node : NodeState) (block : CBlock)
    (pprev : CBlockIndex) (behind : Behind node block pprev) :
    (∀ acc, valueVerdict services true node block pprev acc = true ↔
        mintedValue acc ≤ expectedMint services block pprev acc) ∧
    (∀ acc, valueVerdict services false node block pprev acc = true ↔
        InSuperblockWindow services.params (pprev.nHeight + 1) ∨
          mintedValue acc ≤ expectedMint services block pprev acc) ∧
    (¬ InSuperblockWindow services.params (pprev.nHeight + 1) →
      ∀ here acc after view fJustCheck fAlreadyChecked,
        block.hash ≠ services.params.hashGenesisBlock →
        expectedMint services block pprev acc < mintedValue acc →
        connectBlock services here node block pprev view fJustCheck fAlreadyChecked ≠
          .ok (acc, after)) := by
  have verdict := fun synced acc => isBlockValueValid_eq services node block pprev synced
    (expectedMint services block pprev acc) (mintedValue acc) behind
  refine ⟨fun acc => ?_, fun acc => ?_, ?_⟩
  · unfold valueVerdict
    rw [verdict true acc]
    simp
  · unfold valueVerdict
    rw [verdict false acc]
    simp
  · intro outside here acc after view fJustCheck fAlreadyChecked notGenesis excess connected
    have passed := connectBlock_verdict services node block pprev here view fJustCheck
      fAlreadyChecked acc after notGenesis connected
    obtain window | within := (verdict here.masternodeSynced acc).mp passed
    · exact outside window.2
    · exact absurd excess (not_lt.mpr within)

def syncingNode : LocalState := { quietNode with masternodeSynced := false }

def greedyCoinbase : CTransaction :=
  { coinbaseTx 14 with vout := [{ nValue := 1000 * coin, scriptPubKey := [Script.op1] }] }

def greedyBlock : CBlock := exampleBlock 103 101 1600000060 [greedyCoinbase]

def tipBlocks : CBlockIndex := [mintBlock, genesisBlock]

def accepts (here : LocalState) : Bool :=
  (connectBlock mainnetServices here mintedNode greedyBlock tipBlocks mintedNode.pcoinsTip false
    false).isOk

example : accepts quietNode = false := by decide +kernel

theorem greedyBlock_behind : Behind mintedNode greedyBlock tipBlocks where
  active := by decide
  atTip := fun _ => rfl
  known := rfl

/-- At a height where a superblock may be, a node that is synchronised refuses
the greedy block and one that is not connects it. -/
theorem superblock_window_splits_nodes :
    ¬ ∀ (services : Services) (node : NodeState) (block : CBlock) (pprev : CBlockIndex),
      Behind node block pprev → block.hash ≠ services.params.hashGenesisBlock →
      ∀ (first second : LocalState) (view : CCoinsView) (acc : Connecting),
        expectedMint services block pprev acc < mintedValue acc →
        valueVerdict services first.masternodeSynced node block pprev acc =
            valueVerdict services second.masternodeSynced node block pprev acc ∧
          ∀ after, connectBlock services first node block pprev view false false ≠
            .ok (acc, after) := by
  intro independent
  have connects : accepts syncingNode = true := by decide +kernel
  unfold accepts at connects
  cases outcome : connectBlock mainnetServices syncingNode mintedNode greedyBlock tipBlocks
      mintedNode.pcoinsTip false false with
  | error failure => rw [outcome] at connects; cases connects
  | ok result =>
    have minted : expectedMint mainnetServices greedyBlock tipBlocks result.1 <
        mintedValue result.1 := by
      have values : (connectBlock mainnetServices syncingNode mintedNode greedyBlock tipBlocks
          mintedNode.pcoinsTip false false).toOption.map (fun result =>
            decide (expectedMint mainnetServices greedyBlock tipBlocks result.1 <
              mintedValue result.1)) = some true := by decide +kernel
      rw [outcome] at values
      simpa [Except.toOption] using values
    exact (independent mainnetServices mintedNode greedyBlock tipBlocks greedyBlock_behind
      (by decide +kernel) syncingNode quietNode mintedNode.pcoinsTip result.1 minted).2
      result.2 outcome

/-- The comparison at the next block behind the example chain. -/
theorem greedyBlock_verdict :
    (∀ acc, valueVerdict mainnetServices true mintedNode greedyBlock tipBlocks acc = true ↔
      mintedValue acc ≤ expectedMint mainnetServices greedyBlock tipBlocks acc) ∧
    InSuperblockWindow mainnetServices.params (CBlockIndex.nHeight tipBlocks + 1) :=
  ⟨(value_verdict_is_the_comparison mainnetServices mintedNode greedyBlock tipBlocks
    greedyBlock_behind).1, by decide⟩

end ZenonCore.ValueVerdict
