import ZenonCore.ReadsInside

/-!
# Outputs looked up by their index

`GetOutput` compares the index by `>`, and `initStakeInput` does not compare it.
-/

namespace ZenonCore.PreviousOutputs

open AcceptBlock BlockReads BoundedReads Chain
open Chainstate ForkSerials Primitives ReadsInside
open StakeInput Validation ValueGate

def getOutputReading (node : NodeState) (hash : Uint256) (index : UInt32) : Reading CTxOut :=
  match getTransaction node hash with
  | none => attempt (dos 100 "")
  | some (txPrev, _) =>
    if txPrev.vout.length < index.toNat then attempt (dos 100 "")
    else readAt .previousOutput txPrev.vout index.toNat

/-- The index is the number of outputs of the transaction that is found. -/
def NamesEnd (node : NodeState) (hash : Uint256) (index : UInt32) : Prop :=
  ∃ txPrev hashBlock, getTransaction node hash = some (txPrev, hashBlock) ∧
    index.toNat = txPrev.vout.length

section GetOutput

variable (node : NodeState) (hash : Uint256) (index : UInt32)

theorem getOutputReading_outside (site : Site) :
    getOutputReading node hash index = .error (.outside site) ↔
      site = .previousOutput ∧ NamesEnd node hash index := by
  unfold getOutputReading NamesEnd
  cases found : getTransaction node hash with
  | none => simp [attempt, dos]
  | some pair =>
    obtain ⟨txPrev, hashBlock⟩ := pair
    dsimp only
    split
    · rename_i beyond
      simp only [attempt_outside, false_iff, not_and, not_exists, Option.some.injEq,
        Prod.mk.injEq]
      intro _ other _ same named
      rw [← same.1] at named
      omega
    · rename_i notBeyond
      rw [readAt_outside]
      constructor
      · intro outside
        exact ⟨outside.1.symm, txPrev, hashBlock, rfl, by omega⟩
      · intro outside
        obtain ⟨place, other, block, same, named⟩ := outside
        cases same
        exact ⟨place.symm, by omega⟩

end GetOutput

/-- `GetOutput` reads an output or fails exactly if the index is not the number of outputs;
`CheckTransaction` if no public spend has such an index, and `CheckProofOfStake` if the kernel's
output is there. -/
theorem previous_outputs_inside_iff (services : AcceptServices) (here : LocalState)
    (store : BlockStore) :
    (∀ hash index, Inside (getOutputReading store.node hash index) ↔
        ¬ NamesEnd store.node hash index) ∧
      (∀ tx fZerocoinActive fFakeSerialAttack,
        Inside (checkTransactionReading services.toServices here store.node tx fZerocoinActive
            fFakeSerialAttack) ↔
          ¬ RedeemsBehind services.toServices here store.node fZerocoinActive
            fFakeSerialAttack tx) ∧
      (∀ block pindexPrev nPreviousBlockHeight, block.isProofOfStake = true →
        (Inside (checkProofOfStake services.toStakeServices store.node store.stakeEntry block
            pindexPrev nPreviousBlockHeight) ↔ ¬ KernelOutputMissing store.node block)) := by
  refine ⟨?_, ?_, ?_⟩
  · intro hash index
    unfold Inside
    simp only [ne_eq, getOutputReading_outside]
    constructor
    · exact fun inside named => inside .previousOutput ⟨rfl, named⟩
    · exact fun inside _ outside => inside outside.2
  · intro tx fZerocoinActive fFakeSerialAttack
    unfold Inside
    simp only [ne_eq, checkTransactionReading_outside]
    constructor
    · exact fun inside behind => inside .previousOutput ⟨rfl, behind⟩
    · exact fun inside _ outside => inside outside.2
  · intro block pindexPrev nPreviousBlockHeight proofOfStake
    unfold Inside
    simp only [ne_eq, checkProofOfStake_outside services store block pindexPrev
      nPreviousBlockHeight proofOfStake]
    constructor
    · exact fun inside missing => inside .stakedOutput ⟨rfl, missing⟩
    · exact fun inside _ outside => inside outside.2

/-- A block that stakes an output of the one transaction the node knows. -/
def stakingBlockOf (position : UInt32) : CBlock :=
  let input : CTxIn :=
    { prevout := { hash := 30, n := position }, scriptSig := [], nSequence := 0xffffffff }
  stakingBlock 300 201 1600000060
    [emptyCoinbaseTx 40, { stakingTx 41 [] with vin := [input] }]

theorem staked_output_is_there :
    Inside (checkProofOfStake mainnetAccepting.toStakeServices forkedStore.node
      forkedStore.stakeEntry (stakingBlockOf 0) [activeBlock, genesisBlock] 1) := by
  have iff := (previous_outputs_inside_iff mainnetAccepting quietNode forkedStore).2.2
    (stakingBlockOf 0) [activeBlock, genesisBlock] 1 (by decide +kernel)
  apply iff.mpr
  rintro ⟨tx, txin, txPrev, hashBlock, second, first, _, found, beyond⟩
  have coinstake : tx = (stakingBlockOf 0).vtx[1] := (Option.some.inj second).symm
  subst coinstake
  cases first
  have lookup : getTransaction forkedStore.node 30 = some (stakedTx, genesisBlock.hash) := by
    decide +kernel
  have same : some (stakedTx, genesisBlock.hash) = some (txPrev, hashBlock) :=
    lookup.symm.trans found
  cases same
  exact absurd beyond (by decide)

/-- Both lookups read behind the end: of the one output of the staked
transaction, the second is looked up. -/
theorem output_behind_the_last_is_read :
    ¬ ∀ (services : AcceptServices) (store : BlockStore) (hash : Uint256) (index : UInt32)
        (block : CBlock) (pindexPrev : CBlockIndex),
      Inside (getOutputReading store.node hash index) ∧
        (block.isProofOfStake = true →
          Inside (checkProofOfStake services.toStakeServices store.node store.stakeEntry block
            pindexPrev pindexPrev.nHeight)) := by
  intro inside
  have both := inside mainnetAccepting forkedStore 30 1 (stakingBlockOf 1)
    [activeBlock, genesisBlock]
  have lookup : getOutputReading forkedStore.node 30 1 = .error (.outside .previousOutput) := by
    decide +kernel
  exact both.1 .previousOutput lookup

end ZenonCore.PreviousOutputs
