import ZenonCore.BaseUint
import ZenonCore.ForkSerials

/-!
# The target of a stake kernel

`CheckStakeKernelHash`, whose product is cut to 256 bits without a check, beside the test
without a bound.
-/

namespace ZenonCore.StakeKernel

open BaseUint Chain Chainstate ChainParams
open Primitives ProofOfWork StakeInput Validation
open BlockReads BoundedReads
open ForkSerials ValueGate

/-- A stake that is checked, with the hash of its kernel and its value in the
range of money. -/
structure Kernel where
  services : StakeServices
  node : NodeState
  stakeEntry : CBlockIndex → StakeEntry
  pindexPrev : CBlockIndex
  stake : CStakeInput
  nTimeTx : UInt32
  hashProofOfStake : Uint256
  nValueIn : CAmount
  hashed : getHashProofOfStake services node stakeEntry pindexPrev stake nTimeTx =
    .ok hashProofOfStake
  valued : getValue stake = .ok nValueIn
  moneyRange : services.params.moneyRange nValueIn = true
  builtIn : BuiltIn services.params

namespace Kernel

variable (kernel : Kernel) (nBits : UInt32)

def Accepted : Prop :=
  checkStakeKernelHash kernel.services kernel.node kernel.stakeEntry kernel.pindexPrev nBits
    kernel.stake kernel.nTimeTx = .ok kernel.hashProofOfStake

def weight : Nat := kernel.nValueIn.toNat / 100

def weighted : Nat := (setCompact nBits).toNat * kernel.weight

/-- The test over unbounded numbers is the one that is made. -/
def JudgedExactly : Prop :=
  kernel.Accepted nBits ↔ kernel.hashProofOfStake.toNat < kernel.weighted nBits

def LosesNothing : Prop :=
  kernel.weighted nBits < 2 ^ 256 ∨
    kernel.hashProofOfStake.toNat < kernel.weighted nBits % 2 ^ 256

theorem nonneg : 0 ≤ kernel.nValueIn := by
  have range := kernel.moneyRange
  unfold CChainParams.moneyRange at range
  rw [Bool.and_eq_true, decide_eq_true_eq] at range
  exact range.1

theorem small : kernel.nValueIn < 2 ^ 63 := by
  have range := kernel.moneyRange
  unfold CChainParams.moneyRange at range
  rw [Bool.and_eq_true, decide_eq_true_eq, decide_eq_true_eq] at range
  have supply : kernel.services.params.nMaxMoneyOut < 2 ^ 63 := by
    obtain main | ⟨hash, testnet | regtest⟩ := kernel.builtIn
    · rw [main]
      decide
    · rw [testnet]
      show (43199500 * coin : Int) < 2 ^ 63
      decide
    · rw [regtest]
      show (43199500 * coin : Int) < 2 ^ 63
      decide
  exact lt_of_le_of_lt range.2 supply

theorem weightedTarget_toNat :
    (weightedTarget nBits kernel.nValueIn).toNat = kernel.weighted nBits % 2 ^ 256 := by
  have nonneg := kernel.nonneg
  have small := kernel.small
  obtain ⟨value, same⟩ := Int.eq_ofNat_of_zero_le nonneg
  rw [same] at small
  have bound : value < 2 ^ 63 := by exact_mod_cast small
  have whole : (kernel.nValueIn % 2 ^ 64) = (value : Int) := by
    rw [same]
    omega
  have unsigned : (BitVec.ofInt 256 (kernel.nValueIn % 2 ^ 64)).toNat = value := by
    rw [whole, BitVec.ofInt_natCast, BitVec.toNat_ofNat]
    exact Nat.mod_eq_of_lt (bound.trans (by decide))
  unfold weightedTarget weighted weight
  rw [BitVec.toNat_mul, BitVec.toNat_udiv, unsigned, same, Int.toNat_natCast]
  rfl

theorem accepted_iff :
    kernel.Accepted nBits ↔
      kernel.hashProofOfStake.toNat < kernel.weighted nBits % 2 ^ 256 := by
  rw [← weightedTarget_toNat, ← BitVec.lt_def]
  unfold Accepted checkStakeKernelHash
  rw [kernel.hashed, kernel.valued]
  show (do
    attempt (require (decide (kernel.hashProofOfStake < weightedTarget nBits kernel.nValueIn)) refuse)
    .ok kernel.hashProofOfStake : Reading Uint256) = .ok kernel.hashProofOfStake ↔ _
  constructor
  · intro accepted
    by_contra above
    rw [decide_eq_false above] at accepted
    cases accepted
  · intro below
    rw [decide_eq_true below]
    rfl

theorem judgedExactly_iff : kernel.JudgedExactly nBits ↔ kernel.LosesNothing nBits := by
  unfold JudgedExactly LosesNothing
  rw [accepted_iff]
  have hash := kernel.hashProofOfStake.isLt
  constructor
  · intro same
    by_cases fits : kernel.weighted nBits < 2 ^ 256
    · exact Or.inl fits
    · right
      exact same.mpr (by omega)
  · rintro (fits | below)
    · rw [Nat.mod_eq_of_lt fits]
    · constructor
      · intro _
        exact lt_of_lt_of_le below (Nat.mod_le _ _)
      · intro _
        exact below

theorem weighted_mono (other : Kernel) (more : kernel.nValueIn ≤ other.nValueIn) :
    kernel.weighted nBits ≤ other.weighted nBits := by
  unfold weighted weight
  exact Nat.mul_le_mul_left _ (Nat.div_le_div_right (Int.toNat_le_toNat more))

end Kernel

/-- Two kernels with one hash are judged exactly, and with more value the hash
is accepted where it is with less. -/
structure JudgedFairly (nBits : UInt32) (less more : Kernel) : Prop where
  lessExactly : less.JudgedExactly nBits
  moreExactly : more.JudgedExactly nBits
  monotone : less.Accepted nBits → more.Accepted nBits

/-- Two stakes of one kernel hash are judged as over unbounded numbers if and only if what their
products lose does not matter. -/
theorem judged_fairly_iff (nBits : UInt32) (less more : Kernel)
    (sameHash : less.hashProofOfStake = more.hashProofOfStake)
    (ordered : less.nValueIn ≤ more.nValueIn) :
    JudgedFairly nBits less more ↔ less.LosesNothing nBits ∧ more.LosesNothing nBits := by
  rw [← less.judgedExactly_iff, ← more.judgedExactly_iff]
  constructor
  · intro fair
    exact ⟨fair.lessExactly, fair.moreExactly⟩
  · intro exact
    refine ⟨exact.1, exact.2, ?_⟩
    intro accepted
    have below := exact.1.mp accepted
    rw [sameHash] at below
    exact exact.2.mpr (lt_of_lt_of_le below (less.weighted_mono nBits more ordered))

/-- A stake of the main network, from an output of the genesis block. -/
def exampleKernel (nValueIn : CAmount) (moneyRange : mainParams.moneyRange nValueIn = true) :
    Kernel where
  services := mainnetAccepting.toStakeServices
  node := forkedStore.node
  stakeEntry := forkedStore.stakeEntry
  pindexPrev := [genesisBlock]
  stake := .znnStake { stakedTx with vout := [{ nValue := nValueIn, scriptPubKey := [] }] } 0
  nTimeTx := 1600000060
  hashProofOfStake := 0
  nValueIn := nValueIn
  hashed := by
    show getHashProofOfStake mainnetAccepting.toStakeServices forkedStore.node
      forkedStore.stakeEntry [genesisBlock] (.znnStake stakedTx 0) 1600000060 = .ok 0
    decide +kernel
  valued := rfl
  moneyRange := moneyRange
  builtIn := Or.inl rfl

/-- With targets far below the limit the stakes are judged fairly. -/
theorem judged_fairly_at_difficulty :
    JudgedFairly 0x1b00ffff (exampleKernel 100 (by decide)) (exampleKernel 200 (by decide)) :=
  (judged_fairly_iff 0x1b00ffff (exampleKernel 100 (by decide)) (exampleKernel 200 (by decide)) rfl
    (by decide)).mpr ⟨Or.inl (by decide +kernel), Or.inl (by decide +kernel)⟩

/-- A kernel hash of zero is accepted for a stake of 100 and refused for one of about a million
coins, whose product is cut to zero. -/
theorem heavier_stake_is_refused :
    ¬ ∀ (nBits : UInt32) (less more : Kernel), (setCompact nBits).toNat ≤ 2 ^ 232 - 1 →
      less.hashProofOfStake = more.hashProofOfStake → less.nValueIn ≤ more.nValueIn →
      JudgedFairly nBits less more := by
  intro always
  have fair := always 0x1e00ffff (exampleKernel 100 (by decide))
    (exampleKernel (100 * 2 ^ 40) (by decide)) (by decide +kernel) rfl (by decide)
  have light : (exampleKernel 100 (by decide)).Accepted 0x1e00ffff :=
    ((exampleKernel 100 (by decide)).accepted_iff 0x1e00ffff).mpr (by decide +kernel)
  have heavy := ((exampleKernel (100 * 2 ^ 40) (by decide)).accepted_iff 0x1e00ffff).mp
    (fair.monotone light)
  exact absurd heavy (by decide +kernel)

end ZenonCore.StakeKernel
