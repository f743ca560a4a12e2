import Mathlib.Data.List.Sort
import ZenonCore.ChainParams

/-!
# Block index entries and the active chain

An entry is its block with all its ancestors behind it: `pprev` is the tail, and the height is
the number of ancestors.
-/

namespace ZenonCore.Chain

open Primitives ChainParams

abbrev CBlockIndex := List CBlock

namespace CBlockIndex

/-- The height of an entry; `chainActive.Height()` is -1 for an empty chain. -/
def nHeight (pindex : CBlockIndex) : Int := (pindex.length : Int) - 1

def pprev (pindex : CBlockIndex) : CBlockIndex := pindex.tail

/-- `GetBlockHash`, zero for a null pointer as `ConnectBlock` takes it. -/
def getBlockHash : CBlockIndex → Uint256
  | [] => 0
  | block :: _ => block.hash

def getBlockTime : CBlockIndex → Int
  | [] => 0
  | block :: _ => block.getBlockTime

/-- `CBlockIndex(block)` takes the checkpoint of a header of version 4 on. -/
def nAccumulatorCheckpoint : CBlockIndex → Uint256
  | [] => 0
  | block :: _ => if 3 < block.nVersion then block.nAccumulatorCheckpoint else 0

def atHeight (chain : CBlockIndex) (nHeight : Int) : CBlockIndex :=
  if 0 ≤ nHeight ∧ nHeight < chain.length then chain.drop (chain.length - 1 - nHeight.toNat)
  else []

def contains (chain pindex : CBlockIndex) : Bool :=
  decide (chain.atHeight pindex.nHeight = pindex)

def nMedianTimeSpan : Nat := 11

def getMedianTimePast (pindex : CBlockIndex) : Int :=
  let pmedian := ((pindex.take nMedianTimeSpan).map CBlock.getBlockTime).insertionSort (· ≤ ·)
  pmedian.getD (pmedian.length / 2) 0

/-- `MinPastBlockTime`. Before the first block of time protocol V2 the previous one may be ahead. -/
def minPastBlockTime (params : CChainParams) (pindex : CBlockIndex) : Int :=
  if !params.isTimeProtocolV2 (pindex.nHeight + 1) then pindex.getMedianTimePast
  else if pindex.nHeight + 1 = params.nBlockTimeProtocolV2 then
    pindex.getBlockTime - params.futureBlockTimeDrift pindex.nHeight +
      params.futureBlockTimeDrift (pindex.nHeight + 1)
  else pindex.getBlockTime

def maxFutureBlockTime (params : CChainParams) (adjustedTime : Int) (pindex : CBlockIndex) : Int :=
  adjustedTime + params.futureBlockTimeDrift (pindex.nHeight + 1)

/-- `IsSuperMajority`, over the last `nToCheckBlockUpgradeMajority` blocks. -/
def isSuperMajority (params : CChainParams) (minVersion : Int) (pstart : CBlockIndex)
    (nRequired : Nat) : Bool :=
  nRequired ≤ ((pstart.take params.nToCheckBlockUpgradeMajority).countP
    fun block => minVersion ≤ block.nVersion)

variable (block : CBlock) (pprev : CBlockIndex)

@[simp] theorem nHeight_cons :
    nHeight (block :: pprev) = nHeight pprev + 1 := by
  simp [nHeight]

@[simp] theorem getBlockHash_cons :
    getBlockHash (block :: pprev) = block.hash := rfl

theorem atHeight_suffix (chain : CBlockIndex) (nHeight : Int) :
    chain.atHeight nHeight <:+ chain := by
  unfold atHeight
  split_ifs
  · exact List.drop_suffix _ _
  · exact List.nil_suffix

theorem atHeight_of_suffix (chain pindex : CBlockIndex) (suffix : pindex <:+ chain)
    (present : pindex ≠ []) : chain.atHeight pindex.nHeight = pindex := by
  obtain ⟨newer, rfl⟩ := suffix
  have positive : 0 < pindex.length := List.length_pos_iff.mpr present
  have inside : 0 ≤ nHeight pindex ∧ nHeight pindex < ((newer ++ pindex).length : Int) := by
    simp only [nHeight, List.length_append]
    omega
  have position : (newer ++ pindex).length - 1 - (nHeight pindex).toNat = newer.length := by
    simp only [nHeight, List.length_append]
    omega
  rw [atHeight, if_pos inside, position]
  exact List.drop_left

theorem contains_iff (chain pindex : CBlockIndex) (present : pindex ≠ []) :
    chain.contains pindex = true ↔ pindex <:+ chain := by
  rw [contains, decide_eq_true_iff]
  constructor
  · intro found
    have suffix := atHeight_suffix chain pindex.nHeight
    rwa [found] at suffix
  · intro suffix
    exact atHeight_of_suffix chain pindex suffix present

end CBlockIndex

end ZenonCore.Chain
