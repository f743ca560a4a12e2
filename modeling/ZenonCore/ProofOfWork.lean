import Mathlib.Data.Nat.Log
import ZenonCore.Chain
import ZenonCore.Validation

/-!
# Targets and their retargeting

`GetNextWorkRequired` and `CheckWork`. Numbers wrap at 256 bits, and a factor is cut to 32
bits.
-/

namespace ZenonCore.ProofOfWork

open Primitives ChainParams Chain Validation

def setCompact (nCompact : UInt32) : Uint256 :=
  let nSize := (nCompact >>> 24).toNat
  let nWord := (nCompact &&& 0x007fffff).toNat
  if nSize ≤ 3 then BitVec.ofNat 256 (nWord >>> (8 * (3 - nSize)))
  else BitVec.ofNat 256 nWord <<< (8 * (nSize - 3))

def bits (n : Uint256) : Nat := if n = 0 then 0 else n.toNat.log2 + 1

/-- `uint256::GetCompact`. The mantissa gives up a byte if its top bit would be
read as the sign. -/
def getCompact (n : Uint256) : UInt32 :=
  let nSize := (bits n + 7) / 8
  let nCompact :=
    if nSize ≤ 3 then n.toNat <<< (8 * (3 - nSize)) else n.toNat >>> (8 * (nSize - 3))
  if nCompact &&& 0x00800000 ≠ 0 then UInt32.ofNat (nCompact >>> 8 ||| (nSize + 1) <<< 24)
  else UInt32.ofNat (nCompact ||| nSize <<< 24)

/-- `operator*=(uint32_t)`, called with a signed factor of 64 bits. -/
def mulWord (n : Uint256) (factor : Int) : Uint256 := n * BitVec.ofInt 256 (factor % 2 ^ 32)

/-- The target of the proof of stake phase moves with the time of one block. -/
def nextStakeTarget (block : CBlock) (pprev : CBlockIndex) : Uint256 :=
  let bnTargetLimit : Uint256 := BitVec.allOnes 256 >>> 24
  let nTargetSpacing : Int := 60
  let nInterval : Int := 40
  let elapsed := block.getBlockTime - pprev.getBlockTime
  let nActualSpacing := if elapsed < 0 then 1 else elapsed
  let scaled := mulWord (setCompact block.nBits)
    ((nInterval - 1) * nTargetSpacing + nActualSpacing + nActualSpacing)
  let bnNew := scaled / BitVec.ofInt 256 ((nInterval + 1) * nTargetSpacing)
  if bnNew = 0 ∨ bnTargetLimit < bnNew then bnTargetLimit else bnNew

/-- The running average of the targets of the last blocks, newest first. -/
def pastDifficultyAverage (blocks : List CBlock) : Uint256 :=
  blocks.zipIdx.foldl (fun average entry =>
    if entry.2 = 0 then setCompact entry.1.nBits
    else
      (mulWord average (entry.2 + 1) + setCompact entry.1.nBits) / BitVec.ofNat 256 (entry.2 + 2))
    0

/-- The time between the first and the last of some blocks, newest first. A
time of zero is not counted from. -/
def pastTimespan : List CBlock → Int
  | newer :: older :: rest =>
    (if 0 < newer.getBlockTime then newer.getBlockTime - older.getBlockTime else 0) +
      pastTimespan (older :: rest)
  | _ => 0

/-- The target of the proof of work phase, from the last 24 blocks. -/
def nextWorkTarget (params : CChainParams) (pindexLast : CBlockIndex) : Uint256 :=
  let blocks := pindexLast.take 24
  let nTargetTimespan := 24 * params.nTargetSpacing
  let nActualTimespan :=
    max (min (pastTimespan blocks) (nTargetTimespan * 3)) (Int.tdiv nTargetTimespan 3)
  let bnNew := mulWord (pastDifficultyAverage blocks) nActualTimespan /
    BitVec.ofInt 256 nTargetTimespan
  if params.bnProofOfWorkLimit < bnNew then params.bnProofOfWorkLimit else bnNew

def getNextWorkRequired (params : CChainParams) (pindexLast : CBlockIndex) : UInt32 :=
  match pindexLast with
  | [] => getCompact params.bnProofOfWorkLimit
  | block :: pprev =>
    if params.networkID = .regtest then block.nBits
    else if CBlockIndex.nHeight pindexLast < 24 then getCompact params.bnProofOfWorkLimit
    else if params.nLastPOWBlock < CBlockIndex.nHeight pindexLast then
      getCompact (nextStakeTarget block pprev)
    else getCompact (nextWorkTarget params pindexLast)

/-- `CheckWork`. Under proof of work the target may be half off; `nearEnough` tells the outcome in
floating point. -/
def checkWork (params : CChainParams) (nearEnough : UInt32 → UInt32 → Bool) (block : CBlock)
    (pindexPrev : CBlockIndex) : Bool :=
  let nBitsRequired := getNextWorkRequired params pindexPrev
  if pindexPrev.isEmpty then false
  else if params.networkID ≠ .regtest ∧ block.isProofOfWork ∧ pindexPrev.nHeight + 1 ≤ 321 then
    nearEnough block.nBits nBitsRequired
  else block.nBits == nBitsRequired

end ZenonCore.ProofOfWork
