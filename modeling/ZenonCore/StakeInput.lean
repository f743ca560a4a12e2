import ZenonCore.BlockReads
import ZenonCore.DisconnectBlock
import ZenonCore.ProofOfWork

/-!
# Stake inputs and the proof of stake

The input of a coinstake, its age and modifiers, and `CheckProofOfStake`. Hashes are fields of
`StakeServices`.
-/

namespace ZenonCore.StakeInput

open Primitives ChainParams Chain Validation
open Zerocoin Chainstate ConnectBlock DisconnectBlock
open BoundedReads BlockReads ProofOfWork

/-- What an entry of the block index holds for the stakes after it. -/
structure StakeEntry where
  nStakeModifier : UInt64
  fGeneratedStakeModifier : Bool
  nStakeModifierV2 : Uint256
deriving DecidableEq, Repr

/-- The modifier of a stake before and after the second version of it. -/
inductive StakeModifier
  | modifierV1 (nStakeModifier : UInt64)
  | modifierV2 (nStakeModifierV2 : Uint256)
deriving DecidableEq, Repr

inductive Uniqueness
  | outPoint (nPosition : UInt32) (hash : Uint256)
  | serial (coinSerialNumber : Int)
deriving DecidableEq, Repr

/-- A `CStakeInput`. A zerocoin stake is a mint of the wallet's own or the
spend in a block. -/
inductive CStakeInput
  | znnStake (txFrom : CTransaction) (nPosition : UInt32)
  | zznnStake (fMint : Bool) (nChecksum : UInt32) (denom : CoinDenomination)
      (coinSerialNumber : Int)
deriving DecidableEq, Repr

structure StakeServices extends Services where
  nZerocoinRequiredStakeDepth : Int
  /-- The hash of modifier, time of the origin, uniqueness and time. -/
  hashKernel : StakeModifier → UInt32 → Uniqueness → UInt32 → Uint256

section Origin

variable (services : StakeServices) (node : NodeState)

def zerocoinDenomList : List CoinDenomination :=
  [.zqOne, .zqFive, .zqTen, .zqFifty, .zqOneHundred, .zqFiveHundred, .zqOneThousand,
    .zqFiveThousand]

/-- `ParseChecksum` by the denomination; one that is not in the list shifts
everything out. -/
def parseDenominationChecksum (nCheckpoint : Uint256) (denom : CoinDenomination) : UInt32 :=
  if denom ∈ zerocoinDenomList then parseChecksum nCheckpoint (zerocoinDenomList.idxOf denom)
  else 0

/-- The search of `GetChecksumHeight` from a height on. Checkpoints change
every ten blocks only. -/
def checksumHeightFrom (chain : CBlockIndex) (nChecksum : UInt32) (denom : CoinDenomination) :
    Nat → Int → Int
  | 0, _ => 0
  | fuel + 1, nHeight =>
    if (chain.atHeight nHeight).isEmpty then 0
    else if parseDenominationChecksum (chain.atHeight nHeight).nAccumulatorCheckpoint denom =
        nChecksum then nHeight
    else if nHeight % 10 = 0 then
      if chain.nHeight < nHeight + 10 then 0
      else checksumHeightFrom chain nChecksum denom fuel (nHeight + 10)
    else checksumHeightFrom chain nChecksum denom fuel (nHeight + 1)

/-- `GetChecksumHeight`; each round goes up by a block at least. -/
def getChecksumHeight (params : CChainParams) (chain : CBlockIndex) (nChecksum : UInt32)
    (denom : CoinDenomination) : Int :=
  checksumHeightFrom chain nChecksum denom chain.length params.nZerocoinStartHeight

/-- The block of the active chain a stake comes from; a null pointer is the
empty list. -/
def getIndexFrom : CStakeInput → CBlockIndex
  | .znnStake txFrom _ =>
    match getTransaction node txFrom.hash with
    | none => []
    | some (_, hashBlock) =>
      match node.mapBlockIndex hashBlock with
      | none => []
      | some pindex => if node.chainActive.contains pindex then pindex else []
  | .zznnStake fMint nChecksum denom _ =>
    let sought :=
      if fMint then
        parseDenominationChecksum (node.chainActive.atHeight (node.chainActive.nHeight -
          services.nZerocoinRequiredStakeDepth)).nAccumulatorCheckpoint denom
      else nChecksum
    let nHeightChecksum := getChecksumHeight services.params node.chainActive sought denom
    if nHeightChecksum < services.params.nZerocoinStartHeight ∨
        node.chainActive.nHeight < nHeightChecksum then []
    else node.chainActive.atHeight nHeightChecksum

def getUniqueness : CStakeInput → Uniqueness
  | .znnStake txFrom nPosition => .outPoint nPosition txFrom.hash
  | .zznnStake _ _ _ coinSerialNumber => .serial coinSerialNumber

def getValue : CStakeInput → Reading CAmount
  | .znnStake txFrom nPosition => do
      let txout ← readAt .stakedOutput txFrom.vout nPosition.toNat
      .ok txout.nValue
  | .zznnStake _ _ denom _ => .ok (zerocoinDenominationToAmount denom)

def oldModifierInterval : Int := 2087

/-- The loop of `GetKernelStakeModifier`, at the height of the next block. -/
def kernelModifierFrom (stakeEntry : CBlockIndex → StakeEntry) (chain : CBlockIndex)
    (nTimeBlockFrom : Int) : Nat → Int → Int → Option UInt64
  | 0, _, _ => none
  | fuel + 1, nHeight, nStakeModifierTime =>
    let pindex := chain.atHeight nHeight
    if pindex.isEmpty then none
    else
      let time :=
        if (stakeEntry pindex).fGeneratedStakeModifier then pindex.getBlockTime
        else nStakeModifierTime
      if time < nTimeBlockFrom + oldModifierInterval then
        kernelModifierFrom stakeEntry chain nTimeBlockFrom fuel (nHeight + 1) time
      else some (stakeEntry pindex).nStakeModifier

def getKernelStakeModifier (params : CChainParams) (stakeEntry : CBlockIndex → StakeEntry)
    (chain pindexFrom : CBlockIndex) : Option UInt64 :=
  if params.networkID = .regtest then some (stakeEntry pindexFrom).nStakeModifier
  else
    kernelModifierFrom stakeEntry chain pindexFrom.getBlockTime (chain.length + 1)
      (pindexFrom.nHeight + 1) pindexFrom.getBlockTime

/-- The first accumulator checkpoint more than an hour after the block that is
staked from. -/
def zerocoinModifierFrom (chain : CBlockIndex) (nTimeBlockFrom : Int) :
    Nat → CBlockIndex → Option UInt64
  | 0, _ => none
  | fuel + 1, pindex =>
    if 60 * 60 < pindex.getBlockTime - nTimeBlockFrom then
      some (UInt64.ofNat pindex.nAccumulatorCheckpoint.toNat)
    else if pindex.nHeight + 1 ≤ chain.nHeight then
      zerocoinModifierFrom chain nTimeBlockFrom fuel (chain.atHeight (pindex.nHeight + 1))
    else none

def getModifier (stakeEntry : CBlockIndex → StakeEntry) (pindexFrom : CBlockIndex) :
    CStakeInput → Option UInt64
  | .znnStake _ _ =>
    getKernelStakeModifier services.params stakeEntry node.chainActive pindexFrom
  | .zznnStake _ _ _ _ =>
    if services.params.networkID = .regtest then some (stakeEntry pindexFrom).nStakeModifier
    else
      zerocoinModifierFrom node.chainActive pindexFrom.getBlockTime node.chainActive.length
        pindexFrom

end Origin

section Kernel

variable (services : StakeServices) (node : NodeState) (stakeEntry : CBlockIndex → StakeEntry)

def entryTime : CBlockIndex → UInt32
  | [] => 0
  | block :: _ => block.nTime

def getHashProofOfStake (pindexPrev : CBlockIndex) (stake : CStakeInput) (nTimeTx : UInt32) :
    Validated Uint256 := do
  let pindexFrom := getIndexFrom services node stake
  require (!pindexFrom.isEmpty) refuse
  let modifier ← (
    if !services.params.isStakeModifierV2 (pindexPrev.nHeight + 1) then do
      let nStakeModifier ← ofOption (getModifier services node stakeEntry pindexFrom stake) refuse
      .ok (StakeModifier.modifierV1 nStakeModifier)
    else .ok (StakeModifier.modifierV2 (stakeEntry pindexPrev).nStakeModifierV2))
  .ok (services.hashKernel modifier (entryTime pindexFrom) (getUniqueness stake) nTimeTx)

def weightedTarget (nBits : UInt32) (nValueIn : CAmount) : Uint256 :=
  setCompact nBits * (BitVec.ofInt 256 (nValueIn % 2 ^ 64) / 100)

/-- `CheckStakeKernelHash`, with the hash of a stake that meets its target. -/
def checkStakeKernelHash (pindexPrev : CBlockIndex) (nBits : UInt32) (stake : CStakeInput)
    (nTimeTx : UInt32) : Reading Uint256 := do
  let hashProofOfStake ← attempt
    (getHashProofOfStake services node stakeEntry pindexPrev stake nTimeTx)
  let nValueIn ← getValue stake
  attempt (require (hashProofOfStake < weightedTarget nBits nValueIn) refuse)
  .ok hashProofOfStake

def contextualCheckZerocoinStake (nPreviousBlockHeight : Int) (stake : CStakeInput) :
    Validated Unit := do
  require (services.params.nBlockZerocoinV2 ≤ nPreviousBlockHeight) refuse
  match stake with
  | .znnStake _ _ => refuse
  | .zznnStake _ nChecksum denom _ => do
      let pindexFrom := getIndexFrom services node stake
      require (!pindexFrom.isEmpty) refuse
      require (services.nZerocoinRequiredStakeDepth ≤
        nPreviousBlockHeight + 1 - pindexFrom.nHeight) refuse
      let pindexCheckpoint := node.chainActive.atHeight
        (nPreviousBlockHeight - services.nZerocoinRequiredStakeDepth)
      require (!pindexCheckpoint.isEmpty) (.error .assertion)
      require (parseDenominationChecksum pindexCheckpoint.nAccumulatorCheckpoint
        (amountToZerocoinDenomination (zerocoinDenominationToAmount denom)) == nChecksum) refuse

/-- `initStakeInput`, from the coinstake. Nothing compares the position of the staked output with
the outputs there are. -/
def initStakeInput (tx : CTransaction) (nPreviousBlockHeight : Int) : Reading CStakeInput := do
  attempt (require tx.isCoinStake refuse)
  let txin ← readAt .kernel tx.vin 0
  if txin.isZerocoinSpend then do
    let spend ← attempt (ofFault (txInToZerocoinSpend services.lib txin))
    attempt (require (spend.spendType == .stake) refuse)
    let stake := CStakeInput.zznnStake false spend.accChecksum spend.denomination
      spend.coinSerialNumber
    attempt (contextualCheckZerocoinStake services node nPreviousBlockHeight stake)
    .ok stake
  else do
    let txPrev ← attempt (ofOption (getTransaction node txin.prevout.hash) refuse)
    let txout ← readAt .stakedOutput txPrev.1.vout txin.prevout.n.toNat
    attempt (require (services.scriptCheck txout tx 0 standardScriptVerifyFlags) refuse)
    .ok (CStakeInput.znnStake txPrev.1 txin.prevout.n)

def checkProofOfStake (block : CBlock) (pindexPrev : CBlockIndex) (nPreviousBlockHeight : Int) :
    Reading Uint256 := do
  let tx ← readAt .kernel block.vtx 1
  let stake ← initStakeInput services node tx nPreviousBlockHeight
  let txin ← readAt .kernel tx.vin 0
  let pindexFrom := getIndexFrom services node stake
  attempt (require (!pindexFrom.isEmpty) refuse)
  attempt (onlyIf (!txin.isZerocoinSpend &&
      decide (services.params.nPublicZCSpends - 1 ≤ nPreviousBlockHeight))
    (require (!services.params.isStakeModifierV2 pindexPrev.nHeight ||
      services.params.hasStakeMinAgeOrDepth (nPreviousBlockHeight + 1) block.nTime
        pindexFrom.nHeight (entryTime pindexFrom)) refuse))
  checkStakeKernelHash services node stakeEntry pindexPrev block.nBits stake block.nTime

end Kernel

end ZenonCore.StakeInput
