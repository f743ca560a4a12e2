import ZenonCore.Primitives

/-!
# Chain parameters

The parameters of the networks and the predicates `CChainParams` computes from
them. Heights are signed, as they are in the source.
-/

namespace ZenonCore.ChainParams

open Primitives

inductive Network
  | main
  | testnet
  | regtest
deriving DecidableEq, Repr

structure CChainParams where
  networkID : Network
  hashGenesisBlock : Uint256
  nDefaultPort : Nat
  bnProofOfWorkLimit : Uint256
  nMaxReorganizationDepth : Int
  nEnforceBlockUpgradeMajority : Nat
  nRejectBlockOutdatedMajority : Nat
  nToCheckBlockUpgradeMajority : Nat
  nTargetSpacing : Int
  nLastPOWBlock : Int
  nMaturity : Int
  nStakeMinDepth : Int
  nFutureTimeDriftPoW : Int
  nFutureTimeDriftPoS : Int
  nTimeSlotLength : Int
  nModifierUpdateBlock : Int
  nMaxMoneyOut : CAmount
  nZerocoinStartHeight : Int
  nZerocoinStartTime : Int
  nBlockEnforceSerialRange : Int
  nBlockEnforceInvalidUTXO : Int
  nBlockZerocoinV2 : Int
  nBlockStakeModifierlV2 : Int
  nBlockTimeProtocolV2 : Int
  nFakeSerialBlockheightEnd : Int
  nPublicZCSpends : Int
  nBudgetCycleBlocks : Int
  nMaxZerocoinSpendsPerTransaction : Nat
  nMaxZerocoinPublicSpendsPerTransaction : Nat
  nMinZerocoinMintFee : CAmount
  fAllowMinDifficultyBlocks : Bool
  fSkipProofOfWorkCheck : Bool
  fRequireStandard : Bool

/-- `CMainParams`. No constructor of the source sets `nPublicZCSpends`, which
is zero in an object of static storage. -/
def mainParams : CChainParams where
  networkID := .main
  hashGenesisBlock := 0x00000c428e1dfaf5cca80be43e445d7c6f2835d837c3d35a8243e0e0570f92ee
  nDefaultPort := 35993
  bnProofOfWorkLimit := (BitVec.allOnes 256) >>> 20
  nMaxReorganizationDepth := 100
  nEnforceBlockUpgradeMajority := 8100
  nRejectBlockOutdatedMajority := 10260
  nToCheckBlockUpgradeMajority := 10800
  nTargetSpacing := 60
  nLastPOWBlock := 321
  nMaturity := 100
  nStakeMinDepth := 600
  nFutureTimeDriftPoW := 7200
  nFutureTimeDriftPoS := 180
  nTimeSlotLength := 15
  nModifierUpdateBlock := 2147483000
  nMaxMoneyOut := 398360470 * coin
  nZerocoinStartHeight := 2147483000
  nZerocoinStartTime := 2147483000
  nBlockEnforceSerialRange := 2147483000
  nBlockEnforceInvalidUTXO := 120555
  nBlockZerocoinV2 := 2147483000
  nBlockStakeModifierlV2 := 260720
  nBlockTimeProtocolV2 := 640000
  nFakeSerialBlockheightEnd := 1686215
  nPublicZCSpends := 0
  nBudgetCycleBlocks := 720
  nMaxZerocoinSpendsPerTransaction := 7
  nMaxZerocoinPublicSpendsPerTransaction := 637
  nMinZerocoinMintFee := 1000000
  fAllowMinDifficultyBlocks := false
  fSkipProofOfWorkCheck := false
  fRequireStandard := true

/-- `CTestNetParams`; the source computes the hash of its genesis block. -/
def testNetParams (hashGenesisBlock : Uint256) : CChainParams :=
  { mainParams with
    networkID := .testnet
    hashGenesisBlock := hashGenesisBlock
    nDefaultPort := 35990
    nEnforceBlockUpgradeMajority := 51
    nRejectBlockOutdatedMajority := 75
    nToCheckBlockUpgradeMajority := 100
    nMaturity := 15
    nStakeMinDepth := 100
    nModifierUpdateBlock := 51197
    nMaxMoneyOut := 43199500 * coin
    nZerocoinStartHeight := 900900900
    nBudgetCycleBlocks := 144
    nBlockEnforceSerialRange := 1
    fAllowMinDifficultyBlocks := true }

def regTestParams (hashGenesisBlock : Uint256) : CChainParams :=
  { testNetParams hashGenesisBlock with
    networkID := .regtest
    nEnforceBlockUpgradeMajority := 750
    nRejectBlockOutdatedMajority := 950
    nToCheckBlockUpgradeMajority := 1000
    bnProofOfWorkLimit := (BitVec.allOnes 256) >>> 1
    fRequireStandard := false
    fSkipProofOfWorkCheck := true }

namespace CChainParams

variable (params : CChainParams)

def isStakeModifierV2 (nHeight : Int) : Bool := params.nBlockStakeModifierlV2 ≤ nHeight

def isTimeProtocolV2 (nHeight : Int) : Bool := params.nBlockTimeProtocolV2 ≤ nHeight

def moneyRange (nValue : CAmount) : Bool := 0 ≤ nValue && nValue ≤ params.nMaxMoneyOut

/-- Before modifier V2 the output has to be an hour old, after it `nStakeMinDepth` deep; sums have
32 bits. -/
def hasStakeMinAgeOrDepth (contextHeight : Int) (contextTime : UInt32)
    (utxoFromBlockHeight : Int) (utxoFromBlockTime : UInt32) : Bool :=
  if !params.isStakeModifierV2 contextHeight then
    params.networkID == .regtest || utxoFromBlockTime + 3600 ≤ contextTime
  else params.nStakeMinDepth ≤ contextHeight - utxoFromBlockHeight

def futureBlockTimeDrift (nHeight : Int) : Int :=
  if params.isTimeProtocolV2 nHeight then params.nTimeSlotLength - 1
  else if params.nLastPOWBlock < nHeight then params.nFutureTimeDriftPoS
  else params.nFutureTimeDriftPoW

def isValidBlockTimeStamp (nTime nHeight : Int) : Bool :=
  if !params.isTimeProtocolV2 nHeight then true
  else Int.tmod nTime params.nTimeSlotLength == 0

end CChainParams

end ZenonCore.ChainParams
