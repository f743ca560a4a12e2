import ZenonCore.Serialize

/-!
# Entries of the block index on disk

`CBlockIndex` with the fields kept on disk, and `CDiskBlockIndex`.
-/

namespace ZenonCore.BlockIndexDisk

open ChainParams (CChainParams)
open Formats Primitives Script Serialize
open MoneySupply (SupplyEntry)
open Zerocoin (CoinDenomination)

def clientVersion : Nat := 1060400

/-- `BLOCK_PROOF_OF_STAKE`, `BLOCK_STAKE_ENTROPY` and `BLOCK_STAKE_MODIFIER`. -/
def blockProofOfStake : UInt32 := 1
def blockStakeEntropy : UInt32 := 2
def blockStakeModifier : UInt32 := 4

/-- `BLOCK_HAVE_DATA`, `BLOCK_HAVE_UNDO` and `BLOCK_FAILED_MASK`. -/
def blockHaveData : UInt32 := 8
def blockHaveUndo : UInt32 := 16
def blockFailedMask : UInt32 := 96

structure BlockIndexEntry where
  pprev : Option Uint256
  nHeight : Nat
  nFile : Nat
  nDataPos : UInt32
  nUndoPos : UInt32
  nTx : UInt32
  nStatus : UInt32
  nFlags : UInt32
  nStakeModifier : UInt64
  /-- In memory only, by its comment. -/
  nStakeModifierChecksum : UInt32
  prevoutStake : COutPoint
  nStakeTime : UInt32
  hashProofOfStake : Uint256
  nMint : CAmount
  nMoneySupply : CAmount
  nStakeModifierV2 : Uint256
  nVersion : Int
  hashMerkleRoot : Uint256
  nTime : UInt32
  nBits : UInt32
  nNonce : UInt32
  nAccumulatorCheckpoint : Uint256
  mapZerocoinSupply : CoinDenomination → Int
  vMintDenominationsInBlock : List CoinDenomination

namespace BlockIndexEntry

def null : BlockIndexEntry where
  pprev := none
  nHeight := 0
  nFile := 0
  nDataPos := 0
  nUndoPos := 0
  nTx := 0
  nStatus := 0
  nFlags := 0
  nStakeModifier := 0
  nStakeModifierChecksum := 0
  prevoutStake := COutPoint.null
  nStakeTime := 0
  hashProofOfStake := 0
  nMint := 0
  nMoneySupply := 0
  nStakeModifierV2 := 0
  nVersion := 0
  hashMerkleRoot := 0
  nTime := 0
  nBits := 0
  nNonce := 0
  nAccumulatorCheckpoint := 0
  mapZerocoinSupply := fun _ => 0
  vMintDenominationsInBlock := []

variable (entry : BlockIndexEntry)

def isProofOfStake : Bool := entry.nFlags &&& blockProofOfStake != 0

def haveData : Bool := entry.nStatus &&& blockHaveData != 0

def haveUndo : Bool := entry.nStatus &&& blockHaveUndo != 0

def failed : Bool := entry.nStatus &&& blockFailedMask != 0

/-- Entries with a version above 3 have a checkpoint and a zerocoin supply. -/
def hasZerocoin : Bool := decide (3 < entry.nVersion)

end BlockIndexEntry

/-- The two hash functions of a header, on its bytes in memory. -/
structure HeaderHashes where
  hashQuark : Bytes → Uint256
  hash : Bytes → Uint256

def HeaderHashes.getHash (hashes : HeaderHashes) (nVersion : Int)
    (hashPrevBlock hashMerkleRoot : Uint256) (nTime nBits nNonce : UInt32)
    (nAccumulatorCheckpoint : Uint256) : Uint256 :=
  let header := (signed 4).write nVersion ++ (uint256.write hashPrevBlock ++
    (uint256.write hashMerkleRoot ++ (uint32.write nTime ++ (uint32.write nBits ++
      uint32.write nNonce))))
  if nVersion < 4 then hashes.hashQuark header
  else hashes.hash (header ++ uint256.write nAccumulatorCheckpoint)

theorem HeaderHashes.getHash_checkpoint (hashes : HeaderHashes) (nVersion : Int)
    (hashPrevBlock hashMerkleRoot : Uint256) (nTime nBits nNonce : UInt32)
    (first second : Uint256) (old : nVersion ≤ 3) :
    hashes.getHash nVersion hashPrevBlock hashMerkleRoot nTime nBits nNonce first =
      hashes.getHash nVersion hashPrevBlock hashMerkleRoot nTime nBits nNonce second := by
  unfold HeaderHashes.getHash
  rw [if_pos (by omega), if_pos (by omega)]

structure CDiskBlockIndex extends BlockIndexEntry where
  hashPrev : Uint256
  hashNext : Uint256

namespace CDiskBlockIndex

def ofEntry (pindex : BlockIndexEntry) : CDiskBlockIndex :=
  { pindex with hashPrev := pindex.pprev.getD 0, hashNext := 0 }

def getBlockHash (hashes : HeaderHashes) (disk : CDiskBlockIndex) : Uint256 :=
  hashes.getHash disk.nVersion disk.hashPrev disk.hashMerkleRoot disk.nTime disk.nBits
    disk.nNonce disk.nAccumulatorCheckpoint

def write (params : CChainParams) (disk : CDiskBlockIndex) : Bytes :=
  varInt.write clientVersion ++ (varInt.write disk.nHeight ++ (varUInt32.write disk.nStatus ++
  (varUInt32.write disk.nTx ++
  (Format.writeIf (disk.haveData || disk.haveUndo) varInt disk.nFile ++
  (Format.writeIf disk.haveData varUInt32 disk.nDataPos ++
  (Format.writeIf disk.haveUndo varUInt32 disk.nUndoPos ++
  ((signed 8).write disk.nMint ++ ((signed 8).write disk.nMoneySupply ++
  (uint32.write disk.nFlags ++
  (Format.writeIf (!params.isStakeModifierV2 disk.nHeight) uint64 disk.nStakeModifier ++
  (Format.writeIf (params.isStakeModifierV2 disk.nHeight) uint256 disk.nStakeModifierV2 ++
  (Format.writeIf disk.isProofOfStake outPoint disk.prevoutStake ++
  (Format.writeIf disk.isProofOfStake uint32 disk.nStakeTime ++
  ((signed 4).write disk.nVersion ++ (uint256.write disk.hashPrev ++
  (uint256.write disk.hashNext ++ (uint256.write disk.hashMerkleRoot ++
  (uint32.write disk.nTime ++ (uint32.write disk.nBits ++ (uint32.write disk.nNonce ++
  (Format.writeIf disk.hasZerocoin uint256 disk.nAccumulatorCheckpoint ++
  (Format.writeIf disk.hasZerocoin supply disk.mapZerocoinSupply ++
  Format.writeIf disk.hasZerocoin denominations disk.vMintDenominationsInBlock
  ))))))))))))))))))))))

/-- `SerializationOp`, reading into a new entry: what is not read keeps its
initial value. -/
def read (params : CChainParams) : Reader UInt8 CDiskBlockIndex := do
  let _ ← varInt.read
  let nHeight ← varInt.read
  let nStatus ← varUInt32.read
  let nTx ← varUInt32.read
  let haveData := nStatus &&& blockHaveData != 0
  let haveUndo := nStatus &&& blockHaveUndo != 0
  let nFile ← Format.readIf (haveData || haveUndo) varInt 0
  let nDataPos ← Format.readIf haveData varUInt32 0
  let nUndoPos ← Format.readIf haveUndo varUInt32 0
  let nMint ← (signed 8).read
  let nMoneySupply ← (signed 8).read
  let nFlags ← uint32.read
  let nStakeModifier ← Format.readIf (!params.isStakeModifierV2 nHeight) uint64 0
  let nStakeModifierV2 ← Format.readIf (params.isStakeModifierV2 nHeight) uint256 0
  let isProofOfStake := nFlags &&& blockProofOfStake != 0
  let prevoutStake ← Format.readIf isProofOfStake outPoint COutPoint.null
  let nStakeTime ← Format.readIf isProofOfStake uint32 0
  let nVersion ← (signed 4).read
  let hashPrev ← uint256.read
  let hashNext ← uint256.read
  let hashMerkleRoot ← uint256.read
  let nTime ← uint32.read
  let nBits ← uint32.read
  let nNonce ← uint32.read
  let hasZerocoin := decide (3 < nVersion)
  let nAccumulatorCheckpoint ← Format.readIf hasZerocoin uint256 0
  let mapZerocoinSupply ← Format.readIf hasZerocoin supply fun _ => 0
  let vMintDenominationsInBlock ← Format.readIf hasZerocoin denominations []
  pure
    { pprev := none
      nHeight := nHeight
      nFile := nFile
      nDataPos := nDataPos
      nUndoPos := nUndoPos
      nTx := nTx
      nStatus := nStatus
      nFlags := nFlags
      nStakeModifier := nStakeModifier
      nStakeModifierChecksum := 0
      prevoutStake := prevoutStake
      nStakeTime := nStakeTime
      hashProofOfStake := 0
      nMint := nMint
      nMoneySupply := nMoneySupply
      nStakeModifierV2 := nStakeModifierV2
      nVersion := nVersion
      hashMerkleRoot := hashMerkleRoot
      nTime := nTime
      nBits := nBits
      nNonce := nNonce
      nAccumulatorCheckpoint := nAccumulatorCheckpoint
      mapZerocoinSupply := mapZerocoinSupply
      vMintDenominationsInBlock := vMintDenominationsInBlock
      hashPrev := hashPrev
      hashNext := hashNext }

end CDiskBlockIndex

/-- The values of an entry are in the ranges of their types on disk. -/
structure Storable (entry : BlockIndexEntry) : Prop where
  nHeight : entry.nHeight < 2 ^ 31
  nFile : entry.nFile < 2 ^ 31
  nMint : IsInt64 entry.nMint
  nMoneySupply : IsInt64 entry.nMoneySupply
  nVersion : (signed 4).fits entry.nVersion
  mapZerocoinSupply : IsSupply entry.mapZerocoinSupply
  vMintDenominationsInBlock : entry.vMintDenominationsInBlock.length ≤ NetMessage.maxSize

def stored (params : CChainParams) (entry : BlockIndexEntry) : BlockIndexEntry :=
  { entry with
    nFile := if entry.haveData || entry.haveUndo then entry.nFile else 0
    nDataPos := if entry.haveData then entry.nDataPos else 0
    nUndoPos := if entry.haveUndo then entry.nUndoPos else 0
    nStakeModifier := if !params.isStakeModifierV2 entry.nHeight then entry.nStakeModifier else 0
    nStakeModifierV2 := if params.isStakeModifierV2 entry.nHeight then entry.nStakeModifierV2 else 0
    nStakeModifierChecksum := 0
    prevoutStake := if entry.isProofOfStake then entry.prevoutStake else COutPoint.null
    nStakeTime := if entry.isProofOfStake then entry.nStakeTime else 0
    hashProofOfStake := 0
    nAccumulatorCheckpoint := if entry.hasZerocoin then entry.nAccumulatorCheckpoint else 0
    mapZerocoinSupply := if entry.hasZerocoin then entry.mapZerocoinSupply else fun _ => 0
    vMintDenominationsInBlock :=
      if entry.hasZerocoin then entry.vMintDenominationsInBlock else [] }

theorem clientVersion_fits : varInt.fits clientVersion := by
  show 1060400 < 2 ^ 32
  decide

/-- A record is read as what is left of its entry, with the hash of the
predecessor in the place of the pointer. -/
theorem read_write (params : CChainParams) (entry : BlockIndexEntry) (storable : Storable entry)
    (rest : Bytes) :
    (CDiskBlockIndex.read params).run
        ((CDiskBlockIndex.ofEntry entry).write params ++ rest) =
      some ({ stored params entry with
        pprev := none
        hashPrev := entry.pprev.getD 0
        hashNext := 0 }, rest) := by
  have height : varInt.fits entry.nHeight := by
    have bound := storable.nHeight
    show entry.nHeight < 2 ^ 32
    omega
  have file : varInt.fits entry.nFile := by
    have bound := storable.nFile
    show entry.nFile < 2 ^ 32
    omega
  have mints : denominations.fits entry.vMintDenominationsInBlock :=
    ⟨storable.vMintDenominationsInBlock, fun denom _ => denomination_fits denom⟩
  unfold CDiskBlockIndex.read CDiskBlockIndex.write CDiskBlockIndex.ofEntry stored
  simp only [List.append_assoc, BlockIndexEntry.haveData, BlockIndexEntry.haveUndo,
    BlockIndexEntry.isProofOfStake, BlockIndexEntry.hasZerocoin]
  rw [varInt.run_bind clientVersion clientVersion_fits, varInt.run_bind entry.nHeight height,
    varUInt32.run_bind entry.nStatus (varUInt32_fits _),
    varUInt32.run_bind entry.nTx (varUInt32_fits _)]
  -- where the block and its undo data lie
  rw [Format.run_bind_if _ varInt entry.nFile 0 fun _ => file,
    Format.run_bind_if _ varUInt32 entry.nDataPos 0 fun _ => varUInt32_fits _,
    Format.run_bind_if _ varUInt32 entry.nUndoPos 0 fun _ => varUInt32_fits _]
  -- the supply and the stake
  rw [(signed 8).run_bind entry.nMint storable.nMint,
    (signed 8).run_bind entry.nMoneySupply storable.nMoneySupply,
    uint32.run_bind entry.nFlags (uint32_fits _),
    Format.run_bind_if _ uint64 entry.nStakeModifier 0 fun _ => uint64_fits _,
    Format.run_bind_if _ uint256 entry.nStakeModifierV2 0 fun _ => uint256_fits _,
    Format.run_bind_if _ outPoint entry.prevoutStake COutPoint.null fun _ => outPoint_fits _,
    Format.run_bind_if _ uint32 entry.nStakeTime 0 fun _ => uint32_fits _]
  -- the header
  rw [(signed 4).run_bind entry.nVersion storable.nVersion,
    uint256.run_bind (entry.pprev.getD 0) (uint256_fits _), uint256.run_bind 0 (uint256_fits _),
    uint256.run_bind entry.hashMerkleRoot (uint256_fits _),
    uint32.run_bind entry.nTime (uint32_fits _), uint32.run_bind entry.nBits (uint32_fits _),
    uint32.run_bind entry.nNonce (uint32_fits _)]
  -- the zerocoins
  rw [Format.run_bind_if _ uint256 entry.nAccumulatorCheckpoint 0 fun _ => uint256_fits _,
    Format.run_bind_if _ supply entry.mapZerocoinSupply _ fun _ => storable.mapZerocoinSupply,
    Format.run_bind_if _ denominations entry.vMintDenominationsInBlock [] fun _ => mints]
  rfl

end ZenonCore.BlockIndexDisk
