import ZenonCore.AddrManCheck
import ZenonCore.BlockIndexDisk

/-!
# The address manager on disk

`Serialize`, and the bytes that `Unserialize` reads. What is read does not depend on what is done
with it, so it is parsed at once.
-/

namespace ZenonCore.AddrMan

open BlockIndexDisk (clientVersion)
open Script (Bytes)
open Formats Library.OrderedStores Library.Runs NetMessage Primitives Serialize

structure DiskInfo extends CAddress where
  source : CNetAddr
  nLastSuccess : Int
  nAttempts : Int

def toDisk (info : CAddrInfo) : DiskInfo :=
  { toCAddress := info.toCAddress
    source := info.source
    nLastSuccess := info.nLastSuccess
    nAttempts := info.nAttempts }

def int32 : ByteFormat Int := signed 4

def netAddr : ByteFormat CNetAddr :=
  (unsigned 16).convert BitVec.toNat (BitVec.ofNat 128) fun ip => BitVec.ofNat_toNat 128 ip

def netPort : ByteFormat UInt16 :=
  (Format.pair (unsigned 1) (unsigned 1)).convert (fun port => (port.toNat / 256, port.toNat % 256))
    (fun bytes => UInt16.ofNat (bytes.1 * 256 + bytes.2))
    fun port => by rw [Nat.div_add_mod', UInt16.ofNat_toNat]

def diskInfo : ByteFormat DiskInfo :=
  (Format.pair int32 (Format.pair uint32 (Format.pair uint64 (Format.pair netAddr
    (Format.pair netPort (Format.pair netAddr (Format.pair (signed 8) int32))))))).convert
    (fun disk => (clientVersion, disk.nTime, disk.nServices, disk.ip, disk.port, disk.source,
      disk.nLastSuccess, disk.nAttempts))
    (fun read =>
      { nTime := read.2.1
        nServices := read.2.2.1
        ip := read.2.2.2.1
        port := read.2.2.2.2.1
        source := read.2.2.2.2.2.1
        nLastSuccess := read.2.2.2.2.2.2.1
        nAttempts := read.2.2.2.2.2.2.2 })
    fun _ => rfl

def bucketIds : ByteFormat (List Int) :=
  Format.counted (int32.convert Int.ofNat Int.toNat fun _ => rfl) int32

structure Stored where
  nVersion : Nat
  nKey : Uint256
  nNew : Int
  nTried : Int
  nUBuckets : Int
  newInfos : List DiskInfo
  triedInfos : List DiskInfo
  buckets : List (List Int)

def flipBucketBit (n : Int) : Int := (BitVec.ofInt 32 n ^^^ BitVec.ofNat 32 (2 ^ 30)).toInt

def writeStored (stored : Stored) : Bytes :=
  (unsigned 1).write stored.nVersion ++ ((unsigned 1).write 32 ++ (uint256.write stored.nKey ++
    (int32.write stored.nNew ++ (int32.write stored.nTried ++ (int32.write stored.nUBuckets ++
    (stored.newInfos.flatMap diskInfo.write ++ (stored.triedInfos.flatMap diskInfo.write ++
    stored.buckets.flatMap bucketIds.write)))))))

def readStored : Reader UInt8 Stored := do
  let nVersion ← (unsigned 1).read
  let nKeySize ← (unsigned 1).read
  if nKeySize ≠ 32 then failure
  let nKey ← uint256.read
  let nNew ← int32.read
  let nTried ← int32.read
  let nUBuckets ← int32.read
  let newInfos ← Format.readMany diskInfo nNew.toNat
  let triedInfos ← Format.readMany diskInfo nTried.toNat
  let nUBuckets := if nVersion ≠ 0 then flipBucketBit nUBuckets else nUBuckets
  let buckets ← Format.readMany bucketIds nUBuckets.toNat
  pure
    { nVersion := nVersion
      nKey := nKey
      nNew := nNew
      nTried := nTried
      nUBuckets := nUBuckets
      newInfos := newInfos
      triedInfos := triedInfos
      buckets := buckets }

/-- `mapUnkIds[nId]`, the number of the new entries before; `operator[]` gives 0 for an unknown id.
-/
def unkId : List (Int × CAddrInfo) → Int → Int → Int
  | [], _, _ => 0
  | (n, info) :: rest, nIds, nId =>
    if n = nId then nIds
    else unkId rest (if info.nRefCount ≠ 0 then nIds + 1 else nIds) nId

def newRecords (man : CAddrMan) : List (Int × CAddrInfo) :=
  man.mapInfo.records.filter fun record => record.2.nRefCount ≠ 0

def triedRecords (man : CAddrMan) : List (Int × CAddrInfo) :=
  man.mapInfo.records.filter fun record => record.2.fInTried

def occupiedSlots (man : CAddrMan) (bucket : Nat) : List (Nat × Nat) :=
  ((List.range bucketSize).map fun i => (bucket, i)).filter fun slot => man.vvNew slot ≠ -1

/-- The parts that `Serialize` writes, unless a counter is too small for the entries. -/
def storedOf (man : CAddrMan) : Option Stored :=
  if 0 ≤ man.nNew ∧ man.nNew < (newRecords man).length ∨
      0 ≤ man.nTried ∧ man.nTried < (triedRecords man).length then none
  else
    some
      { nVersion := 1
        nKey := man.nKey
        nNew := man.nNew
        nTried := man.nTried
        nUBuckets := flipBucketBit newBucketCount
        newInfos := (newRecords man).map fun record => toDisk record.2
        triedInfos := (triedRecords man).map fun record => toDisk record.2
        buckets := (List.range newBucketCount).map fun bucket =>
          (occupiedSlots man bucket).map fun slot =>
            unkId man.mapInfo.records 0 (man.vvNew slot) }

def serialize (man : CAddrMan) : Option Bytes := (storedOf man).map writeStored

section ReadBack

theorem readMany_bind {α β : Type} (format : ByteFormat α) (values : List α)
    (fitting : ∀ value ∈ values, format.fits value) (next : List α → Reader UInt8 β)
    (rest : Bytes) :
    (Format.readMany format values.length >>= next).run (values.flatMap format.write ++ rest) =
      (next values).run rest := by
  rw [StateT.run_bind, Format.readMany_write format values fitting rest]
  rfl

/-- What comes back from the bytes of a file in the current format. -/
theorem readStored_write (stored : Stored) (version : stored.nVersion = 1)
    (news : stored.nNew = stored.newInfos.length) (trieds : stored.nTried = stored.triedInfos.length)
    (count : stored.nUBuckets = flipBucketBit newBucketCount)
    (all : stored.buckets.length = newBucketCount)
    (newFits : int32.fits stored.nNew ∧ ∀ disk ∈ stored.newInfos, diskInfo.fits disk)
    (triedFits : int32.fits stored.nTried ∧ ∀ disk ∈ stored.triedInfos, diskInfo.fits disk)
    (idsFit : ∀ ids ∈ stored.buckets, bucketIds.fits ids) :
    readStored.run (writeStored stored) =
      some ({ stored with nUBuckets := newBucketCount }, []) := by
  have flipped : int32.fits stored.nUBuckets := by
    rw [count, show flipBucketBit newBucketCount = 1073742848 from by decide]
    exact ⟨by decide, by decide⟩
  have small (number : Nat) (less : number < 256) : (unsigned 1).fits number := less
  unfold writeStored readStored
  rw [(unsigned 1).run_bind _ (small _ (by rw [version]; decide)),
    (unsigned 1).run_bind 32 (small 32 (by decide))]
  simp only [ne_eq, not_true_eq_false, if_false]
  rw [uint256.run_bind _ (uint256_fits _), int32.run_bind _ newFits.1, int32.run_bind _ triedFits.1,
    int32.run_bind _ flipped, news, trieds, Int.toNat_natCast, Int.toNat_natCast,
    readMany_bind diskInfo _ newFits.2, readMany_bind diskInfo _ triedFits.2, version, count]
  have back : (if (1 : Nat) ≠ 0 then flipBucketBit (flipBucketBit newBucketCount)
      else flipBucketBit newBucketCount) = newBucketCount := by decide
  simp only [back]
  have parsed := readMany_bind bucketIds stored.buckets idsFit (fun buckets => pure
    { stored with
      nUBuckets := newBucketCount
      buckets := buckets }) []
  rw [all, List.append_nil] at parsed
  rw [← version, ← news, ← trieds]
  exact parsed

theorem unkId_bounds (records : List (Int × CAddrInfo)) (nIds nId : Int) (start : 0 ≤ nIds) :
    0 ≤ unkId records nIds nId ∧ unkId records nIds nId ≤ nIds + records.length := by
  induction records generalizing nIds with
  | nil => exact ⟨le_refl 0, by simpa [unkId] using start⟩
  | cons record rest ih =>
    have same := ih nIds start
    have next := ih (nIds + 1) (by omega)
    simp only [unkId, List.length_cons]
    split_ifs <;> omega

/-- A sound manager passes the assertions of `Serialize`, and the parts of its entries and of its
new table are read back as they were written. -/
theorem serialized_parts_come_back {net : Network} {man : CAddrMan}
    (sound : Sound net (fun _ => False) 0 man) (few : (man.mapInfo.records.length : Int) < 2 ^ 31)
    (fits : ∀ record ∈ man.mapInfo.records, diskInfo.fits (toDisk record.2)) :
    ∃ stored, storedOf man = some stored ∧
      stored.newInfos.length + stored.triedInfos.length = man.mapInfo.records.length ∧
      readStored.run (writeStored stored) =
        some ({ stored with nUBuckets := newBucketCount }, []) := by
  have notTried (record : Int × CAddrInfo) (member : record ∈ man.mapInfo.records) :
      decide (record.2.nRefCount ≠ 0) = !record.2.fInTried := by
    have healthy := sound.healthy record.1 _
      (entries_read ((OrderedStore.read_eq_some _ record.1 record.2).mpr member))
    have new := healthy.new
    have tried := healthy.tried
    cases kind : record.2.fInTried <;> simp [kind, forget] at new tried ⊢ <;> omega
  have news : newRecords man = man.mapInfo.records.filter fun record => !record.2.fInTried :=
    List.filter_congr notTried
  have newCount := record_count sound false (fun record => !record.2.fInTried) (by simp)
  have triedCount := record_count sound true (fun record => record.2.fInTried) (by simp)
  have countedNew := sound.counted.new
  have countedTried := sound.counted.tried
  rw [← newCount, ← news, add_zero] at countedNew
  rw [← triedCount] at countedTried
  have split := List.length_eq_length_filter_add (l := man.mapInfo.records)
    fun record => record.2.fInTried
  rw [← news] at split
  have small (n : Int) (low : 0 ≤ n) (high : n < 2 ^ 31) : int32.fits n := ⟨by omega, by omega⟩
  have each (keep : Int × CAddrInfo → Bool) : ∀ disk ∈ (man.mapInfo.records.filter keep).map
      fun record => toDisk record.2, diskInfo.fits disk := by
    simp only [List.forall_mem_map]
    exact fun record member => fits record (List.mem_filter.mp member).1
  have newFits : int32.fits man.nNew := small _ (by omega) (by omega)
  have triedFits : int32.fits man.nTried := small _ (by omega) (by omega)
  have stored : storedOf man = some _ := if_neg (by simp only [triedRecords]; omega)
  refine ⟨_, stored, ?_, readStored_write _ rfl ?_ ?_ rfl ?_ ⟨newFits, each _⟩
    ⟨triedFits, each _⟩ ?_⟩
  · simp only [List.length_map, triedRecords]
    omega
  · simpa using countedNew
  · simpa [triedRecords] using countedTried
  · simp
  · simp only [List.forall_mem_map]
    rintro bucket -
    have atMost := List.length_filter_le (fun slot => decide (man.vvNew slot ≠ -1))
      ((List.range bucketSize).map fun i => (bucket, i))
    rw [List.length_map, List.length_range] at atMost
    refine ⟨small _ (Int.natCast_nonneg _) ?_, ?_⟩
    · rw [List.length_map]
      exact lt_of_le_of_lt (Int.ofNat_le.mpr atMost) (by decide)
    · simp only [List.forall_mem_map]
      rintro slot -
      have bounds := unkId_bounds man.mapInfo.records 0 (man.vvNew slot) le_rfl
      exact small _ bounds.1 (by omega)

end ReadBack

end ZenonCore.AddrMan
