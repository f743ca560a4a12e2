import Mathlib.Data.Finset.Insert
import ZenonCore.Primitives

/-!
# Places in the block files

`FindBlockPos` and `FindUndoPos` on the records of the block files, in 32-bit numbers of
bytes. Of the files only `CheckDiskSpace` is left.
-/

namespace ZenonCore.BlockFiles

def maxBlockfileSize : UInt32 := 0x8000000

def blockfileChunkSize : UInt32 := 0x1000000

def undofileChunkSize : UInt32 := 0x100000

structure CDiskBlockPos where
  nFile : Nat
  nPos : UInt32
deriving DecidableEq, Repr

structure CBlockFileInfo where
  nBlocks : UInt32
  nSize : UInt32
  nUndoSize : UInt32
  nHeightFirst : UInt32
  nHeightLast : UInt32
  nTimeFirst : UInt64
  nTimeLast : UInt64
deriving DecidableEq, Repr

namespace CBlockFileInfo

def null : CBlockFileInfo where
  nBlocks := 0
  nSize := 0
  nUndoSize := 0
  nHeightFirst := 0
  nHeightLast := 0
  nTimeFirst := 0
  nTimeLast := 0

def addBlock (info : CBlockFileInfo) (nHeightIn : UInt32) (nTimeIn : UInt64) : CBlockFileInfo :=
  { info with
    nHeightFirst :=
      if info.nBlocks = 0 ∨ nHeightIn < info.nHeightFirst then nHeightIn else info.nHeightFirst
    nTimeFirst := if info.nBlocks = 0 ∨ nTimeIn < info.nTimeFirst then nTimeIn else info.nTimeFirst
    nBlocks := info.nBlocks + 1
    nHeightLast := if info.nHeightLast < nHeightIn then nHeightIn else info.nHeightLast
    nTimeLast := if info.nTimeLast < nTimeIn then nTimeIn else info.nTimeLast }

end CBlockFileInfo

structure FileState where
  vinfoBlockFile : List CBlockFileInfo
  nLastBlockFile : Nat
  setDirtyFileInfo : Finset Nat
deriving DecidableEq

def noFiles : FileState where
  vinfoBlockFile := []
  nLastBlockFile := 0
  setDirtyFileInfo := ∅

/-- The record of a file, which is null behind the last one. -/
def infoAt (vinfo : List CBlockFileInfo) (nFile : Nat) : CBlockFileInfo :=
  vinfo.getD nFile CBlockFileInfo.null

def resized (vinfo : List CBlockFileInfo) (nFile : Nat) : List CBlockFileInfo :=
  vinfo ++ List.replicate (nFile + 1 - vinfo.length) CBlockFileInfo.null

/-- The search for a file with room, for a number of rounds. -/
def searchFile (nAddSize : UInt32) :
    Nat → List CBlockFileInfo → Nat → Option (List CBlockFileInfo × Nat)
  | 0, _, _ => none
  | fuel + 1, vinfo, nFile =>
    if maxBlockfileSize ≤ (infoAt (resized vinfo nFile) nFile).nSize + nAddSize then
      searchFile nAddSize fuel (resized vinfo nFile) (nFile + 1)
    else some (resized vinfo nFile, nFile)

/-- The rounds of the search that can come to a record, and one more for all that follow. -/
def searchRounds (files : FileState) : Nat := files.vinfoBlockFile.length + 1

/-- The bytes that are pre-allocated if the size goes up to a new chunk. -/
def newChunkBytes (chunkSize nPos nNewSize : UInt32) : Option UInt32 :=
  let nOldChunks := (nPos + chunkSize - 1) / chunkSize
  let nNewChunks := (nNewSize + chunkSize - 1) / chunkSize
  if nOldChunks < nNewChunks then some (nNewChunks * chunkSize - nPos) else none

/-- `FindBlockPos`; no result if the search does not end, and no position if the disk is full. -/
def findBlockPos (files : FileState) (known : Option CDiskBlockPos)
    (nAddSize nHeight : UInt32) (nTime : UInt64) (checkDiskSpace : UInt32 → Bool) :
    Option (FileState × Option CDiskBlockPos) :=
  match known with
  | some pos =>
    let vinfo := resized files.vinfoBlockFile pos.nFile
    let info := (infoAt vinfo pos.nFile).addBlock nHeight nTime
    some
      ({ vinfoBlockFile := vinfo.set pos.nFile
          { info with nSize := max (pos.nPos + nAddSize) info.nSize }
         nLastBlockFile := pos.nFile
         setDirtyFileInfo := insert pos.nFile files.setDirtyFileInfo }, some pos)
  | none =>
    (searchFile nAddSize (searchRounds files) files.vinfoBlockFile files.nLastBlockFile).map
      fun found =>
        let nFile := found.2
        let pos : CDiskBlockPos := { nFile := nFile, nPos := (infoAt found.1 nFile).nSize }
        let info := (infoAt found.1 nFile).addBlock nHeight nTime
        let nNewSize := info.nSize + nAddSize
        let placed : FileState :=
          { vinfoBlockFile := found.1.set nFile { info with nSize := nNewSize }
            nLastBlockFile := nFile
            setDirtyFileInfo := files.setDirtyFileInfo }
        if (newChunkBytes blockfileChunkSize pos.nPos nNewSize).all checkDiskSpace then
          ({ placed with setDirtyFileInfo := insert nFile placed.setDirtyFileInfo }, some pos)
        else (placed, none)

def findUndoPos (files : FileState) (nFile : Nat) (nAddSize : UInt32)
    (checkDiskSpace : UInt32 → Bool) : Option (FileState × Option CDiskBlockPos) :=
  files.vinfoBlockFile[nFile]?.map fun info =>
    let pos : CDiskBlockPos := { nFile := nFile, nPos := info.nUndoSize }
    let nNewSize := info.nUndoSize + nAddSize
    let placed : FileState :=
      { files with
        vinfoBlockFile := files.vinfoBlockFile.set nFile { info with nUndoSize := nNewSize }
        setDirtyFileInfo := insert nFile files.setDirtyFileInfo }
    if (newChunkBytes undofileChunkSize pos.nPos nNewSize).all checkDiskSpace then
      (placed, some pos)
    else (placed, none)

end ZenonCore.BlockFiles
