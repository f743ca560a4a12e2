import ZenonCore.BlockFiles
import ZenonCore.Library.LaidRanges
import ZenonCore.Library.Runs

/-!
# The ranges in the block files and in the undo files

A block file is left before its size comes to the limit; the size of an undo file has no limit
and wraps at 2^32.
-/

namespace ZenonCore.FileRanges

open BlockFiles Library.LaidRanges Library.Runs List Option

structure Handed where
  files : FileState
  blocks : List (Range Nat)
  undos : List (Range Nat)
deriving DecidableEq

def nothingHanded : Handed where
  files := noFiles
  blocks := []
  undos := []

inductive FileEvent
  | block (nAddSize nHeight : UInt32) (nTime : UInt64) (checkDiskSpace : UInt32 → Bool)
  | undo (nFile : Nat) (nAddSize : UInt32) (checkDiskSpace : UInt32 → Bool)

namespace FileEvent

def nAddSize : FileEvent → UInt32
  | .block nAddSize _ _ _ => nAddSize
  | .undo _ nAddSize _ => nAddSize

def checkDiskSpace : FileEvent → UInt32 → Bool
  | .block _ _ _ checkDiskSpace => checkDiskSpace
  | .undo _ _ checkDiskSpace => checkDiskSpace

end FileEvent

def rangeAt (pos : CDiskBlockPos) (nAddSize : UInt32) : Range Nat where
  arena := pos.nFile
  start := pos.nPos.toNat
  length := nAddSize.toNat

def step (state : Handed) : FileEvent → Option Handed
  | .block nAddSize nHeight nTime checkDiskSpace =>
    (findBlockPos state.files none nAddSize nHeight nTime checkDiskSpace).map fun found =>
      { files := found.1
        blocks := state.blocks ++ found.2.toList.map fun pos => rangeAt pos nAddSize
        undos := state.undos }
  | .undo nFile nAddSize checkDiskSpace =>
    (findUndoPos state.files nFile nAddSize checkDiskSpace).map fun found =>
      { files := found.1
        blocks := state.blocks
        undos := state.undos ++ found.2.toList.map fun pos => rangeAt pos nAddSize }

def blockLevel (files : FileState) (nFile : Nat) : Nat :=
  (infoAt files.vinfoBlockFile nFile).nSize.toNat

def undoLevel (files : FileState) (nFile : Nat) : Nat :=
  (infoAt files.vinfoBlockFile nFile).nUndoSize.toNat

structure Allocated (state : Handed) : Prop where
  blocks : Laid (blockLevel state.files) state.blocks
  undos : Laid (undoLevel state.files) state.undos
  searchEnds : ∀ nAddSize nHeight nTime checkDiskSpace, nAddSize < maxBlockfileSize →
    (findBlockPos state.files none nAddSize nHeight nTime checkDiskSpace).isSome = true

def keepsUndoSize (state : Handed) : FileEvent → Bool
  | .block _ _ _ _ => true
  | .undo nFile nAddSize _ =>
    decide (undoLevel state.files nFile + nAddSize.toNat < 2 ^ 32)

section Records

variable (vinfo : List CBlockFileInfo)

theorem infoAt_resized (nFile other : Nat) :
    infoAt (resized vinfo nFile) other = infoAt vinfo other := by
  unfold infoAt resized
  rw [getD_eq_getElem?_getD, getD_eq_getElem?_getD, getElem?_append]
  split
  · rfl
  · rename_i behind
    rw [getElem?_eq_none (Nat.le_of_not_lt behind), getElem?_replicate]
    split
    · rfl
    · rfl

theorem length_resized (nFile : Nat) :
    (resized vinfo nFile).length = max vinfo.length (nFile + 1) := by
  unfold resized
  rw [length_append, length_replicate]
  omega

theorem infoAt_set (nFile other : Nat) (info : CBlockFileInfo) (inside : nFile < vinfo.length) :
    infoAt (vinfo.set nFile info) other = if other = nFile then info else infoAt vinfo other := by
  unfold infoAt
  rw [getD_eq_getElem?_getD, getD_eq_getElem?_getD, getElem?_set]
  by_cases same : nFile = other
  · rw [if_pos same, if_pos inside, if_pos same.symm, getD_some]
  · rw [if_neg same, if_neg fun here => same here.symm]

theorem maxBlockfileSize_toNat : maxBlockfileSize.toNat = 2 ^ 27 := rfl

theorem null_nSize : CBlockFileInfo.null.nSize.toNat = 0 := rfl

theorem searchFile_spec (nAddSize : UInt32) (small : nAddSize < maxBlockfileSize)
    (sized : ∀ nFile, (infoAt vinfo nFile).nSize < maxBlockfileSize) (fuel nFile : Nat)
    (some : 0 < fuel) (enough : vinfo.length + 1 ≤ fuel + nFile) :
    ∃ found last, searchFile nAddSize fuel vinfo nFile = Option.some (found, last) ∧
      last < found.length ∧ (∀ other, infoAt found other = infoAt vinfo other) ∧
      (infoAt vinfo last).nSize + nAddSize < maxBlockfileSize := by
  induction fuel generalizing vinfo nFile with
  | zero => exact absurd some (Nat.lt_irrefl 0)
  | succ fuel ih =>
    unfold searchFile
    rw [infoAt_resized]
    by_cases full : maxBlockfileSize ≤ (infoAt vinfo nFile).nSize + nAddSize
    · have known : nFile < vinfo.length := by
        by_contra behind
        have null : infoAt vinfo nFile = CBlockFileInfo.null := by
          unfold infoAt
          rw [getD_eq_getElem?_getD, getElem?_eq_none (Nat.le_of_not_lt behind)]
          rfl
        rw [null, UInt32.le_iff_toNat_le, UInt32.toNat_add, null_nSize, Nat.zero_add,
          Nat.mod_eq_of_lt nAddSize.toNat_lt] at full
        exact Nat.not_lt.mpr full (UInt32.lt_iff_toNat_lt.mp small)
      have length : (resized vinfo nFile).length = vinfo.length := by
        rw [length_resized]
        omega
      have sizedNext : ∀ other,
          (infoAt (resized vinfo nFile) other).nSize < maxBlockfileSize := by
        intro other
        rw [infoAt_resized]
        exact sized other
      rcases ih (resized vinfo nFile) sizedNext (nFile + 1) (by omega) (by omega) with
        ⟨found, last, search, inside, same, room⟩
      rw [if_pos full]
      refine ⟨found, last, search, inside, ?_, ?_⟩
      · intro other
        rw [same, infoAt_resized]
      · rw [infoAt_resized] at room
        exact room
    · rw [if_neg full]
      refine ⟨resized vinfo nFile, nFile, rfl, ?_, infoAt_resized vinfo nFile, ?_⟩
      · rw [length_resized]
        omega
      · exact UInt32.not_le.mp full

end Records

section Positions

variable (files next : FileState)

def Sized : Prop := ∀ nFile, blockLevel files nFile < maxBlockfileSize.toNat

theorem toNat_add_small (first second : UInt32) (firstSmall : first.toNat < maxBlockfileSize.toNat)
    (secondSmall : second < maxBlockfileSize) :
    (first + second).toNat = first.toNat + second.toNat := by
  have other := UInt32.lt_iff_toNat_lt.mp secondSmall
  rw [maxBlockfileSize_toNat] at firstSmall other
  rw [UInt32.toNat_add, Nat.mod_eq_of_lt]
  omega

theorem findBlockPos_spec (sized : Sized files) (nAddSize nHeight : UInt32) (nTime : UInt64)
    (checkDiskSpace : UInt32 → Bool) (small : nAddSize < maxBlockfileSize) :
    ∃ next result nFile,
      findBlockPos files none nAddSize nHeight nTime checkDiskSpace = some (next, result) ∧
      (∀ pos ∈ result, pos.nFile = nFile ∧ pos.nPos.toNat = blockLevel files nFile) ∧
      (∀ other, blockLevel next other =
        if other = nFile then blockLevel files nFile + nAddSize.toNat
        else blockLevel files other) ∧
      blockLevel files nFile + nAddSize.toNat < maxBlockfileSize.toNat ∧
      ∀ other, undoLevel next other = undoLevel files other := by
  have belowLimit : ∀ nFile, (infoAt files.vinfoBlockFile nFile).nSize < maxBlockfileSize :=
    fun nFile => UInt32.lt_iff_toNat_lt.mpr (sized nFile)
  rcases searchFile_spec files.vinfoBlockFile nAddSize small belowLimit (searchRounds files)
      files.nLastBlockFile (Nat.succ_pos _) (Nat.le_add_right _ _) with
    ⟨found, nFile, search, inside, same, room⟩
  have sum := toNat_add_small _ nAddSize (sized nFile) small
  have within := UInt32.lt_iff_toNat_lt.mp room
  rw [sum] at within
  unfold findBlockPos
  dsimp only
  rw [search, Option.map_some]
  dsimp only
  have levels : ∀ (info : CBlockFileInfo), info.nSize = (infoAt found nFile).nSize + nAddSize →
      ∀ other, (infoAt (found.set nFile info) other).nSize.toNat =
        if other = nFile then blockLevel files nFile + nAddSize.toNat
        else blockLevel files other := by
    intro info size other
    rw [infoAt_set found nFile other info inside]
    by_cases here : other = nFile
    · rw [if_pos here, if_pos here, size, same, sum]
      rfl
    · rw [if_neg here, if_neg here, same]
      rfl
  have undoLevels : ∀ (info : CBlockFileInfo), info.nUndoSize = (infoAt found nFile).nUndoSize →
      ∀ other, (infoAt (found.set nFile info) other).nUndoSize.toNat = undoLevel files other := by
    intro info size other
    rw [infoAt_set found nFile other info inside]
    by_cases here : other = nFile
    · rw [if_pos here, size, same, here]
      rfl
    · rw [if_neg here, same]
      rfl
  split
  · refine ⟨_, _, nFile, rfl, ?_, levels _ rfl, within, undoLevels _ rfl⟩
    intro pos named
    rw [← Option.some.inj named, same]
    exact ⟨rfl, rfl⟩
  · refine ⟨_, _, nFile, rfl, ?_, levels _ rfl, within, undoLevels _ rfl⟩
    intro pos named
    cases named

theorem findUndoPos_spec (nFile : Nat) (nAddSize : UInt32) (checkDiskSpace : UInt32 → Bool)
    (result : Option CDiskBlockPos)
    (done : findUndoPos files nFile nAddSize checkDiskSpace = some (next, result)) :
    (∀ pos ∈ result, pos.nFile = nFile ∧ pos.nPos.toNat = undoLevel files nFile) ∧
      (∀ other, undoLevel next other =
        if other = nFile then (undoLevel files nFile + nAddSize.toNat) % 2 ^ 32
        else undoLevel files other) ∧
      (∀ other, blockLevel next other = blockLevel files other) ∧
      ((∀ bytes, checkDiskSpace bytes = true) → result.isSome = true) := by
  unfold findUndoPos at done
  obtain ⟨info, stored, made⟩ := map_eq_some_iff.mp done
  have inside : nFile < files.vinfoBlockFile.length := (List.getElem?_eq_some_iff.mp stored).1
  have here : infoAt files.vinfoBlockFile nFile = info := by
    unfold infoAt
    rw [getD_eq_getElem?_getD, stored, getD_some]
  have records : next.vinfoBlockFile = files.vinfoBlockFile.set nFile
      { info with nUndoSize := info.nUndoSize + nAddSize } := by
    dsimp only at made
    split at made
    · rw [← (Prod.mk.inj made).1]
    · rw [← (Prod.mk.inj made).1]
  have position : result = some { nFile := nFile, nPos := info.nUndoSize } ∨ result = none := by
    dsimp only at made
    split at made
    · exact Or.inl (Prod.mk.inj made).2.symm
    · exact Or.inr (Prod.mk.inj made).2.symm
  refine ⟨?_, ?_, ?_, ?_⟩
  · intro pos named
    obtain granted | refused := position
    · rw [granted] at named
      rw [← some.inj named]
      refine ⟨rfl, ?_⟩
      unfold undoLevel
      rw [here]
    · rw [refused] at named
      cases named
  · intro other
    unfold undoLevel
    rw [records, infoAt_set _ nFile other _ inside]
    by_cases same : other = nFile
    · rw [if_pos same, if_pos same, here]
      exact UInt32.toNat_add _ _
    · rw [if_neg same, if_neg same]
  · intro other
    unfold blockLevel
    rw [records, infoAt_set _ nFile other _ inside]
    by_cases same : other = nFile
    · rw [if_pos same, same, here]
    · rw [if_neg same]
  · intro space
    have all : (newChunkBytes undofileChunkSize info.nUndoSize
        (info.nUndoSize + nAddSize)).all checkDiskSpace = true := by
      cases newChunkBytes undofileChunkSize info.nUndoSize (info.nUndoSize + nAddSize) with
      | none => rfl
      | some bytes => exact space bytes
    dsimp only at made
    rw [if_pos all] at made
    rw [← (Prod.mk.inj made).2]
    rfl

end Positions

section Steps

variable (state next : Handed)

/-- A range behind the recorded size of its file, by which the size grows, stays apart
from the others. -/
theorem laid_handed (level grown : Nat → Nat) (ranges : List (Range Nat)) (laid : Laid level ranges)
    (nFile : Nat) (nAddSize : UInt32) (result : Option CDiskBlockPos)
    (position : ∀ pos ∈ result, pos.nFile = nFile ∧ pos.nPos.toNat = level nFile)
    (levels : ∀ other, grown other =
      if other = nFile then level nFile + nAddSize.toNat else level other) :
    Laid grown (ranges ++ result.toList.map fun pos => rangeAt pos nAddSize) := by
  have above : ∀ other, level other ≤ grown other := by
    intro other
    rw [levels]
    split
    · rename_i same
      rw [same]
      exact Nat.le_add_right _ _
    · exact Nat.le_refl _
  cases result with
  | none =>
    rw [toList_none, map_nil, append_nil]
    exact laid.grow above
  | some pos =>
    obtain ⟨file, start⟩ := position pos rfl
    apply laid.push above (rangeAt pos nAddSize)
    · unfold rangeAt
      dsimp only
      rw [file, start]
    · unfold rangeAt Range.stop
      dsimp only
      rw [levels, if_pos file, start]

variable (event : FileEvent)

theorem step_blocks (small : event.nAddSize < maxBlockfileSize)
    (sized : Sized state.files) (laid : Laid (blockLevel state.files) state.blocks)
    (taken : step state event = some next) :
    Sized next.files ∧ Laid (blockLevel next.files) next.blocks := by
  cases event with
  | block nAddSize nHeight nTime checkDiskSpace =>
    rcases findBlockPos_spec state.files sized nAddSize nHeight nTime checkDiskSpace small with
      ⟨files, result, nFile, found, position, levels, within, _⟩
    unfold step at taken
    dsimp only at taken
    rw [found, map_some] at taken
    cases taken
    constructor
    · intro other
      dsimp only
      rw [levels]
      split
      · exact within
      · exact sized other
    · exact laid_handed _ _ state.blocks laid nFile nAddSize result position levels
  | undo nFile nAddSize checkDiskSpace =>
    obtain ⟨⟨files, result⟩, found, made⟩ := map_eq_some_iff.mp taken
    have kept := (findUndoPos_spec state.files files nFile nAddSize checkDiskSpace result
      found).2.2.1
    rw [← made]
    unfold Sized
    dsimp only
    rw [funext kept]
    exact ⟨sized, laid⟩

theorem step_undos (small : event.nAddSize < maxBlockfileSize)
    (sized : Sized state.files) (laid : Laid (undoLevel state.files) state.undos)
    (kept : keepsUndoSize state event = true) (taken : step state event = some next) :
    Laid (undoLevel next.files) next.undos := by
  cases event with
  | block nAddSize nHeight nTime checkDiskSpace =>
    rcases findBlockPos_spec state.files sized nAddSize nHeight nTime checkDiskSpace small with
      ⟨files, result, nFile, found, _, _, _, levels⟩
    unfold step at taken
    dsimp only at taken
    rw [found, map_some] at taken
    cases taken
    dsimp only
    rw [funext levels]
    exact laid
  | undo nFile nAddSize checkDiskSpace =>
    obtain ⟨⟨files, result⟩, found, made⟩ := map_eq_some_iff.mp taken
    rcases findUndoPos_spec state.files files nFile nAddSize checkDiskSpace result found with
      ⟨position, levels, _, _⟩
    have fits := of_decide_eq_true kept
    rw [Nat.mod_eq_of_lt fits] at levels
    rw [← made]
    exact laid_handed _ _ state.undos laid nFile nAddSize result position levels

theorem step_undos_wraps (space : ∀ bytes, event.checkDiskSpace bytes = true)
    (taken : step state event = some next) (laid : Laid (undoLevel next.files) next.undos) :
    keepsUndoSize state event = true := by
  cases event with
  | block nAddSize nHeight nTime checkDiskSpace => rfl
  | undo nFile nAddSize checkDiskSpace =>
    obtain ⟨⟨files, result⟩, found, made⟩ := map_eq_some_iff.mp taken
    rcases findUndoPos_spec state.files files nFile nAddSize checkDiskSpace result found with
      ⟨position, levels, _, granted⟩
    obtain ⟨pos, there⟩ := isSome_iff_exists.mp (granted space)
    obtain ⟨file, start⟩ := position pos there
    apply decide_eq_true
    by_contra wraps
    rw [← made, there] at laid
    apply not_laid_push (rangeAt pos nAddSize) _ laid
    unfold rangeAt Range.stop
    dsimp only
    rw [levels, if_pos file, start]
    have small := nAddSize.toNat_lt
    have level := (infoAt state.files.vinfoBlockFile nFile).nUndoSize.toNat_lt
    unfold undoLevel at wraps ⊢
    omega

end Steps

theorem sized_noFiles : Sized noFiles := by
  intro nFile
  exact Nat.lt_of_le_of_lt (Nat.le_of_eq rfl) (by decide : 0 < maxBlockfileSize.toNat)

/-- In every run with sizes below the limit the ranges stay apart and inside and the search ends, if
no undo file comes to 2^32 bytes, and only then where the disk does not get full. -/
theorem file_ranges_stay_apart (events : List FileEvent) (last : Handed)
    (small : ∀ event ∈ events, event.nAddSize < maxBlockfileSize)
    (reached : run step nothingHanded events = some last) :
    (AllSteps step (fun state event => keepsUndoSize state event = true) nothingHanded events →
      ∀ before middle, before <+: events → run step nothingHanded before = some middle →
        Allocated middle) ∧
      ((∀ event ∈ events, ∀ bytes, event.checkDiskSpace bytes = true) →
        (∀ before middle, before <+: events → run step nothingHanded before = some middle →
          Allocated middle) →
        AllSteps step (fun state event => keepsUndoSize state event = true) nothingHanded
          events) := by
  constructor
  · intro guarded before middle isPrefix passed
    have both := all_steps_and step _ _ nothingHanded events
      (all_steps_of_events step (fun event => event.nAddSize < maxBlockfileSize) nothingHanded
        events small) guarded
    have holds := invariant_throughout_guarded_run step _
      (fun state => Sized state.files ∧ Laid (blockLevel state.files) state.blocks ∧
        Laid (undoLevel state.files) state.undos)
      (fun state event next holds met taken => by
        obtain ⟨sized, blocks⟩ := step_blocks state next event met.1 holds.1 holds.2.1 taken
        exact ⟨sized, blocks,
          step_undos state next event met.1 holds.1 holds.2.2 met.2 taken⟩)
      nothingHanded events ⟨sized_noFiles, laid_nil _, laid_nil _⟩ both before middle isPrefix passed
    refine ⟨holds.2.1, holds.2.2, ?_⟩
    intro nAddSize nHeight nTime checkDiskSpace below
    rcases findBlockPos_spec middle.files holds.1 nAddSize nHeight nTime checkDiskSpace below with
      ⟨next, result, _, found, _⟩
    rw [found]
    rfl
  · intro space throughout
    apply all_steps_of_throughout step _ Allocated
      (fun event => ∀ bytes, event.checkDiskSpace bytes = true) _ nothingHanded last events space
      reached throughout
    intro state event next granted _ taken allocated
    exact step_undos_wraps state next event granted taken allocated.undos

/-- The second block has no room in the first file, and the third one goes
behind it. -/
def threeBlocks : List FileEvent :=
  [.block 0x4000000 1 100 fun _ => true, .undo 0 500 fun _ => true,
    .block 0x4000000 2 200 fun _ => true, .block 300 3 300 fun _ => true,
    .undo 1 600 fun _ => true, .undo 0 700 fun _ => true]

theorem three_blocks_stay_apart :
    ∃ last, run step nothingHanded threeBlocks = some last ∧
      last.blocks = [⟨0, 0, 0x4000000⟩, ⟨1, 0, 0x4000000⟩, ⟨1, 0x4000000, 300⟩] ∧
      last.undos = [⟨0, 0, 500⟩, ⟨1, 0, 600⟩, ⟨0, 500, 700⟩] ∧ Allocated last := by
  have found : ((run step nothingHanded threeBlocks).map fun last => (last.blocks, last.undos)) =
      some ([⟨0, 0, 0x4000000⟩, ⟨1, 0, 0x4000000⟩, ⟨1, 0x4000000, 300⟩],
        [⟨0, 0, 500⟩, ⟨1, 0, 600⟩, ⟨0, 500, 700⟩]) := by
    decide +kernel
  obtain ⟨last, reached, ranges⟩ := map_eq_some_iff.mp found
  have small : ∀ event ∈ threeBlocks, event.nAddSize < maxBlockfileSize := by decide +kernel
  have kept : AllSteps step (fun state event => keepsUndoSize state event = true) nothingHanded
      threeBlocks := by decide +kernel
  refine ⟨last, reached, (Prod.mk.inj ranges).1, (Prod.mk.inj ranges).2, ?_⟩
  exact (file_ranges_stay_apart threeBlocks last small reached).1 kept threeBlocks last
    (prefix_refl _) reached

/-- The undo data of one file comes to more than 2^32 bytes. -/
def fullUndoFile : List FileEvent :=
  .block 0x1000 1 100 (fun _ => true) ::
    List.replicate 34 (.undo 0 0x7ffffff fun _ => true)

theorem full_undo_file_overlaps :
    (∀ event ∈ fullUndoFile, event.nAddSize < maxBlockfileSize) ∧
      ∃ last, run step nothingHanded fullUndoFile = some last ∧
        ¬ last.undos.Pairwise Range.Apart ∧ ¬ Allocated last := by
  have small : ∀ event ∈ fullUndoFile, event.nAddSize < maxBlockfileSize := by decide +kernel
  have found : ((run step nothingHanded fullUndoFile).map fun last =>
      decide (last.undos.Pairwise Range.Apart)) = some false := by
    decide +kernel
  obtain ⟨last, reached, overlap⟩ := map_eq_some_iff.mp found
  refine ⟨small, last, reached, of_decide_eq_false overlap, ?_⟩
  intro allocated
  exact of_decide_eq_false overlap allocated.undos.apart

end ZenonCore.FileRanges
