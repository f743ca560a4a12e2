import Mathlib.Data.List.Basic
import Mathlib.Tactic.SplitIfs

/-!
# The buffered file

`CBufferedFile`: a file of bytes and a ring buffer that can be rewound.
-/

namespace ZenonCore.BufferedFile

structure CBufferedFile (data : List UInt8) where
  nSrcPos : Nat
  nReadPos : Nat
  nReadLimit : Nat
  /-- The number of bytes that can be rewound. -/
  nRewind : Nat
  vchBuf : Nat → UInt8
  /-- `vchBuf.size()`. -/
  bufferSize : Nat
  /-- The end-of-file mark of the source. -/
  feof : Bool
  readInside : nReadPos ≤ nSrcPos
  sourceInside : nSrcPos ≤ data.length
  rewindInside : nRewind < bufferSize

def noLimit : Nat := 0xffffffffffffffff

def opened (data : List UInt8) (nBufSize nRewindIn : Nat) (larger : nRewindIn < nBufSize) :
    CBufferedFile data where
  nSrcPos := 0
  nReadPos := 0
  nReadLimit := noLimit
  nRewind := nRewindIn
  vchBuf := fun _ => 0
  bufferSize := nBufSize
  feof := false
  readInside := Nat.le_refl 0
  sourceInside := Nat.zero_le _
  rewindInside := larger

namespace CBufferedFile

variable {data : List UInt8} (file : CBufferedFile data)

def readNow : Nat :=
  min (file.bufferSize - file.nSrcPos % file.bufferSize)
    (file.bufferSize - (file.nSrcPos - file.nReadPos) - file.nRewind)

def freadCount : Nat := min file.readNow (data.length - file.nSrcPos)

def fill : CBufferedFile data × Bool :=
  ({ file with
      nSrcPos := file.nSrcPos + file.freadCount
      feof := file.feof || decide (file.freadCount < file.readNow)
      vchBuf := fun index =>
        if file.nSrcPos % file.bufferSize ≤ index ∧
            index < file.nSrcPos % file.bufferSize + file.freadCount then
          data.getD (file.nSrcPos + (index - file.nSrcPos % file.bufferSize)) 0
        else file.vchBuf index
      readInside := Nat.le_trans file.readInside (Nat.le_add_right _ _)
      sourceInside := by
        have inside := file.sourceInside
        unfold freadCount
        omega }, decide (0 < file.freadCount))

def refill : CBufferedFile data × Bool :=
  if file.nReadPos = file.nSrcPos then file.fill else (file, true)

def advance (count : Nat) (there : file.nReadPos + count ≤ file.nSrcPos) : CBufferedFile data :=
  { file with nReadPos := file.nReadPos + count, readInside := there }

def current : UInt8 := file.vchBuf (file.nReadPos % file.bufferSize)

def eof : Bool := file.nReadPos == file.nSrcPos && file.feof

def setPos (nPos : Nat) : CBufferedFile data :=
  { file with
    nReadPos :=
      if nPos + file.nRewind < file.nSrcPos then file.nSrcPos - file.nRewind
      else if file.nSrcPos < nPos then file.nSrcPos
      else nPos
    readInside := by
      split_ifs
      · exact Nat.sub_le _ _
      · exact Nat.le_refl _
      · omega }

def setLimit (nPos : Nat) : CBufferedFile data :=
  if nPos < file.nReadPos then file else { file with nReadLimit := nPos }

theorem refill_spec (filled : file.refill.2 = true) :
    file.refill.1.nReadPos = file.nReadPos ∧ file.refill.1.nReadPos < file.refill.1.nSrcPos := by
  have inside := file.readInside
  unfold refill at filled ⊢
  split
  · rename_i empty
    rw [if_pos empty] at filled
    have read := of_decide_eq_true filled
    refine ⟨rfl, ?_⟩
    unfold fill
    dsimp only
    omega
  · rename_i left
    exact ⟨rfl, Nat.lt_of_le_of_ne inside left⟩

def findByte (ch : UInt8) (file : CBufferedFile data) : CBufferedFile data × Bool :=
  if filled : file.refill.2 = true then
    if file.refill.1.current = ch then (file.refill.1, true)
    else findByte ch (file.refill.1.advance 1 (file.refill_spec filled).2)
  else (file.refill.1, false)
termination_by data.length - file.nReadPos
decreasing_by
  have spec := file.refill_spec filled
  have inside := file.refill.1.sourceInside
  unfold advance
  dsimp only
  omega

def copyCount (nSize : Nat) : Nat :=
  min nSize
    (min (file.bufferSize - file.nReadPos % file.bufferSize) (file.nSrcPos - file.nReadPos))

theorem copyCount_inside (nSize : Nat) : file.nReadPos + file.copyCount nSize ≤ file.nSrcPos := by
  have inside := file.readInside
  unfold copyCount
  omega

theorem copyCount_pos (nSize : Nat) (more : 0 < nSize) (left : file.nReadPos < file.nSrcPos) :
    0 < file.copyCount nSize := by
  have larger := file.rewindInside
  have wraps : file.nReadPos % file.bufferSize < file.bufferSize := Nat.mod_lt _ (by omega)
  unfold copyCount
  omega

def readLoop (nSize : Nat) (file : CBufferedFile data) (pch : List UInt8) :
    CBufferedFile data × Option (List UInt8) :=
  if _more : 0 < nSize then
    if _filled : file.refill.2 = true then
      readLoop (nSize - file.refill.1.copyCount nSize)
        (file.refill.1.advance (file.refill.1.copyCount nSize)
          (file.refill.1.copyCount_inside nSize))
        (pch ++ (List.range (file.refill.1.copyCount nSize)).map fun offset =>
          file.refill.1.vchBuf
            (file.refill.1.nReadPos % file.refill.1.bufferSize + offset))
    else (file.refill.1, none)
  else (file, some pch)
termination_by nSize
decreasing_by
  have copied := file.refill.1.copyCount_pos nSize _more (file.refill_spec _filled).2
  omega

def read (nSize : Nat) : CBufferedFile data × Option (List UInt8) :=
  if file.nReadLimit < nSize + file.nReadPos then (file, none)
  else if file.bufferSize < nSize + file.nRewind then (file, none)
  else readLoop nSize file []

end CBufferedFile

/-- A program that reads from a stream, such as the `Unserialize` of a type. -/
inductive StreamReader (β : Type)
  | done (value : β)
  | throws
  | read (nSize : Nat) (next : List UInt8 → StreamReader β)

def StreamReader.run {β : Type} {data : List UInt8} :
    StreamReader β → CBufferedFile data → CBufferedFile data × Option β
  | .done value, file => (file, some value)
  | .throws, file => (file, none)
  | .read nSize next, file =>
    match (file.read nSize).2 with
    | none => ((file.read nSize).1, none)
    | some bytes => (next bytes).run (file.read nSize).1

/-! ## The positions only go up -/

/-- The positions of the second state are not below those of the first. -/
structure Later {data : List UInt8} (first second : CBufferedFile data) : Prop where
  readPos : first.nReadPos ≤ second.nReadPos
  srcPos : first.nSrcPos ≤ second.nSrcPos

section Positions

variable {data : List UInt8} (file : CBufferedFile data)

theorem later_refl : Later file file := ⟨Nat.le_refl _, Nat.le_refl _⟩

variable {file} in
theorem Later.trans {middle last : CBufferedFile data} (first : Later file middle)
    (second : Later middle last) : Later file last where
  readPos := Nat.le_trans first.readPos second.readPos
  srcPos := Nat.le_trans first.srcPos second.srcPos

theorem refill_later : Later file file.refill.1 := by
  unfold CBufferedFile.refill
  split
  · exact ⟨Nat.le_refl _, Nat.le_add_right _ _⟩
  · exact later_refl file

theorem advance_later (count : Nat) (there : file.nReadPos + count ≤ file.nSrcPos) :
    Later file (file.advance count there) := ⟨Nat.le_add_right _ _, Nat.le_refl _⟩

theorem setLimit_later (nPos : Nat) : Later file (file.setLimit nPos) := by
  unfold CBufferedFile.setLimit
  split
  · exact later_refl file
  · exact ⟨Nat.le_refl _, Nat.le_refl _⟩

theorem setLimit_nReadPos (nPos : Nat) : (file.setLimit nPos).nReadPos = file.nReadPos := by
  unfold CBufferedFile.setLimit
  split
  · rfl
  · rfl

theorem setPos_reaches (nPos : Nat) (read : nPos ≤ file.nSrcPos) :
    nPos ≤ (file.setPos nPos).nReadPos := by
  unfold CBufferedFile.setPos
  dsimp only
  split_ifs
  · omega
  · omega
  · exact Nat.le_refl _

theorem setPos_here : Later file (file.setPos file.nReadPos) :=
  ⟨setPos_reaches file file.nReadPos file.readInside, Nat.le_refl _⟩

theorem findByte_later (ch : UInt8) : Later file (file.findByte ch).1 := by
  induction file using CBufferedFile.findByte.induct ch with
  | case1 file filled found =>
    unfold CBufferedFile.findByte
    rw [dif_pos filled, if_pos found]
    exact refill_later file
  | case2 file filled other ih =>
    unfold CBufferedFile.findByte
    rw [dif_pos filled, if_neg other]
    have moved := advance_later file.refill.1 1 (file.refill_spec filled).2
    exact ((refill_later file).trans moved).trans ih
  | case3 file thrown =>
    unfold CBufferedFile.findByte
    rw [dif_neg thrown]
    exact refill_later file

theorem findByte_unread (ch : UInt8) (found : (file.findByte ch).2 = true) :
    (file.findByte ch).1.nReadPos < (file.findByte ch).1.nSrcPos := by
  induction file using CBufferedFile.findByte.induct ch with
  | case1 file filled here =>
    unfold CBufferedFile.findByte
    rw [dif_pos filled, if_pos here]
    exact (file.refill_spec filled).2
  | case2 file filled other ih =>
    unfold CBufferedFile.findByte at found ⊢
    rw [dif_pos filled, if_neg other] at found ⊢
    exact ih found
  | case3 file thrown =>
    unfold CBufferedFile.findByte at found
    rw [dif_neg thrown] at found
    cases found

variable (nSize : Nat)

theorem readLoop_later (pch : List UInt8) :
    Later file (CBufferedFile.readLoop nSize file pch).1 := by
  induction nSize, file, pch using CBufferedFile.readLoop.induct with
  | case1 nSize file pch more filled ih =>
    unfold CBufferedFile.readLoop
    rw [dif_pos more, dif_pos filled]
    have moved := advance_later file.refill.1 _ (file.refill.1.copyCount_inside nSize)
    exact ((refill_later file).trans moved).trans ih
  | case2 nSize file pch more thrown =>
    unfold CBufferedFile.readLoop
    rw [dif_pos more, dif_neg thrown]
    exact refill_later file
  | case3 nSize file pch nothing =>
    unfold CBufferedFile.readLoop
    rw [dif_neg nothing]
    exact later_refl file

theorem readLoop_moves (pch bytes : List UInt8)
    (read : (CBufferedFile.readLoop nSize file pch).2 = some bytes) :
    (CBufferedFile.readLoop nSize file pch).1.nReadPos = file.nReadPos + nSize := by
  induction nSize, file, pch using CBufferedFile.readLoop.induct with
  | case1 nSize file pch more filled ih =>
    unfold CBufferedFile.readLoop at read ⊢
    rw [dif_pos more, dif_pos filled] at read ⊢
    rw [ih read]
    have same := (file.refill_spec filled).1
    have part : file.refill.1.copyCount nSize ≤ nSize := Nat.min_le_left _ _
    unfold CBufferedFile.advance
    dsimp only
    omega
  | case2 nSize file pch more thrown =>
    unfold CBufferedFile.readLoop at read
    rw [dif_pos more, dif_neg thrown] at read
    cases read
  | case3 nSize file pch nothing =>
    unfold CBufferedFile.readLoop
    rw [dif_neg nothing]
    dsimp only
    omega

theorem read_moves (bytes : List UInt8) (read : (file.read nSize).2 = some bytes) :
    (file.read nSize).1.nReadPos = file.nReadPos + nSize := by
  unfold CBufferedFile.read at read ⊢
  split_ifs at read ⊢
  exact readLoop_moves file nSize [] bytes read

theorem read_later : Later file (file.read nSize).1 := by
  unfold CBufferedFile.read
  split_ifs
  · exact later_refl file
  · exact later_refl file
  · exact readLoop_later file nSize []

theorem run_later {β : Type} (reader : StreamReader β) : Later file (reader.run file).1 := by
  induction reader generalizing file with
  | done value => exact later_refl file
  | throws => exact later_refl file
  | read nSize next ih =>
    unfold StreamReader.run
    split
    · exact read_later file nSize
    · rename_i bytes _
      exact (read_later file nSize).trans (ih bytes (file.read nSize).1)

end Positions

end ZenonCore.BufferedFile
