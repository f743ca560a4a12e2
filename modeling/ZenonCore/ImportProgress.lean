import ZenonCore.BlockImport

/-!
# The import of blocks ends

Every round that goes on leaves a higher position to rewind to; the loops inside use up the
file or the blocks that wait.
-/

namespace ZenonCore.ImportProgress

open BlockFiles BlockImport BufferedFile

variable {σ β : Type} {data : List UInt8} (services : ImportServices σ β)

/-- The next position to rewind to is above a position, and was read. -/
structure Advanced (start : Nat) (next : Import σ data) : Prop where
  above : start < next.nRewind
  wasRead : next.nRewind ≤ next.blkdat.nSrcPos

theorem processBlock_positions (state : Import σ data) (block : β) :
    (processBlock services state block).1.blkdat = state.blkdat ∧
      (processBlock services state block).1.nRewind = state.nRewind := by
  unfold processBlock
  dsimp only
  split
  · exact ⟨rfl, rfl⟩
  · split
    · exact ⟨rfl, rfl⟩
    · split
      · exact ⟨rfl, rfl⟩
      · exact ⟨rfl, rfl⟩

/-- A block that is read moves the position behind it, another one behind its marker's first byte.
-/
theorem readBlock_advanced (state : Import σ data) (nSize start : Nat)
    (advanced : Advanced start state) (behind : start < state.blkdat.nReadPos) :
    Advanced start (readBlock services state nSize).1 := by
  have limited := setLimit_later state.blkdat (state.blkdat.nReadPos + nSize)
  have placed := setPos_here (state.blkdat.setLimit (state.blkdat.nReadPos + nSize))
  rw [setLimit_nReadPos] at placed
  have whole := (limited.trans placed).trans (run_later _ services.unserializeBlock)
  unfold readBlock
  dsimp only
  split
  · exact ⟨advanced.above, Nat.le_trans advanced.wasRead whole.srcPos⟩
  · rename_i block read
    generalize services.unserializeBlock.run _ = ran at whole ⊢
    rcases processBlock_positions services
      { state with
        blkdat := ran.1
        nRewind := ran.1.nReadPos
        dbp := state.dbp.map fun (pos : CDiskBlockPos) =>
          { pos with nPos := UInt32.ofNat state.blkdat.nReadPos } } block with ⟨sameFile, sameRewind⟩
    constructor
    · rw [sameRewind]
      exact Nat.lt_of_lt_of_le behind whole.readPos
    · rw [sameRewind, sameFile]
      exact ran.1.readInside

theorem readHeader_advanced (state next : Import σ data) (start : Nat)
    (advanced : Advanced start state) (here : start ≤ state.blkdat.nReadPos)
    (goesOn : readHeader services state = (next, .goesOn)) : Advanced start next := by
  have marker := read_later state.blkdat 4
  unfold readHeader at goesOn
  dsimp only at goesOn
  split at goesOn
  · cases goesOn
  · rename_i buf markerRead
    have moved := read_moves state.blkdat 4 buf markerRead
    have size := marker.trans (read_later (state.blkdat.read 4).1 4)
    split at goesOn
    · cases goesOn
      exact ⟨advanced.above, Nat.le_trans advanced.wasRead marker.srcPos⟩
    · split at goesOn
      · cases goesOn
      · rename_i bytes sizeRead
        have movedOn := read_moves (state.blkdat.read 4).1 4 bytes sizeRead
        have after : Advanced start
            { state with blkdat := ((state.blkdat.read 4).1.read 4).1 } :=
          ⟨advanced.above, Nat.le_trans advanced.wasRead size.srcPos⟩
        split at goesOn
        · cases goesOn
          exact after
        · have block := readBlock_advanced services
            { state with blkdat := ((state.blkdat.read 4).1.read 4).1 } (littleEndian bytes) start after
            (by
              dsimp only
              omega)
          rw [goesOn] at block
          exact block

theorem importRound_advanced (state next : Import σ data)
    (wasRead : state.nRewind ≤ state.blkdat.nSrcPos)
    (goesOn : importRound services state = (next, .goesOn)) :
    state.nRewind ≤ startPos state ∧ Advanced (startPos state) next := by
  refine ⟨setPos_reaches state.blkdat state.nRewind wasRead, ?_⟩
  have here : startPos state =
      ((state.blkdat.setPos state.nRewind).setLimit noLimit).nReadPos :=
    (setLimit_nReadPos _ _).symm
  unfold importRound at goesOn
  rw [here]
  generalize (state.blkdat.setPos state.nRewind).setLimit noLimit = file at goesOn
  have later := findByte_later file (services.messageStart.headD 0)
  have unread := findByte_unread file (services.messageStart.headD 0)
  dsimp only at goesOn
  generalize file.findByte (services.messageStart.headD 0) = searched at goesOn later unread
  split at goesOn
  · rename_i found
    apply readHeader_advanced services _ next _ _ _ goesOn
    · exact ⟨Nat.lt_succ_of_le later.readPos, unread found⟩
    · exact later.readPos
  · cases goesOn

/-- The positions that a loop rewinds to and starts from, from a lowest one to
rewind to on. -/
structure Ascending (lowest highest : Nat) (starts : List (Nat × Nat)) : Prop where
  ordered : starts.Pairwise fun earlier later => earlier.1 < later.1 ∧ earlier.2 < later.2
  above : ∀ pair ∈ starts, lowest ≤ pair.1 ∧ pair.1 ≤ pair.2 ∧ pair.2 ≤ highest
  few : starts.length + lowest ≤ highest + 1

/-- The loop ends, whatever number of rounds above the rest of the file it is
given. -/
theorem importLoop_ends (rest : Nat) (state : Import σ data)
    (wasRead : state.nRewind ≤ state.blkdat.nSrcPos)
    (enough : data.length < state.nRewind + rest) :
    ∃ starts last, Ascending state.nRewind data.length starts ∧
      ∀ rounds, data.length < state.nRewind + rounds →
        importLoop services rounds state = some (starts, last) := by
  have inside := state.blkdat.sourceInside
  induction rest generalizing state with
  | zero => omega
  | succ rest ih =>
    by_cases ended : state.blkdat.eof = true
    · refine ⟨[], state, ⟨List.Pairwise.nil, by simp, by simp; omega⟩, ?_⟩
      intro rounds _
      unfold importLoop
      rw [if_pos ended]
    · have startInside := (state.blkdat.setPos state.nRewind).readInside
      have reached := setPos_reaches state.blkdat state.nRewind wasRead
      have upTo : startPos state ≤ data.length := Nat.le_trans startInside inside
      cases round : importRound services state with
      | mk next flow =>
        cases flow with
        | breaks =>
          refine ⟨[(state.nRewind, startPos state)], next, ⟨List.pairwise_singleton _ _, ?_, ?_⟩,
            ?_⟩
          · intro pair only
            rw [List.mem_singleton.mp only]
            exact ⟨Nat.le_refl _, reached, upTo⟩
          · rw [List.length_singleton]
            omega
          · intro rounds more
            cases rounds with
            | zero => omega
            | succ rounds =>
              unfold importLoop
              rw [if_neg ended]
              dsimp only
              rw [round]
        | goesOn =>
          obtain ⟨_, advanced⟩ := importRound_advanced services state next wasRead round
          have above := advanced.above
          unfold startPos at above upTo
          rcases ih next advanced.wasRead (by omega) next.blkdat.sourceInside with
            ⟨starts, last, ascending, ends⟩
          refine ⟨(state.nRewind, startPos state) :: starts, last, ⟨?_, ?_, ?_⟩, ?_⟩
          · apply List.pairwise_cons.mpr
            refine ⟨?_, ascending.ordered⟩
            intro pair later
            have bounds := ascending.above pair later
            unfold startPos
            dsimp only
            omega
          · intro pair listed
            obtain here | later := List.mem_cons.mp listed
            · rw [here]
              exact ⟨Nat.le_refl _, reached, upTo⟩
            · have bounds := ascending.above pair later
              omega
          · have few := ascending.few
            rw [List.length_cons]
            omega
          · intro rounds more
            cases rounds with
            | zero => omega
            | succ rounds =>
              unfold importLoop
              rw [if_neg ended]
              dsimp only
              rw [round]
              dsimp only
              rw [ends rounds (by omega)]
              rfl

/-- For every file the import ends, the same with every number of rounds above its length, and no
two rounds rewind to one position or start from one. -/
theorem import_ends (data : List UInt8) (dbp : Option CDiskBlockPos) (unknown : UnknownParents)
    (node : σ) :
    ∃ starts last,
      (∀ rounds, data.length < rounds →
        importLoop services rounds (importStart data dbp unknown node) = some (starts, last) ∧
          (loadExternalBlockFile services rounds data dbp unknown node).isSome = true) ∧
      starts.Pairwise (fun earlier later => earlier.1 < later.1 ∧ earlier.2 < later.2) ∧
      (∀ pair ∈ starts, pair.1 ≤ pair.2 ∧ pair.2 ≤ data.length) ∧
      starts.length ≤ data.length + 1 := by
  have lowest : (importStart data dbp unknown node).nRewind = 0 := rfl
  rcases importLoop_ends services (data.length + 1) (importStart data dbp unknown node)
    (Nat.le_refl 0) (by omega) with ⟨starts, last, ascending, ends⟩
  refine ⟨starts, last, ?_, ascending.ordered, ?_, ?_⟩
  · intro rounds more
    have done := ends rounds (by omega)
    refine ⟨done, ?_⟩
    unfold loadExternalBlockFile
    rw [done]
    rfl
  · intro pair listed
    exact (ascending.above pair listed).2
  · have few := ascending.few
    omega

end ZenonCore.ImportProgress
