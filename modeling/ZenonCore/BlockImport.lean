import ZenonCore.BlockFiles
import ZenonCore.BufferedFile
import ZenonCore.CheckBlock

/-!
# The import of blocks from a file

`LoadExternalBlockFile`. Blocks with their `Unserialize`, `ProcessNewBlock` and
`ReadBlockFromDisk` are parameters.
-/

namespace ZenonCore.BlockImport

open BlockFiles BufferedFile Primitives List
open CheckBlock (maxBlockSizeCurrent)

/-- How `ProcessNewBlock` ends: it returns its result, with `state.IsError()`,
or it throws. -/
inductive Processed
  | returned (processed isError : Bool)
  | thrown
deriving DecidableEq, Repr

/-- What the import uses, for blocks `β` and states `σ` of the node. -/
structure ImportServices (σ β : Type) where
  messageStart : List UInt8
  hashGenesisBlock : Uint256
  getHash : β → Uint256
  hashPrevBlock : β → Uint256
  unserializeBlock : StreamReader β
  /-- Whether an entry of `mapBlockIndex` has `BLOCK_HAVE_DATA`, if there is one. -/
  haveData : σ → Uint256 → Option Bool
  processNewBlock : σ → β → Option CDiskBlockPos → σ × Processed
  readBlockFromDisk : σ → CDiskBlockPos → Option β

abbrev UnknownParents := List (Uint256 × CDiskBlockPos)

/-! ## The blocks that waited for a parent -/

structure Successors (σ : Type) where
  node : σ
  mapBlocksUnknownParent : UnknownParents
  queue : List Uint256
  nLoaded : Nat

section Successors

variable {σ β : Type} (services : ImportServices σ β)

def equalRange (map : UnknownParents) (head : Uint256) : List CDiskBlockPos :=
  (map.filter fun entry => entry.1 == head).map Prod.snd

def eraseFirst (map : UnknownParents) (head : Uint256) : UnknownParents :=
  map.eraseP fun entry => entry.1 == head

/-- One entry of the range, unless `ProcessNewBlock` throws. -/
def processChild (head : Uint256) (state : Successors σ) (pos : CDiskBlockPos) :
    Except (Successors σ) (Successors σ) :=
  let erased := { state with
    mapBlocksUnknownParent := eraseFirst state.mapBlocksUnknownParent head }
  match services.readBlockFromDisk state.node pos with
  | none => .ok erased
  | some block =>
    let (node, outcome) := services.processNewBlock state.node block (some pos)
    match outcome with
    | .thrown => .error { state with node := node }
    | .returned processed _ =>
      if processed then
        .ok { erased with
          node := node
          nLoaded := state.nLoaded + 1
          queue := state.queue ++ [services.getHash block] }
      else .ok { erased with node := node }

def processRange (head : Uint256) :
    List CDiskBlockPos → Successors σ → Except (Successors σ) (Successors σ)
  | [], state => .ok state
  | pos :: rest, state => (processChild services head state pos).bind (processRange head rest)

variable (map : UnknownParents) (head : Uint256)

theorem eraseFirst_length
    (there : ∃ entry ∈ map, entry.1 = head) :
    (eraseFirst map head).length + 1 = map.length := by
  obtain ⟨entry, listed, same⟩ := there
  exact length_eraseP_add_one listed (beq_iff_eq.mpr same)

theorem equalRange_eraseFirst :
    equalRange (eraseFirst map head) head = (equalRange map head).tail := by
  unfold equalRange eraseFirst
  induction map with
  | nil => rfl
  | cons entry rest ih =>
    cases same : entry.1 == head with
    | true =>
      rw [eraseP_cons, same, cond_true, filter_cons, if_pos same]
      rfl
    | false =>
      have other : ¬ (entry.1 == head) = true := by simp [same]
      rw [eraseP_cons, same, cond_false, filter_cons, if_neg other,
        filter_cons, if_neg other]
      exact ih

theorem mem_of_equalRange (pos : CDiskBlockPos)
    (rest : List CDiskBlockPos) (range : equalRange map head = pos :: rest) :
    ∃ entry ∈ map, entry.1 = head := by
  have listed : pos ∈ equalRange map head := by
    rw [range]
    exact mem_cons_self
  obtain ⟨entry, kept, _⟩ := mem_map.mp listed
  exact ⟨entry, (mem_filter.mp kept).1, beq_iff_eq.mp (mem_filter.mp kept).2⟩

theorem processChild_size (head : Uint256) (state next : Successors σ) (pos : CDiskBlockPos)
    (done : processChild services head state pos = .ok next) :
    next.mapBlocksUnknownParent = eraseFirst state.mapBlocksUnknownParent head ∧
      next.queue.length ≤ state.queue.length + 1 := by
  unfold processChild at done
  dsimp only at done
  split at done
  · cases done
    exact ⟨rfl, Nat.le_succ _⟩
  · split at done
    · cases done
    · split at done
      · cases done
        refine ⟨rfl, ?_⟩
        dsimp only
        rw [length_append, length_singleton]
      · cases done
        exact ⟨rfl, Nat.le_succ _⟩

theorem processRange_size (head : Uint256) (range : List CDiskBlockPos)
    (state next : Successors σ) (entries : equalRange state.mapBlocksUnknownParent head = range)
    (done : processRange services head range state = .ok next) :
    next.mapBlocksUnknownParent.length + next.queue.length ≤
      state.mapBlocksUnknownParent.length + state.queue.length := by
  induction range generalizing state with
  | nil =>
    cases done
    exact Nat.le_refl _
  | cons pos rest ih =>
    unfold processRange at done
    cases child : processChild services head state pos with
    | error stopped =>
      rw [child] at done
      cases done
    | ok middle =>
      rw [child] at done
      obtain ⟨erased, queued⟩ := processChild_size services head state middle pos child
      have shorter := eraseFirst_length state.mapBlocksUnknownParent head
        (mem_of_equalRange _ head pos rest entries)
      have others : equalRange middle.mapBlocksUnknownParent head = rest := by
        rw [erased, equalRange_eraseFirst, entries]
        rfl
      have after := ih middle others done
      rw [erased] at after
      omega

def processQueue (state : Successors σ) : Except (Successors σ) (Successors σ) :=
  match _queue : state.queue with
  | [] => .ok state
  | head :: rest =>
    match _done : processRange services head (equalRange state.mapBlocksUnknownParent head)
        { state with queue := rest } with
    | .error stopped => .error stopped
    | .ok next => processQueue next
termination_by state.mapBlocksUnknownParent.length + state.queue.length
decreasing_by
  have size := processRange_size services head _ { state with queue := rest } next rfl _done
  rw [_queue, List.length_cons]
  dsimp only at size
  omega

end Successors

/-! ## The scan of the file -/

structure Import (σ : Type) (data : List UInt8) where
  blkdat : CBufferedFile data
  nRewind : Nat
  dbp : Option CDiskBlockPos
  mapBlocksUnknownParent : UnknownParents
  nLoaded : Nat
  node : σ

inductive Flow
  | goesOn
  | breaks
deriving DecidableEq, Repr

section Scanning

variable {σ β : Type} {data : List UInt8} (services : ImportServices σ β)

/-- What is done with a block that was read, with the reading position behind
it. -/
def processBlock (state : Import σ data) (block : β) : Import σ data × Flow :=
  let hash := services.getHash block
  if hash ≠ services.hashGenesisBlock ∧
      services.haveData state.node (services.hashPrevBlock block) = none then
    ({ state with
        mapBlocksUnknownParent := state.mapBlocksUnknownParent ++
          state.dbp.toList.map fun pos => (services.hashPrevBlock block, pos) }, .goesOn)
  else
    let (node, outcome) :=
      if services.haveData state.node hash = some true then
        (state.node, Processed.returned false false)
      else services.processNewBlock state.node block state.dbp
    match outcome with
    | .thrown => ({ state with node := node }, .goesOn)
    | .returned processed isError =>
      let loaded := if processed then state.nLoaded + 1 else state.nLoaded
      if isError then ({ state with node := node, nLoaded := loaded }, .breaks)
      else
        let start : Successors σ :=
          { node := node
            mapBlocksUnknownParent := state.mapBlocksUnknownParent
            queue := [hash]
            nLoaded := loaded }
        let done :=
          match processQueue services start with
          | .error stopped => stopped
          | .ok last => last
        ({ state with
            node := done.node
            mapBlocksUnknownParent := done.mapBlocksUnknownParent
            nLoaded := done.nLoaded }, .goesOn)

def readBlock (state : Import σ data) (nSize : Nat) : Import σ data × Flow :=
  let nBlockPos := state.blkdat.nReadPos
  let blkdat := (state.blkdat.setLimit (nBlockPos + nSize)).setPos nBlockPos
  let placed := { state with
    dbp := state.dbp.map fun (pos : CDiskBlockPos) => { pos with nPos := UInt32.ofNat nBlockPos } }
  match (services.unserializeBlock.run blkdat).2 with
  | none => ({ placed with blkdat := (services.unserializeBlock.run blkdat).1 }, .goesOn)
  | some block =>
    processBlock services
      { placed with
        blkdat := (services.unserializeBlock.run blkdat).1
        nRewind := (services.unserializeBlock.run blkdat).1.nReadPos } block

def littleEndian (bytes : List UInt8) : Nat :=
  bytes.foldr (fun byte rest => byte.toNat + 256 * rest) 0

def readHeader (state : Import σ data) : Import σ data × Flow :=
  let (blkdat, buf) := state.blkdat.read 4
  match buf with
  | none => ({ state with blkdat := blkdat }, .breaks)
  | some buf =>
    if buf ≠ services.messageStart then ({ state with blkdat := blkdat }, .goesOn)
    else
      let (blkdat, size) := blkdat.read 4
      match size with
      | none => ({ state with blkdat := blkdat }, .breaks)
      | some bytes =>
        let nSize := littleEndian bytes
        if nSize < 80 ∨ maxBlockSizeCurrent < nSize then
          ({ state with blkdat := blkdat }, .goesOn)
        else readBlock services { state with blkdat := blkdat } nSize

def startPos (state : Import σ data) : Nat := (state.blkdat.setPos state.nRewind).nReadPos

def importRound (state : Import σ data) : Import σ data × Flow :=
  let blkdat := (state.blkdat.setPos state.nRewind).setLimit noLimit
  let (blkdat, found) := blkdat.findByte (services.messageStart.headD 0)
  if found then
    readHeader services { state with blkdat := blkdat, nRewind := blkdat.nReadPos + 1 }
  else ({ state with blkdat := blkdat, nRewind := state.nRewind + 1 }, .breaks)

/-- The loop for a number of rounds, with the positions that the rounds rewind
to and start from. -/
def importLoop : Nat → Import σ data → Option (List (Nat × Nat) × Import σ data)
  | fuel, state =>
    if state.blkdat.eof then some ([], state)
    else
      match fuel with
      | 0 => none
      | fuel + 1 =>
        let (next, flow) := importRound services state
        match flow with
        | .breaks => some ([(state.nRewind, startPos state)], next)
        | .goesOn => (importLoop fuel next).map fun rest =>
          ((state.nRewind, startPos state) :: rest.1, rest.2)

def importStart (data : List UInt8) (dbp : Option CDiskBlockPos) (unknown : UnknownParents)
    (node : σ) : Import σ data :=
  let blkdat := opened data (2 * maxBlockSizeCurrent) (maxBlockSizeCurrent + 8) (by decide)
  { blkdat := blkdat
    nRewind := blkdat.nReadPos
    dbp := dbp
    mapBlocksUnknownParent := unknown
    nLoaded := 0
    node := node }

/-- `LoadExternalBlockFile` for a number of rounds: whether blocks were loaded, and what is left
behind. -/
def loadExternalBlockFile (rounds : Nat) (data : List UInt8) (dbp : Option CDiskBlockPos)
    (unknown : UnknownParents) (node : σ) : Option (Bool × UnknownParents × σ) :=
  (importLoop services rounds (importStart data dbp unknown node)).map fun done =>
    (decide (0 < done.2.nLoaded), done.2.mapBlocksUnknownParent, done.2.node)

end Scanning

end ZenonCore.BlockImport
