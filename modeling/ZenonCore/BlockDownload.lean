import ZenonCore.PeerState
import ZenonCore.SkipList

/-!
# The next blocks to download from a peer

`FindNextBlocksToDownload` on the links of the block index. Pointers are positions; a null
pointer that is followed has no result, and neither has an assertion that fails.
-/

namespace ZenonCore.BlockDownload

open OrphanPool (NodeId)
open PeerState Primitives SkipList

/-- `BLOCK_VALID_TREE`, `BLOCK_VALID_MASK`, `BLOCK_HAVE_DATA` and
`BLOCK_FAILED_MASK`. -/
def blockValidTree : UInt32 := 2
def blockValidMask : UInt32 := 7
def blockHaveData : UInt32 := 8
def blockFailedMask : UInt32 := 96

def blockDownloadWindow : Nat := 1024

structure BlockRecord where
  phashBlock : Uint256
  nChainWork : Nat
  nChainTx : UInt32
  nStatus : UInt32
deriving DecidableEq, Repr

namespace BlockRecord

def isValid (record : BlockRecord) (nUpTo : UInt32) : Bool :=
  if record.nStatus &&& blockFailedMask ≠ 0 then false
  else decide (nUpTo ≤ record.nStatus &&& blockValidMask)

def haveData (record : BlockRecord) : Bool := record.nStatus &&& blockHaveData ≠ 0

end BlockRecord

structure DownloadView where
  tree : Tree
  record : Nat → BlockRecord
  mapBlockIndex : Uint256 → Pointer
  /-- `chainActive`, by the heights of its blocks. -/
  vChain : List Nat

def DownloadView.height (view : DownloadView) (pindex : Nat) : Nat :=
  (view.tree[pindex]?.map Entry.nHeight).getD 0

def processBlockAvailability (view : DownloadView) (state : CNodeState) : CNodeState :=
  if state.hashLastUnknownBlock = 0 then state
  else
    match view.mapBlockIndex state.hashLastUnknownBlock with
    | none => state
    | some itOld =>
      if 0 < (view.record itOld).nChainWork then
        { state with
          pindexBestKnownBlock :=
            match state.pindexBestKnownBlock with
            | none => some itOld
            | some best =>
              if (view.record best).nChainWork ≤ (view.record itOld).nChainWork then some itOld
              else some best
          hashLastUnknownBlock := 0 }
      else state

/-! ## The last common block -/

/-- The loop of `LastCommonAncestor`, for a number of rounds. -/
def commonLoop (tree : Tree) : Nat → Pointer → Pointer → Option (Pointer × Pointer)
  | fuel, some pa, some pb =>
    if pa = pb then some (some pa, some pb)
    else
      match fuel with
      | 0 => none
      | fuel + 1 =>
        tree[pa]?.bind fun first =>
          tree[pb]?.bind fun second => commonLoop tree fuel first.pprev second.pprev
  | _, pa, pb => some (pa, pb)

def lastCommonAncestor (tree : Tree) (pa pb : Nat) : Option Pointer :=
  tree[pa]?.bind fun first =>
    tree[pb]?.bind fun second =>
      (if second.nHeight < first.nHeight then getAncestor tree pa second.nHeight
        else some (some pa)).bind fun left =>
        (if first.nHeight < second.nHeight then getAncestor tree pb first.nHeight
          else some (some pb)).bind fun right =>
          (commonLoop tree first.nHeight left right).bind fun both =>
            if both.1 = both.2 then some both.1 else none

/-- `pindexLastCommonBlock`, or a block of the active chain if it is null. -/
def commonGuess (view : DownloadView) (state : CNodeState) (best : Nat) : Option Nat :=
  match state.pindexLastCommonBlock with
  | some pindex => some pindex
  | none => view.vChain[min (view.height best) (view.vChain.length - 1)]?

/-- The new value of `pindexLastCommonBlock` before the blocks are scanned. -/
def lastCommonBlock (view : DownloadView) (state : CNodeState) (best : Nat) : Option Nat :=
  (commonGuess view state best).bind fun pindex =>
    (lastCommonAncestor view.tree pindex best).bind id

/-! ## The scan -/

structure Scan where
  pindexLastCommonBlock : Nat
  waitingfor : NodeId
  vBlocks : List Nat
  nodeStaller : NodeId
deriving DecidableEq, Repr

section Scanning

variable (view : DownloadView) (mapBlocksInFlight : AList fun _ : Uint256 => Place)
variable (nodeid : NodeId) (count : UInt32)

/-- One block of `vToFetch`; an error is a return from the function. -/
def scanBlock (nWindowEnd : Nat) (scan : Scan) (pindex : Nat) : Except Scan Scan :=
  let record := view.record pindex
  if !record.isValid blockValidTree then .error scan
  else if record.haveData then
    .ok (if record.nChainTx ≠ 0 then { scan with pindexLastCommonBlock := pindex } else scan)
  else
    match mapBlocksInFlight.lookup record.phashBlock with
    | none =>
      if nWindowEnd < view.height pindex then
        .error (if scan.vBlocks.length = 0 ∧ scan.waitingfor ≠ nodeid then
          { scan with nodeStaller := scan.waitingfor } else scan)
      else
        let taken := { scan with vBlocks := scan.vBlocks ++ [pindex] }
        if taken.vBlocks.length = count.toNat then .error taken else .ok taken
    | some place =>
      .ok (if scan.waitingfor = -1 then { scan with waitingfor := place.1 } else scan)

def fetchBack (tree : Tree) : Nat → Nat → Option (List Nat)
  | 0, _ => some []
  | 1, pindex => some [pindex]
  | nToFetch + 2, pindex =>
    (tree[pindex]?.bind Entry.pprev).bind fun pprev =>
      (fetchBack tree (nToFetch + 1) pprev).map fun others => others ++ [pindex]

/-- The number of blocks of a batch; `std::max<int>` converts to `int`. -/
def batchSize (nMaxHeight nHeight size : Nat) : Nat :=
  (min ((nMaxHeight : Int) - nHeight)
    (max (Int.bmod ((count.toNat : Int) - size) (2 ^ 32)) 128)).toNat

def downloadLoop (best nWindowEnd nMaxHeight : Nat) : Nat → Nat → Scan → Option Scan
  | fuel, pindexWalk, scan =>
    if view.height pindexWalk < nMaxHeight then
      match fuel with
      | 0 => none
      | fuel + 1 =>
        let nToFetch := batchSize count nMaxHeight (view.height pindexWalk) scan.vBlocks.length
        ((getAncestor view.tree best ((view.height pindexWalk + nToFetch : Nat) : Int)).bind
          id).bind fun next =>
          (fetchBack view.tree nToFetch next).bind fun vToFetch =>
            match vToFetch.foldlM
                (scanBlock view mapBlocksInFlight nodeid count nWindowEnd) scan with
            | .error returned => some returned
            | .ok scanned => downloadLoop best nWindowEnd nMaxHeight fuel next scanned
    else some scan

/-- `FindNextBlocksToDownload` behind the call of `ProcessBlockAvailability`,
with the state of the peer. -/
def scheduleBlocks (state : CNodeState) (vBlocks : List Nat) (nodeStaller : NodeId) :
    Option (CNodeState × List Nat × NodeId) :=
  match state.pindexBestKnownBlock with
  | none => some (state, vBlocks, nodeStaller)
  | some best =>
    view.vChain.getLast?.bind fun tip =>
      if (view.record best).nChainWork < (view.record tip).nChainWork then
        some (state, vBlocks, nodeStaller)
      else
        (lastCommonBlock view state best).bind fun common =>
          if common = best then
            some ({ state with pindexLastCommonBlock := some common }, vBlocks, nodeStaller)
          else
            let nWindowEnd := view.height common + blockDownloadWindow
            let nMaxHeight := min (view.height best) (nWindowEnd + 1)
            (downloadLoop view mapBlocksInFlight nodeid count best nWindowEnd nMaxHeight nMaxHeight
              common
              { pindexLastCommonBlock := common
                waitingfor := -1
                vBlocks := vBlocks
                nodeStaller := nodeStaller }).map fun scan =>
              ({ state with pindexLastCommonBlock := some scan.pindexLastCommonBlock },
                scan.vBlocks, scan.nodeStaller)

end Scanning

structure Scheduling where
  peers : PeerStates
  vBlocks : List Nat
  nodeStaller : NodeId

def findNextBlocksToDownload (view : DownloadView) (peers : PeerStates) (nodeid : NodeId)
    (count : UInt32) (vBlocks : List Nat) (nodeStaller : NodeId) : Option Scheduling :=
  if count = 0 then some { peers := peers, vBlocks := vBlocks, nodeStaller := nodeStaller }
  else
    (peers.state nodeid).bind fun state =>
      (scheduleBlocks view peers.mapBlocksInFlight nodeid count
        (processBlockAvailability view state) vBlocks nodeStaller).map fun done =>
        { peers := { peers with mapNodeState := peers.mapNodeState.insert nodeid done.1 }
          vBlocks := done.2.1
          nodeStaller := done.2.2 }

end ZenonCore.BlockDownload
