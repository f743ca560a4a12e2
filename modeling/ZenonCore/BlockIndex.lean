import Mathlib.Data.Finset.Card
import Mathlib.Data.Finset.Range
import ZenonCore.Library.Runs

/-!
# The block index

`mapBlockIndex` with the candidates for the tip and the blocks that wait for data. Entries are
named by the order in which they were made, which also stands for their addresses.
-/

namespace ZenonCore.BlockIndex

/-- The validity levels of `BlockStatus` that are raised here. -/
def blockValidTree : Nat := 2

def blockValidTransactions : Nat := 3

def blockValidScripts : Nat := 5

structure CBlockIndex where
  pprev : Option Nat
  nChainWork : Nat
  nSequenceId : Nat
  nTx : Nat
  nChainTx : Nat
  nValidity : Nat
  fHaveData : Bool
  fFailedValid : Bool
  fFailedChild : Bool
deriving DecidableEq, Repr

namespace CBlockIndex

def failed (pindex : CBlockIndex) : Bool := pindex.fFailedValid || pindex.fFailedChild

def isValid (pindex : CBlockIndex) (nUpTo : Nat) : Bool :=
  !pindex.failed && decide (nUpTo ≤ pindex.nValidity)

def raiseValidity (pindex : CBlockIndex) (nUpTo : Nat) : CBlockIndex :=
  if pindex.failed then pindex
  else if pindex.nValidity < nUpTo then { pindex with nValidity := nUpTo }
  else pindex

end CBlockIndex

def newEntry (pprev : Option Nat) (nChainWork : Nat) : CBlockIndex where
  pprev := pprev
  nChainWork := nChainWork
  nSequenceId := 0
  nTx := 0
  nChainTx := 0
  nValidity := blockValidTree
  fHaveData := false
  fFailedValid := false
  fFailedChild := false

structure IndexState where
  count : Nat
  entry : Nat → CBlockIndex
  tip : Option Nat
  setBlockIndexCandidates : Finset Nat
  mapBlocksUnlinked : List (Nat × Nat)
  nBlockSequenceId : Nat

def emptyIndex : IndexState where
  count := 0
  entry := fun _ => newEntry none 0
  tip := none
  setBlockIndexCandidates := ∅
  mapBlocksUnlinked := []
  nBlockSequenceId := 1

def sortsBelow (entry : Nat → CBlockIndex) (pa pb : Nat) : Bool :=
  if (entry pb).nChainWork < (entry pa).nChainWork then false
  else if (entry pa).nChainWork < (entry pb).nChainWork then true
  else if (entry pa).nSequenceId < (entry pb).nSequenceId then false
  else if (entry pb).nSequenceId < (entry pa).nSequenceId then true
  else decide (pb < pa)

def chainFrom (entry : Nat → CBlockIndex) : Nat → Nat → List Nat
  | 0, _ => []
  | fuel + 1, pindex =>
    pindex ::
      match (entry pindex).pprev with
      | none => []
      | some pprev => chainFrom entry fuel pprev

/-- An entry and its ancestors, which were all made before it. -/
def chainOf (entry : Nat → CBlockIndex) (pindex : Nat) : List Nat :=
  chainFrom entry (pindex + 1) pindex

namespace IndexState

variable (state : IndexState)

def contains (pindex : Nat) : Bool :=
  match state.tip with
  | none => false
  | some tip => (chainOf state.entry tip).contains pindex

/-- `value_comp()(pindex, chainActive.Tip())`, of no entry while there is no tip. -/
def belowTip (pindex : Nat) : Bool :=
  match state.tip with
  | none => false
  | some tip => sortsBelow state.entry pindex tip

def linked (pindex : Nat) : Bool := (state.entry pindex).nChainTx != 0

def parentLinked (pindex : Nat) : Bool :=
  match (state.entry pindex).pprev with
  | none => true
  | some pprev => state.linked pprev

def setEntry (pindex : Nat) (value : CBlockIndex) : IndexState :=
  { state with entry := fun other => if other = pindex then value else state.entry other }

end IndexState

def addToBlockIndex (state : IndexState) (pprev : Option Nat) (nBlockProof : Nat) : IndexState :=
  let nChainWork := (match pprev with
    | none => 0
    | some pprev => (state.entry pprev).nChainWork) + nBlockProof
  { state.setEntry state.count (newEntry pprev nChainWork) with count := state.count + 1 }

/-- One round of the queue of `ReceivedBlockTransactions`, which queues the entries that waited for
this one. -/
def linkEntry (state : IndexState) (pindex : Nat) : IndexState × List Nat :=
  let pindexEntry := state.entry pindex
  let nChainTxPrev := match pindexEntry.pprev with
    | none => 0
    | some pprev => (state.entry pprev).nChainTx
  let linked := state.setEntry pindex
    { pindexEntry with
      nChainTx := nChainTxPrev + pindexEntry.nTx
      nSequenceId := state.nBlockSequenceId }
  ({ linked with
      nBlockSequenceId := state.nBlockSequenceId + 1
      setBlockIndexCandidates :=
        if linked.belowTip pindex then state.setBlockIndexCandidates
        else insert pindex state.setBlockIndexCandidates
      mapBlocksUnlinked := state.mapBlocksUnlinked.filter fun pair => pair.1 != pindex },
    (state.mapBlocksUnlinked.filter fun pair => pair.1 == pindex).map Prod.snd)

/-- The queue, which takes at most one round for each waiting entry. -/
def linkQueue : Nat → List Nat → IndexState → IndexState
  | 0, _, state => state
  | _ + 1, [], state => state
  | fuel + 1, pindex :: queue, state =>
    let (next, waiting) := linkEntry state pindex
    linkQueue fuel (queue ++ waiting) next

/-- `ReceivedBlockTransactions` of a block with `nTx` transactions. -/
def receivedBlockTransactions (state : IndexState) (pindexNew nTx : Nat) : IndexState :=
  let received := state.setEntry pindexNew
    ({ state.entry pindexNew with nTx := nTx, nChainTx := 0, fHaveData := true }.raiseValidity
      blockValidTransactions)
  if received.parentLinked pindexNew then
    linkQueue (received.mapBlocksUnlinked.length + 1) [pindexNew] received
  else
    match (received.entry pindexNew).pprev with
    | none => received
    | some pprev =>
      if (received.entry pprev).isValid blockValidTree then
        { received with
          mapBlocksUnlinked := received.mapBlocksUnlinked ++ [(pprev, pindexNew)] }
      else received

/-- The last of the candidates, which sorts above the others. -/
def bestCandidate (state : IndexState) : Option Nat :=
  (List.range state.count).foldl (fun best pindex =>
    if pindex ∈ state.setBlockIndexCandidates then
      match best with
      | none => some pindex
      | some other => if sortsBelow state.entry other pindex then some pindex else best
    else best) none

/-- The way from an entry down to the active chain, without that chain. -/
def pathOf (state : IndexState) (pindex : Nat) : List Nat :=
  (chainOf state.entry pindex).takeWhile fun other => !state.contains other

/-- The first entry on the way that is marked or has no data. -/
def firstUnusable (state : IndexState) (pindexNew : Nat) : Option Nat :=
  (pathOf state pindexNew).find? fun pindexTest =>
    (state.entry pindexTest).failed || !(state.entry pindexTest).fHaveData

def removeChain (state : IndexState) (pindexNew pindexTest : Nat) : IndexState :=
  let above := (pathOf state pindexNew).takeWhile fun other => other != pindexTest
  let removed := { state with
    setBlockIndexCandidates :=
      state.setBlockIndexCandidates.filter fun pindex => pindex ∉ pindexTest :: above }
  if (state.entry pindexTest).failed then
    { removed with
      entry := fun pindex =>
        if pindex ∈ above then { state.entry pindex with fFailedChild := true }
        else state.entry pindex }
  else
    { removed with
      mapBlocksUnlinked := state.mapBlocksUnlinked ++ above.filterMap fun pindexFailed =>
        (state.entry pindexFailed).pprev.map fun pprev => (pprev, pindexFailed) }

/-- `FindMostWorkChain`, which drops a candidate in every round but the last. -/
def findMostWorkChain : Nat → IndexState → IndexState × Option Nat
  | 0, state => (state, none)
  | fuel + 1, state =>
    match bestCandidate state with
    | none => (state, none)
    | some pindexNew =>
      match firstUnusable state pindexNew with
      | none => (state, some pindexNew)
      | some pindexTest => findMostWorkChain fuel (removeChain state pindexNew pindexTest)

inductive ConnectOutcome
  | connected
  | invalid
  | corrupted
  | error
deriving DecidableEq, Repr

def pruneBlockIndexCandidates (state : IndexState) : IndexState :=
  { state with
    setBlockIndexCandidates :=
      state.setBlockIndexCandidates.filter fun pindex => !state.belowTip pindex }

/-- `InvalidBlockFound` of a block that is not just corrupted. -/
def invalidBlockFound (state : IndexState) (pindex : Nat) : IndexState :=
  { state.setEntry pindex { state.entry pindex with fFailedValid := true } with
    setBlockIndexCandidates := state.setBlockIndexCandidates.erase pindex }

def connected (state : IndexState) (pindex : Nat) : IndexState :=
  pruneBlockIndexCandidates
    { state.setEntry pindex ((state.entry pindex).raiseValidity blockValidScripts) with
      tip := some pindex }

/-- The new blocks of `ActivateBestChainStep`, up to the first that makes things better or does not
connect. -/
def connectBlocks (outcome : Nat → ConnectOutcome) (pindexOldTip : Option Nat) :
    List Nat → IndexState → IndexState
  | [], state => state
  | pindexConnect :: rest, state =>
    match outcome pindexConnect with
    | .connected =>
      let next := connected state pindexConnect
      let better := match pindexOldTip with
        | none => true
        | some old =>
          decide ((next.entry old).nChainWork < (next.entry pindexConnect).nChainWork)
      if better then next else connectBlocks outcome pindexOldTip rest next
    | .invalid => invalidBlockFound state pindexConnect
    | .corrupted | .error => state

def findFork (state : IndexState) (pindex : Nat) : Option Nat :=
  (chainOf state.entry pindex).find? state.contains

def activateBestChainStep (outcome : Nat → ConnectOutcome) (state : IndexState)
    (pindexMostWork : Nat) : IndexState :=
  connectBlocks outcome state.tip (pathOf state pindexMostWork).reverse
    { state with tip := findFork state pindexMostWork }

/-- One round of the loop of `ActivateBestChain`, and whether the loop ends
with it. -/
def activateBestChain (outcome : Nat → ConnectOutcome) (state : IndexState) :
    IndexState × Bool :=
  match findMostWorkChain (state.setBlockIndexCandidates.card + 1) state with
  | (found, none) => (found, true)
  | (found, some pindexMostWork) =>
    if found.tip = some pindexMostWork then (found, true)
    else
      let next := activateBestChainStep outcome found pindexMostWork
      (next, next.tip = some pindexMostWork)

def activeDownTo (state : IndexState) (pindex : Nat) : List Nat :=
  match state.tip with
  | none => []
  | some tip =>
    if state.contains pindex then
      (chainOf state.entry tip).takeWhile (fun other => other != pindex) ++ [pindex]
    else []

def invalidateBlock (state : IndexState) (pindex : Nat) : IndexState :=
  let marked := state.setEntry pindex { state.entry pindex with fFailedValid := true }
  let walked := activeDownTo state pindex
  let behind := { marked with
    entry := fun other =>
      if other ∈ walked then { marked.entry other with fFailedChild := true }
      else marked.entry other
    tip := if state.contains pindex then (state.entry pindex).pprev else state.tip
    setBlockIndexCandidates :=
      state.setBlockIndexCandidates.filter fun other => other ∉ pindex :: walked }
  { behind with
    setBlockIndexCandidates := behind.setBlockIndexCandidates ∪
      (Finset.range behind.count).filter fun other =>
        (behind.entry other).isValid blockValidTransactions && behind.linked other &&
          !behind.belowTip other }

/-- `ReconsiderBlock`. Only the loop over the descendants adds candidates; the ancestors' marks go
behind it. -/
def reconsiderBlock (state : IndexState) (pindex : Nat) : IndexState :=
  let clear := fun (entry : CBlockIndex) =>
    { entry with fFailedValid := false, fFailedChild := false }
  let reset := fun other => !(state.entry other).isValid blockValidTransactions &&
    (chainOf state.entry other).contains pindex
  { state with
    entry := fun other =>
      if reset other || (chainOf state.entry pindex).contains other then clear (state.entry other)
      else state.entry other
    setBlockIndexCandidates := state.setBlockIndexCandidates ∪
      (Finset.range state.count).filter fun other =>
        reset other && (clear (state.entry other)).isValid blockValidTransactions &&
          state.linked other &&
          match state.tip with
          | none => false
          | some tip => sortsBelow state.entry tip other }

inductive Event
  | addToBlockIndex (pprev : Option Nat) (nBlockProof : Nat)
  | receivedBlockTransactions (pindexNew nTx : Nat)
  | activateBestChain (outcome : Nat → ConnectOutcome)
  | invalidateBlock (pindex : Nat)
  | reconsiderBlock (pindex : Nat)

/-- Whether the callers get there: a known parent and a positive proof for a header, an unmarked
entry and parent for a block, no disconnection of the genesis block. -/
def possible (state : IndexState) : Event → Bool
  | .addToBlockIndex pprev nBlockProof =>
    decide (0 < nBlockProof) &&
      match pprev with
      | none => state.count == 0
      | some pprev => decide (pprev < state.count)
  | .receivedBlockTransactions pindexNew nTx =>
    decide (pindexNew < state.count) && decide (0 < nTx) &&
      !(state.entry pindexNew).fHaveData && !(state.entry pindexNew).failed &&
      match (state.entry pindexNew).pprev with
      | none => true
      | some pprev => !(state.entry pprev).failed
  | .activateBestChain _ => true
  | .invalidateBlock pindex =>
    decide (pindex < state.count) && state.tip.isSome && (state.entry pindex).pprev.isSome
  | .reconsiderBlock pindex => decide (pindex < state.count) && state.tip.isSome

def perform (state : IndexState) : Event → IndexState
  | .addToBlockIndex pprev nBlockProof => addToBlockIndex state pprev nBlockProof
  | .receivedBlockTransactions pindexNew nTx => receivedBlockTransactions state pindexNew nTx
  | .activateBestChain outcome => (activateBestChain outcome state).1
  | .invalidateBlock pindex => invalidateBlock state pindex
  | .reconsiderBlock pindex => reconsiderBlock state pindex

def step (state : IndexState) (event : Event) : Option IndexState :=
  if possible state event then some (perform state event) else none

end ZenonCore.BlockIndex
