import ZenonCore.Library.LinkedList
import ZenonCore.Library.Maps
import ZenonCore.OrphanPool

/-!
# The state of the peers

`mapNodeState` and `mapBlocksInFlight`. A null pointer or a stale iterator that is followed
has no result, and neither has an assertion that fails.
-/

namespace ZenonCore.PeerState

open Library.LinkedList Library.Maps OrphanPool
open Primitives

structure QueuedBlock where
  hash : Uint256
  pindex : Option Nat
  nTime : Int
  nValidatedQueuedBefore : Int
  fValidatedHeaders : Bool
deriving DecidableEq, Repr

structure CNodeState where
  address : List UInt8
  fCurrentlyConnected : Bool
  nMisbehavior : Int
  name : List UInt8
  pindexBestKnownBlock : Option Nat
  hashLastUnknownBlock : Uint256
  pindexLastCommonBlock : Option Nat
  fSyncStarted : Bool
  nStallingSince : Int
  vBlocksInFlight : StdList QueuedBlock
  nBlocksInFlight : Int
  fPreferredDownload : Bool

def CNodeState.fresh : CNodeState where
  address := []
  fCurrentlyConnected := false
  nMisbehavior := 0
  name := []
  pindexBestKnownBlock := none
  hashLastUnknownBlock := 0
  pindexLastCommonBlock := none
  fSyncStarted := false
  nStallingSince := 0
  vBlocksInFlight := StdList.empty
  nBlocksInFlight := 0
  fPreferredDownload := false

abbrev Place := NodeId × Nat

structure PeerStates where
  mapNodeState : AList fun _ : NodeId => CNodeState
  mapBlocksInFlight : AList fun _ : Uint256 => Place
  nQueuedValidatedHeaders : Int
  nSyncStarted : Int
  nPreferredDownload : Int
  orphans : OrphanMaps
  /-- The calls of `AddressCurrentlyConnected`. -/
  currentlyConnected : List (List UInt8)

namespace PeerStates

def empty : PeerStates where
  mapNodeState := ∅
  mapBlocksInFlight := ∅
  nQueuedValidatedHeaders := 0
  nSyncStarted := 0
  nPreferredDownload := 0
  orphans := OrphanMaps.empty
  currentlyConnected := []

def state (peers : PeerStates) (pnode : NodeId) : Option CNodeState :=
  peers.mapNodeState.lookup pnode

def listed (peers : PeerStates) (place : Place) : Option QueuedBlock :=
  (peers.state place.1).bind fun state => state.vBlocksInFlight.deref place.2

end PeerStates

def initializeNode (peers : PeerStates) (nodeid : NodeId) (addrName addr : List UInt8) :
    PeerStates :=
  { peers with
    mapNodeState := adjust (fun state => { state with name := addrName, address := addr }) nodeid
      (insertNew peers.mapNodeState nodeid CNodeState.fresh) }

def finalizeNode (peers : PeerStates) (nodeid : NodeId) : Option PeerStates :=
  (peers.state nodeid).map fun state =>
    { peers with
      nSyncStarted := if state.fSyncStarted then peers.nSyncStarted - 1 else peers.nSyncStarted
      currentlyConnected :=
        if state.nMisbehavior = (0 : Int) ∧ state.fCurrentlyConnected then
          peers.currentlyConnected ++ [state.address]
        else peers.currentlyConnected
      mapBlocksInFlight :=
        eraseAll (state.vBlocksInFlight.values.map QueuedBlock.hash) peers.mapBlocksInFlight
      orphans := eraseOrphansFor peers.orphans nodeid
      nPreferredDownload := peers.nPreferredDownload - state.fPreferredDownload.toInt
      mapNodeState := peers.mapNodeState.erase nodeid }

def markBlockAsReceived (peers : PeerStates) (hash : Uint256) : Option PeerStates :=
  match peers.mapBlocksInFlight.lookup hash with
  | none => some peers
  | some itInFlight =>
    (peers.state itInFlight.1).bind fun state =>
      (state.vBlocksInFlight.deref itInFlight.2).map fun entry =>
        { peers with
          nQueuedValidatedHeaders :=
            peers.nQueuedValidatedHeaders - entry.fValidatedHeaders.toInt
          mapNodeState := peers.mapNodeState.insert itInFlight.1
            { state with
              vBlocksInFlight := state.vBlocksInFlight.erase itInFlight.2
              nBlocksInFlight := state.nBlocksInFlight - 1
              nStallingSince := 0 }
          mapBlocksInFlight := peers.mapBlocksInFlight.erase hash }

/-- The part of `MarkBlockAsInFlight` behind the call of `MarkBlockAsReceived`. -/
def queueBlock (peers : PeerStates) (nodeid : NodeId) (state : CNodeState) (hash : Uint256)
    (pindex : Option Nat) (now : Int) : PeerStates :=
  let newentry : QueuedBlock :=
    { hash := hash
      pindex := pindex
      nTime := now
      nValidatedQueuedBefore := peers.nQueuedValidatedHeaders
      fValidatedHeaders := pindex.isSome }
  { peers with
    nQueuedValidatedHeaders := peers.nQueuedValidatedHeaders + newentry.fValidatedHeaders.toInt
    mapNodeState := peers.mapNodeState.insert nodeid
      { state with
        vBlocksInFlight := state.vBlocksInFlight.pushBack newentry
        nBlocksInFlight := state.nBlocksInFlight + 1 }
    mapBlocksInFlight :=
      peers.mapBlocksInFlight.insert hash (nodeid, state.vBlocksInFlight.nextAddress) }

/-- `MarkBlockAsInFlight`, with the result of `GetTimeMicros`. -/
def markBlockAsInFlight (peers : PeerStates) (nodeid : NodeId) (hash : Uint256)
    (pindex : Option Nat) (now : Int) : Option PeerStates :=
  (peers.state nodeid).bind fun _ =>
    (markBlockAsReceived peers hash).bind fun received =>
      (received.state nodeid).map fun state => queueBlock received nodeid state hash pindex now

inductive PeerEvent
  | initializeNode (nodeid : NodeId) (addrName addr : List UInt8)
  | finalizeNode (nodeid : NodeId)
  | received (hash : Uint256)
  | inFlight (nodeid : NodeId) (hash : Uint256) (pindex : Option Nat) (now : Int)
deriving DecidableEq, Repr

def step (peers : PeerStates) : PeerEvent → Option PeerStates
  | .initializeNode nodeid addrName addr => some (initializeNode peers nodeid addrName addr)
  | .finalizeNode nodeid => finalizeNode peers nodeid
  | .received hash => markBlockAsReceived peers hash
  | .inFlight nodeid hash pindex now => markBlockAsInFlight peers nodeid hash pindex now

end ZenonCore.PeerState
