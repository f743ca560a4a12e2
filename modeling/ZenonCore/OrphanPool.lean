import Mathlib.Data.List.AList
import Mathlib.Data.List.MinMax
import ZenonCore.Library.InverseIndex
import ZenonCore.Primitives

/-!
# The orphan transactions

Transactions whose inputs are not known yet, and for each hash those that wait for it.
-/

namespace ZenonCore.OrphanPool

open Library.InverseIndex Primitives

abbrev NodeId := Int

structure COrphanTx where
  tx : CTransaction
  fromPeer : NodeId
deriving DecidableEq, Repr

structure OrphanMaps where
  mapOrphanTransactions : AList fun _ : Uint256 => COrphanTx
  mapOrphanTransactionsByPrev : Index Uint256 Uint256

namespace OrphanMaps

def empty : OrphanMaps where
  mapOrphanTransactions := ∅
  mapOrphanTransactionsByPrev := fun _ => none

def orphan (pool : OrphanMaps) (hash : Uint256) : Option COrphanTx :=
  pool.mapOrphanTransactions.lookup hash

def size (pool : OrphanMaps) : Nat := pool.mapOrphanTransactions.keys.length

def notAbove (first second : Uint256) : Prop := first.toNat ≤ second.toNat

instance (first second : Uint256) : Decidable (notAbove first second) :=
  inferInstanceAs (Decidable (_ ≤ _))

/-- The keys of `mapOrphanTransactions` in the order of the map. -/
def keys (pool : OrphanMaps) : List Uint256 :=
  pool.mapOrphanTransactions.keys.insertionSort notAbove

def prevHashes (orphan : COrphanTx) : List Uint256 :=
  orphan.tx.vin.map fun txin => txin.prevout.hash

end OrphanMaps

open OrphanMaps

/-! ## The functions on the two maps -/

def addOrphanTx (getSerializeSize : CTransaction → Nat) (pool : OrphanMaps) (tx : CTransaction)
    (peer : NodeId) : Bool × OrphanMaps :=
  let hash := tx.hash
  if (pool.orphan hash).isSome then (false, pool)
  else if 5000 < getSerializeSize tx then (false, pool)
  else
    let entry : COrphanTx := { tx := tx, fromPeer := peer }
    (true,
      { mapOrphanTransactions := pool.mapOrphanTransactions.insert hash entry
        mapOrphanTransactionsByPrev :=
          linkAll notAbove hash (prevHashes entry) pool.mapOrphanTransactionsByPrev })

def eraseOrphanTx (pool : OrphanMaps) (hash : Uint256) : OrphanMaps :=
  match pool.orphan hash with
  | none => pool
  | some entry =>
    { mapOrphanTransactions := pool.mapOrphanTransactions.erase hash
      mapOrphanTransactionsByPrev :=
        unlinkAll hash (prevHashes entry) pool.mapOrphanTransactionsByPrev }

/-- One round of `EraseOrphansFor`, whose iterator has moved on before. -/
def eraseIfFrom (peer : NodeId) (pool : OrphanMaps) (key : Uint256) : OrphanMaps :=
  match pool.orphan key with
  | none => pool
  | some entry => if entry.fromPeer = peer then eraseOrphanTx pool entry.tx.hash else pool

def eraseOrphansFor (pool : OrphanMaps) (peer : NodeId) : OrphanMaps :=
  pool.keys.foldl (eraseIfFrom peer) pool

/-- The orphan that is evicted: the first one not below a random hash, or the
first one of all. -/
def evictedOrphan (pool : OrphanMaps) (randomhash : Uint256) : Option Uint256 :=
  (pool.keys.find? fun hash => decide (notAbove randomhash hash)).or pool.keys.head?

/-- The loop of `LimitOrphanTxSize`, with the random hashes it takes and the
number of evictions. -/
def limitFrom (nMaxOrphans : Nat) (randomHash : Nat → Uint256) :
    Nat → Nat → OrphanMaps → Nat × OrphanMaps
  | 0, nEvicted, pool => (nEvicted, pool)
  | fuel + 1, nEvicted, pool =>
    if nMaxOrphans < pool.size then
      match evictedOrphan pool (randomHash nEvicted) with
      | none => (nEvicted, pool)
      | some hash =>
        limitFrom nMaxOrphans randomHash fuel (nEvicted + 1) (eraseOrphanTx pool hash)
    else (nEvicted, pool)

def limitOrphanTxSize (pool : OrphanMaps) (nMaxOrphans : Nat) (randomHash : Nat → Uint256) :
    Nat × OrphanMaps :=
  limitFrom nMaxOrphans randomHash pool.size 0 pool

/-! ## The handler of a transaction -/

/-- What `AcceptToMemoryPool` says: its result, `fMissingInputs`, and the level
of misbehaviour in an invalid state. -/
structure Acceptance where
  accepted : Bool
  fMissingInputs : Bool
  nDoS : Option Int
deriving DecidableEq, Repr

/-- The locals of the loops over the orphans, and what is told to others. -/
structure Resolving where
  pool : OrphanMaps
  /-- The part of `vWorkQueue` that is not processed yet. -/
  vWorkQueue : List Uint256
  vEraseQueue : List Uint256
  setMisbehaving : List NodeId
  misbehaviour : List (NodeId × Int)
  relayed : List CTransaction

/-- `mapOrphanTransactions[orphanHash]`, which makes an entry if there is none. -/
def orphanAt (pool : OrphanMaps) (hash : Uint256) : COrphanTx × OrphanMaps :=
  match pool.orphan hash with
  | some entry => (entry, pool)
  | none =>
    let entry : COrphanTx :=
      { tx := { hash := 0, nVersion := 1, vin := [], vout := [], nLockTime := 0 }
        fromPeer := 0 }
    (entry, { pool with mapOrphanTransactions := pool.mapOrphanTransactions.insert hash entry })

def Resolving.answered (state : Resolving) (orphanHash : Uint256) (orphan : COrphanTx)
    (answer : Acceptance) : Resolving :=
  if answer.accepted then
    { state with
      vWorkQueue := state.vWorkQueue ++ [orphanHash]
      vEraseQueue := state.vEraseQueue ++ [orphanHash]
      relayed := state.relayed ++ [orphan.tx] }
  else if answer.fMissingInputs then state
  else
    let punished :=
      match answer.nDoS with
      | none => state
      | some nDoS =>
        if 0 < nDoS then
          { state with
            setMisbehaving := orphan.fromPeer :: state.setMisbehaving
            misbehaviour := state.misbehaviour ++ [(orphan.fromPeer, nDoS)] }
        else state
    { punished with vEraseQueue := punished.vEraseQueue ++ [orphanHash] }

/-- The loop over the orphans of one transaction, by the answers of `AcceptToMemoryPool`. -/
def resolveChildren :
    List Uint256 → List Acceptance → Resolving → Option (List Acceptance × Resolving)
  | [], answers, state => some (answers, state)
  | orphanHash :: rest, answers, state =>
    let (orphan, pool) := orphanAt state.pool orphanHash
    let state := { state with pool := pool }
    if state.setMisbehaving.contains orphan.fromPeer then resolveChildren rest answers state
    else
      match answers with
      | [] => none
      | answer :: others => resolveChildren rest others (state.answered orphanHash orphan answer)

theorem answered_queue (state : Resolving) (orphanHash : Uint256) (orphan : COrphanTx)
    (answer : Acceptance) :
    (state.answered orphanHash orphan answer).vWorkQueue.length ≤ state.vWorkQueue.length + 1 := by
  unfold Resolving.answered
  dsimp only
  split_ifs
  · rw [List.length_append, List.length_singleton]
  · exact Nat.le_succ _
  · split
    · exact Nat.le_succ _
    · split_ifs
      · exact Nat.le_succ _
      · exact Nat.le_succ _

theorem resolveChildren_length (children : List Uint256) (answers rest : List Acceptance)
    (state next : Resolving) (done : resolveChildren children answers state = some (rest, next)) :
    rest.length + next.vWorkQueue.length ≤ answers.length + state.vWorkQueue.length := by
  induction children generalizing answers state with
  | nil =>
    cases done
    exact Nat.le_refl _
  | cons orphanHash others ih =>
    unfold resolveChildren at done
    dsimp only at done
    split at done
    · exact ih answers { state with pool := (orphanAt state.pool orphanHash).2 } done
    · cases answers with
      | nil => cases done
      | cons answer later =>
        have more := ih _ _ done
        have one := answered_queue { state with pool := (orphanAt state.pool orphanHash).2 }
          orphanHash (orphanAt state.pool orphanHash).1 answer
        rw [List.length_cons]
        dsimp only at one
        omega

def resolveQueue (answers : List Acceptance) (state : Resolving) : Option Resolving :=
  match _queue : state.vWorkQueue with
  | [] => some state
  | hash :: others =>
    match _done : resolveChildren (members state.pool.mapOrphanTransactionsByPrev hash) answers
        { state with vWorkQueue := others } with
    | none => none
    | some (rest, next) => resolveQueue rest next
termination_by answers.length + state.vWorkQueue.length
decreasing_by
  have shorter := resolveChildren_length _ _ _ _ _ _done
  rw [_queue, List.length_cons]
  dsimp only at shorter
  omega

def resolveOrphans (pool : OrphanMaps) (hash : Uint256) (answers : List Acceptance) :
    Option OrphanMaps :=
  (resolveQueue answers
    { pool := pool
      vWorkQueue := [hash]
      vEraseQueue := []
      setMisbehaving := []
      misbehaviour := []
      relayed := [] }).map fun resolved =>
    resolved.vEraseQueue.foldl eraseOrphanTx resolved.pool

/-- The part of `ProcessMessage` for a transaction that concerns the orphans, with the answers of
`AcceptToMemoryPool`. -/
def processTx (getSerializeSize : CTransaction → Nat) (pool : OrphanMaps) (tx : CTransaction)
    (pfrom : NodeId) (nMaxOrphanTx : Nat) (randomHash : Nat → Uint256) :
    List Acceptance → Option OrphanMaps
  | [] => none
  | first :: answers =>
    if tx.hasZerocoinSpendInputs then some pool
    else if first.accepted then resolveOrphans pool tx.hash answers
    else if first.fMissingInputs then
      some (limitOrphanTxSize (addOrphanTx getSerializeSize pool tx pfrom).2 nMaxOrphanTx
        randomHash).2
    else some pool

inductive PoolEvent
  | add (tx : CTransaction) (peer : NodeId)
  | erase (hash : Uint256)
  | eraseFor (peer : NodeId)
  | limit (nMaxOrphans : Nat) (randomHash : Nat → Uint256)
  | tx (tx : CTransaction) (pfrom : NodeId) (nMaxOrphanTx : Nat) (randomHash : Nat → Uint256)
      (answers : List Acceptance)

def step (getSerializeSize : CTransaction → Nat) (pool : OrphanMaps) :
    PoolEvent → Option OrphanMaps
  | .add tx peer => some (addOrphanTx getSerializeSize pool tx peer).2
  | .erase hash => some (eraseOrphanTx pool hash)
  | .eraseFor peer => some (eraseOrphansFor pool peer)
  | .limit nMaxOrphans randomHash => some (limitOrphanTxSize pool nMaxOrphans randomHash).2
  | .tx tx pfrom nMaxOrphanTx randomHash answers =>
    processTx getSerializeSize pool tx pfrom nMaxOrphanTx randomHash answers

end ZenonCore.OrphanPool
