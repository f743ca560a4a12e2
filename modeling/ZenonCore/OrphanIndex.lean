import ZenonCore.Library.Runs
import ZenonCore.OrphanPool

/-!
# The index of the orphans

Every call leaves `mapOrphanTransactionsByPrev` the inverse of `mapOrphanTransactions`.
-/

namespace ZenonCore.OrphanIndex

open Library.InverseIndex Library.Runs OrphanPool List
open OrphanPool.OrphanMaps Primitives

structure Indexed (pool : OrphanMaps) : Prop where
  keyed : ∀ hash entry, pool.orphan hash = some entry → entry.tx.hash = hash
  inverse : Inverse pool.orphan prevHashes pool.mapOrphanTransactionsByPrev
  full : NoEmptySets pool.mapOrphanTransactionsByPrev

theorem indexed_empty : Indexed empty where
  keyed := by
    intro hash entry found
    cases found
  inverse := by
    intro key name
    constructor
    · intro there
      cases there
    · rintro ⟨record, found, _⟩
      cases found
  full := by
    intro key set
    cases set

section Operations

variable (getSerializeSize : CTransaction → Nat) (pool : OrphanMaps)

theorem addOrphanTx_indexed (indexed : Indexed pool) (tx : CTransaction) (peer : NodeId) :
    Indexed (addOrphanTx getSerializeSize pool tx peer).2 := by
  unfold addOrphanTx
  dsimp only
  split_ifs with known large
  · exact indexed
  · exact indexed
  · have new : pool.orphan tx.hash = none := by simpa using known
    have stored : ∀ entry : COrphanTx,
        (pool.mapOrphanTransactions.insert tx.hash entry).lookup tx.hash = some entry := by
      intro entry
      exact AList.lookup_insert _
    have others : ∀ (entry : COrphanTx) hash, hash ≠ tx.hash →
        (pool.mapOrphanTransactions.insert tx.hash entry).lookup hash = pool.orphan hash := by
      intro entry hash apart
      exact AList.lookup_insert_ne apart
    constructor
    · intro hash entry found
      by_cases same : hash = tx.hash
      · rw [same] at found ⊢
        have made := (stored _).symm.trans found
        rw [← Option.some.inj made]
      · exact indexed.keyed hash entry ((others _ hash same).symm.trans found)
    · exact indexed.inverse.add notAbove tx.hash _ new (stored _) (others _)
    · exact noEmptySets_linkAll notAbove _ _ _ indexed.full

theorem eraseOrphanTx_indexed (indexed : Indexed pool) (hash : Uint256) :
    Indexed (eraseOrphanTx pool hash) := by
  unfold eraseOrphanTx
  cases stored : pool.orphan hash with
  | none => exact indexed
  | some entry =>
    have removed : (pool.mapOrphanTransactions.erase hash).lookup hash = none :=
      AList.lookup_erase _ _
    have others : ∀ other, other ≠ hash →
        (pool.mapOrphanTransactions.erase hash).lookup other = pool.orphan other := by
      intro other apart
      exact AList.lookup_erase_ne apart
    constructor
    · intro other found there
      by_cases same : other = hash
      · rw [same] at there
        have nothing := removed.symm.trans there
        cases nothing
      · exact indexed.keyed other found ((others other same).symm.trans there)
    · exact indexed.inverse.remove hash entry stored removed others
    · exact noEmptySets_unlinkAll _ _ _ indexed.full

theorem eraseOrphansFor_indexed (indexed : Indexed pool) (peer : NodeId) :
    Indexed (eraseOrphansFor pool peer) := by
  unfold eraseOrphansFor
  generalize pool.keys = keys
  induction keys generalizing pool with
  | nil => exact indexed
  | cons key rest ih =>
    apply ih
    unfold eraseIfFrom
    split
    · exact indexed
    · split
      · exact eraseOrphanTx_indexed pool indexed _
      · exact indexed

theorem eraseAll_indexed (indexed : Indexed pool) (hashes : List Uint256) :
    Indexed (hashes.foldl eraseOrphanTx pool) := by
  induction hashes generalizing pool with
  | nil => exact indexed
  | cons hash rest ih => exact ih _ (eraseOrphanTx_indexed pool indexed hash)

theorem limitOrphanTxSize_indexed (indexed : Indexed pool) (nMaxOrphans : Nat)
    (randomHash : Nat → Uint256) :
    Indexed (limitOrphanTxSize pool nMaxOrphans randomHash).2 := by
  have loop : ∀ (fuel nEvicted : Nat) (pool : OrphanMaps), Indexed pool →
      Indexed (limitFrom nMaxOrphans randomHash fuel nEvicted pool).2 := by
    intro fuel
    induction fuel with
    | zero => exact fun _ _ indexed => indexed
    | succ fuel ih =>
      intro nEvicted pool indexed
      unfold limitFrom
      split
      · split
        · exact indexed
        · exact ih _ _ (eraseOrphanTx_indexed pool indexed _)
      · exact indexed
  exact loop pool.size 0 pool indexed

end Operations

section Limit

variable (pool : OrphanMaps)

theorem mem_keys (hash : Uint256) : hash ∈ pool.keys ↔ (pool.orphan hash).isSome = true := by
  unfold OrphanMaps.keys
  rw [mem_insertionSort, ← AList.mem_keys]
  exact AList.lookup_isSome.symm

theorem evictedOrphan_found (randomhash : Uint256) (some : 0 < pool.size) :
    ∃ hash, evictedOrphan pool randomhash = .some hash ∧ (pool.orphan hash).isSome = true := by
  unfold evictedOrphan
  cases above : pool.keys.find? fun hash => decide (notAbove randomhash hash) with
  | some hash => exact ⟨hash, rfl, (mem_keys pool hash).mp (mem_of_find?_eq_some above)⟩
  | none =>
    rw [Option.none_or]
    have length : pool.keys.length = pool.size := length_insertionSort _ _
    cases order : pool.keys with
    | nil =>
      rw [order] at length
      rw [← length] at some
      cases some
    | cons first rest =>
      refine ⟨first, rfl, (mem_keys pool first).mp ?_⟩
      rw [order]
      exact mem_cons_self

theorem eraseOrphanTx_size (hash : Uint256) (there : (pool.orphan hash).isSome = true) :
    (eraseOrphanTx pool hash).size + 1 = pool.size := by
  obtain ⟨entry, found⟩ := Option.isSome_iff_exists.mp there
  have key : hash ∈ pool.mapOrphanTransactions.keys :=
    AList.mem_keys.mp (AList.lookup_isSome.mp there)
  have positive : 0 < pool.mapOrphanTransactions.keys.length := length_pos_of_mem key
  unfold eraseOrphanTx
  rw [found]
  unfold OrphanMaps.size
  dsimp only
  rw [AList.keys_erase, length_erase_of_mem key]
  omega

theorem limitOrphanTxSize_size (nMaxOrphans : Nat) (randomHash : Nat → Uint256) :
    (limitOrphanTxSize pool nMaxOrphans randomHash).2.size ≤ nMaxOrphans := by
  have loop : ∀ (fuel nEvicted : Nat) (pool : OrphanMaps), pool.size ≤ fuel →
      (limitFrom nMaxOrphans randomHash fuel nEvicted pool).2.size ≤ nMaxOrphans := by
    intro fuel
    induction fuel with
    | zero =>
      intro nEvicted pool bound
      unfold limitFrom
      exact Nat.le_trans bound (Nat.zero_le _)
    | succ fuel ih =>
      intro nEvicted pool bound
      unfold limitFrom
      by_cases many : nMaxOrphans < pool.size
      · rw [if_pos many]
        rcases evictedOrphan_found pool (randomHash nEvicted) (by omega) with
          ⟨hash, evicted, there⟩
        have less := eraseOrphanTx_size pool hash there
        rw [evicted]
        exact ih _ _ (by omega)
      · rw [if_neg many]
        exact Nat.not_lt.mp many
  exact loop pool.size 0 pool (Nat.le_refl _)

end Limit

theorem orphanAt_pool (pool : OrphanMaps) (hash : Uint256)
    (there : (pool.orphan hash).isSome = true) : (orphanAt pool hash).2 = pool := by
  obtain ⟨entry, found⟩ := Option.isSome_iff_exists.mp there
  unfold orphanAt
  rw [found]

theorem answered_pool (state : Resolving) (orphanHash : Uint256) (orphan : COrphanTx)
    (answer : Acceptance) : (state.answered orphanHash orphan answer).pool = state.pool := by
  unfold Resolving.answered
  dsimp only
  split_ifs
  · rfl
  · rfl
  · split
    · rfl
    · split_ifs
      · rfl
      · rfl

theorem Indexed.children {pool : OrphanMaps} (indexed : Indexed pool) (hash : Uint256) :
    ∀ orphanHash ∈ members pool.mapOrphanTransactionsByPrev hash,
      (pool.orphan orphanHash).isSome = true := by
  intro orphanHash waits
  obtain ⟨entry, found, _⟩ := (indexed.inverse hash orphanHash).mp waits
  rw [found]
  rfl

theorem resolveChildren_pool (children : List Uint256) (answers rest : List Acceptance)
    (state next : Resolving)
    (there : ∀ orphanHash ∈ children, (state.pool.orphan orphanHash).isSome = true)
    (done : resolveChildren children answers state = some (rest, next)) :
    next.pool = state.pool := by
  induction children generalizing answers state with
  | nil =>
    cases done
    rfl
  | cons orphanHash others ih =>
    have same := orphanAt_pool state.pool orphanHash (there orphanHash mem_cons_self)
    have others : ∀ other ∈ others, (state.pool.orphan other).isSome = true :=
      fun other listed => there other (mem_cons_of_mem _ listed)
    unfold resolveChildren at done
    dsimp only at done
    rw [same] at done
    split at done
    · exact ih answers state others done
    · cases answers with
      | nil => cases done
      | cons answer later =>
        have kept := answered_pool state orphanHash (orphanAt state.pool orphanHash).1 answer
        have after := ih later _ (by rw [kept]; exact others) done
        rw [after, kept]

theorem resolveQueue_pool (answers : List Acceptance) (state resolved : Resolving)
    (indexed : Indexed state.pool) (done : resolveQueue answers state = some resolved) :
    resolved.pool = state.pool := by
  induction answers, state using resolveQueue.induct with
  | case1 answers state queue =>
    unfold resolveQueue at done
    split at done
    · cases done
      rfl
    · rename_i other rest nonempty
      rw [queue] at nonempty
      cases nonempty
  | case2 answers state hash others queue short =>
    unfold resolveQueue at done
    split at done
    · rename_i empty
      rw [queue] at empty
      cases empty
    · rename_i other rest nonempty
      rw [queue] at nonempty
      cases nonempty
      split at done
      · cases done
      · rename_i found
        rw [short] at found
        cases found
  | case3 answers state hash others queue rest next children ih =>
    have kept := resolveChildren_pool _ answers rest { state with vWorkQueue := others } next
      (indexed.children hash) children
    unfold resolveQueue at done
    split at done
    · rename_i empty
      rw [queue] at empty
      cases empty
    · rename_i other tail nonempty
      rw [queue] at nonempty
      cases nonempty
      split at done
      · cases done
      · rename_i later after found
        rw [children] at found
        cases found
        have last := ih (by rw [kept]; exact indexed) done
        rw [last, kept]

theorem resolveOrphans_indexed (pool last : OrphanMaps) (hash : Uint256)
    (answers : List Acceptance) (indexed : Indexed pool)
    (done : resolveOrphans pool hash answers = some last) : Indexed last := by
  unfold resolveOrphans at done
  obtain ⟨resolved, loop, erased⟩ := Option.map_eq_some_iff.mp done
  have same := resolveQueue_pool answers _ resolved indexed loop
  rw [← erased, same]
  exact eraseAll_indexed pool indexed resolved.vEraseQueue

theorem processTx_indexed (getSerializeSize : CTransaction → Nat) (pool last : OrphanMaps)
    (tx : CTransaction) (pfrom : NodeId) (nMaxOrphanTx : Nat) (randomHash : Nat → Uint256)
    (answers : List Acceptance) (indexed : Indexed pool)
    (done : processTx getSerializeSize pool tx pfrom nMaxOrphanTx randomHash answers = some last) :
    Indexed last := by
  cases answers with
  | nil => cases done
  | cons first answers =>
    unfold processTx at done
    dsimp only at done
    split_ifs at done
    · cases done
      exact indexed
    · exact resolveOrphans_indexed pool last tx.hash answers indexed done
    · cases done
      apply limitOrphanTxSize_indexed
      exact addOrphanTx_indexed getSerializeSize pool indexed tx pfrom
    · cases done
      exact indexed

theorem step_indexed (getSerializeSize : CTransaction → Nat) (pool next : OrphanMaps)
    (event : PoolEvent) (indexed : Indexed pool)
    (taken : step getSerializeSize pool event = some next) : Indexed next := by
  cases event with
  | add tx peer =>
    cases taken
    exact addOrphanTx_indexed getSerializeSize pool indexed tx peer
  | erase hash =>
    cases taken
    exact eraseOrphanTx_indexed pool indexed hash
  | eraseFor peer =>
    cases taken
    exact eraseOrphansFor_indexed pool indexed peer
  | limit nMaxOrphans randomHash =>
    cases taken
    exact limitOrphanTxSize_indexed pool indexed nMaxOrphans randomHash
  | tx tx pfrom nMaxOrphanTx randomHash answers =>
    exact processTx_indexed getSerializeSize pool next tx pfrom nMaxOrphanTx randomHash answers
      indexed taken

/-- From the empty pool on, the index has a hash under another one exactly if its orphan spends an
output of that transaction, no set is empty, and a limit is kept. -/
theorem orphan_index_is_inverse (getSerializeSize : CTransaction → Nat) (events : List PoolEvent)
    (last : OrphanMaps) (reached : run (step getSerializeSize) empty events = some last) :
    (∀ hash txid, txid ∈ members last.mapOrphanTransactionsByPrev hash ↔
        ∃ entry, last.orphan txid = some entry ∧
          ∃ txin ∈ entry.tx.vin, txin.prevout.hash = hash) ∧
      NoEmptySets last.mapOrphanTransactionsByPrev ∧
      ∀ nMaxOrphans randomHash,
        (limitOrphanTxSize last nMaxOrphans randomHash).2.size ≤ nMaxOrphans := by
  have indexed := invariant_of_run (step getSerializeSize) Indexed
    (fun pool event next holds taken => step_indexed getSerializeSize pool next event holds taken)
    empty last events indexed_empty reached
  refine ⟨?_, indexed.full, limitOrphanTxSize_size last⟩
  intro hash txid
  have inverse := indexed.inverse hash txid
  unfold prevHashes at inverse
  simpa only [mem_map] using inverse

def orphanOf (hash : Uint256) (parents : List Uint256) : CTransaction where
  hash := hash
  nVersion := 1
  vin := parents.map fun parent =>
    { prevout := { hash := parent, n := 0 }, scriptSig := [], nSequence := 0xffffffff }
  vout := [{ nValue := 1, scriptPubKey := [] }]
  nLockTime := 0

def acceptedAnswer : Acceptance := { accepted := true, fMissingInputs := false, nDoS := none }

def missingAnswer : Acceptance := { accepted := false, fMissingInputs := true, nDoS := none }

def invalidAnswer : Acceptance := { accepted := false, fMissingInputs := false, nDoS := some 10 }

/-- Two orphans wait for transaction 7, one of them twice, and two for the one accepted. The second
peer is caught with the first of these. -/
def resolvedOrphans : List PoolEvent :=
  [.tx (orphanOf 21 [7, 7, 8]) 1 100 (fun _ => 5) [missingAnswer],
    .add (orphanOf 22 [7]) 3, .add (orphanOf 23 [21]) 2, .add (orphanOf 24 [21]) 2,
    .tx (orphanOf 7 [1]) 4 100 (fun _ => 5)
      [acceptedAnswer, acceptedAnswer, missingAnswer, invalidAnswer]]

theorem resolved_orphans_stay_indexed :
    ∃ last, run (step fun _ => 200) empty resolvedOrphans = some last ∧
      members last.mapOrphanTransactionsByPrev 7 = [22] ∧
      ∀ txid, txid ∈ members last.mapOrphanTransactionsByPrev 7 ↔
        ∃ entry, last.orphan txid = some entry ∧ ∃ txin ∈ entry.tx.vin, txin.prevout.hash = 7 := by
  have succeeds : ((run (step fun _ => 200) empty resolvedOrphans).map fun last =>
      members last.mapOrphanTransactionsByPrev 7) = some [22] := by
    decide +kernel
  obtain ⟨last, reached, waiting⟩ := Option.map_eq_some_iff.mp succeeds
  exact ⟨last, reached, waiting, (orphan_index_is_inverse _ resolvedOrphans last reached).1 7⟩

end ZenonCore.OrphanIndex
