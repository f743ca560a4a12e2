import ZenonCore.Library.Closures
import ZenonCore.PoolInvariant
import ZenonCore.PoolIndex

/-!
# What a connected block takes out of the pool

The block's transactions leave alone, and what conflicts with one of them leaves with its
descendants.
-/

namespace ZenonCore.BlockRemoval

open Primitives ChainParams Coins Mempool List
open PoolIndex Library.Closures Library.Interference

def members (pool : CTxMemPool) : Set CTransaction := fun tx => tx ∈ pool.mapTx

def SharesInput (inBlock tx : CTransaction) : Prop :=
  ∃ own ∈ inBlock.vin, ∃ txin ∈ tx.vin, txin.prevout = own.prevout

def SpendsFrom (parent tx : CTransaction) : Prop :=
  ∃ i < parent.vout.length, ∃ txin ∈ tx.vin, txin.prevout = parent.outPoint i

def Conflicts (inBlock tx : CTransaction) : Prop :=
  tx.hasZerocoinSpendInputs = false ∧ SharesInput inBlock tx

/-- The index shows that the transaction descends from the parent. -/
def ChildOf (parent tx : CTransaction) : Prop :=
  tx.hasZerocoinSpendInputs = false ∧ SpendsFrom parent tx

instance (inBlock tx : CTransaction) : Decidable (SharesInput inBlock tx) :=
  inferInstanceAs (Decidable (∃ own ∈ inBlock.vin, ∃ txin ∈ tx.vin, txin.prevout = own.prevout))

instance (parent tx : CTransaction) : Decidable (SpendsFrom parent tx) :=
  inferInstanceAs
    (Decidable (∃ i < parent.vout.length, ∃ txin ∈ tx.vin, txin.prevout = parent.outPoint i))

instance (inBlock tx : CTransaction) : Decidable (Conflicts inBlock tx) :=
  inferInstanceAs (Decidable (_ ∧ SharesInput inBlock tx))

instance (parent tx : CTransaction) : Decidable (ChildOf parent tx) :=
  inferInstanceAs (Decidable (_ ∧ SpendsFrom parent tx))

def apart (txs : Set CTransaction) (vtx : List CTransaction) : Set CTransaction :=
  fun tx => tx ∈ txs ∧ ∀ inBlock ∈ vtx, tx.hash ≠ inBlock.hash

section Loop

variable {getTxSize : CTransaction → UInt64} {pool : SizedPool}

theorem members_eraseTx (indexed : Indexed getTxSize pool) (tx : CTransaction)
    (member : tx ∈ pool.mapTx) :
    members (pool.eraseTx getTxSize tx).toCTxMemPool = members pool.toCTxMemPool \ {tx} := by
  apply Set.ext
  intro other
  have erased := PoolInvariant.mem_eraseTx pool.toCTxMemPool tx other
  constructor
  · intro stays
    obtain ⟨isIn, differs⟩ := erased.mp stays
    exact ⟨isIn, fun same => differs (congrArg CTransaction.hash same)⟩
  · intro stays
    apply erased.mpr
    exact ⟨stays.1, fun same => stays.2 (indexed.by_hash other tx stays.1 member same)⟩

theorem mem_spenders_iff (indexed : Indexed getTxSize pool) (parent child : CTransaction)
    (isIn : child ∈ pool.mapTx) :
    child.hash ∈ pool.spenders parent ↔ ChildOf parent child := by
  constructor
  · intro listed
    obtain ⟨i, inRange, found⟩ := mem_filterMap.mp listed
    cases entry : pool.mapNextTx (parent.outPoint i) with
    | none =>
      rw [entry] at found
      cases found
    | some it =>
      rw [entry] at found
      obtain ⟨isMember, ordinary, last⟩ := (indexed.index _ it).mp entry
      have same := indexed.by_hash it.ptx child isMember isIn (Option.some.inj found)
      obtain ⟨txin, isInput, names⟩ := (lastInput_spec _ _ _ last).1
      rw [same] at ordinary isInput
      exact ⟨ordinary, i, mem_range.mp inRange, txin, mem_of_getElem? isInput, names⟩
  · intro childOf
    obtain ⟨ordinary, i, bound, txin, input, names⟩ := childOf
    obtain ⟨n, last⟩ := exists_lastInput child.vin txin input
    rw [names] at last
    have entry := (indexed.index (parent.outPoint i) { ptx := child, n := n }).mpr
      ⟨isIn, ordinary, last⟩
    apply mem_filterMap.mpr
    exact ⟨i, mem_range.mpr bound, by rw [entry]; rfl⟩

theorem removeLoop_drops (fuel : Nat) (pool : SizedPool) (txToRemove : List Uint256)
    (enough : pool.removeRounds txToRemove ≤ fuel) (indexed : Indexed getTxSize pool) :
    Drops ChildOf (members pool.toCTxMemPool)
      (members (SizedPool.removeLoop getTxSize true fuel pool txToRemove).toCTxMemPool)
      fun tx => tx.hash ∈ txToRemove := by
  induction fuel generalizing pool txToRemove with
  | zero =>
    have empty : txToRemove = [] := by
      simp only [CTxMemPool.removeRounds] at enough
      exact length_eq_zero_iff.mp (by omega)
    rw [empty]
    exact Drops.refl fun tx _ => not_mem_nil
  | succ fuel ih =>
    cases txToRemove with
    | nil => exact Drops.refl fun tx _ => not_mem_nil
    | cons hash txToRemove =>
      rw [SizedPool.removeLoop]
      cases found : pool.lookup hash with
      | none =>
        have fewer : pool.removeRounds txToRemove ≤ fuel := by
          simp only [CTxMemPool.removeRounds, length_cons] at enough ⊢
          omega
        apply (ih pool txToRemove fewer indexed).congr
        intro tx member
        have missed := (CTxMemPool.lookup_none pool.toCTxMemPool hash).mp found tx member
        rw [mem_cons]
        exact (or_iff_right missed).symm
      | some gone =>
        obtain ⟨isIn, goneHash⟩ := CTxMemPool.lookup_some pool.toCTxMemPool hash gone found
        have lowers :=
          PoolInvariant.removeRounds_lowers pool.toCTxMemPool hash txToRemove gone found
        have next := ih (pool.eraseTx getTxSize gone) (txToRemove ++ pool.spenders gone)
          (Nat.le_of_lt_succ (Nat.lt_of_lt_of_le lowers enough))
          (indexed.eraseTx gone isIn)
        rw [members_eraseTx indexed gone isIn] at next
        have popped : Drops ChildOf (members pool.toCTxMemPool \ {gone})
            (members (SizedPool.removeLoop getTxSize true fuel (pool.eraseTx getTxSize gone)
              (txToRemove ++ pool.spenders gone)).toCTxMemPool)
            fun tx => tx.hash ∈ hash :: txToRemove ∨ ChildOf gone tx := by
          apply next.congr
          intro tx stays
          have notGone : tx.hash ≠ hash := by
            intro same
            exact stays.2 (indexed.by_hash tx gone stays.1 isIn (same.trans goneHash.symm))
          rw [mem_append, mem_cons, mem_spenders_iff indexed gone tx stays.1,
            or_iff_right notGone]
        exact Drops.pop gone isIn (mem_cons.mpr (Or.inl goneHash)) popped

theorem remove_drops (indexed : Indexed getTxSize pool) (origTx : CTransaction)
    (isIn : origTx ∈ pool.mapTx) :
    Drops ChildOf (members pool.toCTxMemPool)
      (members (pool.remove getTxSize origTx true).toCTxMemPool) fun tx => tx = origTx := by
  have contained : pool.contains origTx.hash = true := by
    unfold CTxMemPool.contains
    cases found : pool.lookup origTx.hash with
    | some tx => rfl
    | none =>
      exact absurd rfl
        ((CTxMemPool.lookup_none pool.toCTxMemPool origTx.hash).mp found origTx isIn)
  have queue : pool.remove getTxSize origTx true =
      SizedPool.removeLoop getTxSize true (pool.removeRounds [origTx.hash]) pool
        [origTx.hash] := by
    simp [SizedPool.remove, contained]
  rw [queue]
  apply (removeLoop_drops _ pool [origTx.hash] (Nat.le_refl _) indexed).congr
  intro tx member
  rw [mem_singleton]
  constructor
  · exact indexed.by_hash tx origTx member isIn
  · exact congrArg CTransaction.hash

theorem members_remove_alone (getTxSize : CTransaction → UInt64) (pool : SizedPool)
    (origTx : CTransaction) :
    members (pool.remove getTxSize origTx false).toCTxMemPool =
      apart (members pool.toCTxMemPool) [origTx] := by
  have rounds : pool.removeRounds [origTx.hash] =
      (pool.mapTx.map fun tx => tx.vout.length).sum + 1 := by
    simp [CTxMemPool.removeRounds, Nat.add_comm]
  have ended : ∀ fuel (pool : SizedPool),
      SizedPool.removeLoop getTxSize false fuel pool [] = pool := by
    intro fuel pool
    cases fuel <;> rfl
  have kept : ∀ tx, tx ∈ (pool.remove getTxSize origTx false).mapTx ↔
      tx ∈ pool.mapTx ∧ tx.hash ≠ origTx.hash := by
    intro tx
    simp only [SizedPool.remove, Bool.false_and, Bool.false_eq_true, if_false, rounds,
      SizedPool.removeLoop, append_nil]
    cases found : pool.lookup origTx.hash with
    | none =>
      have missed := (CTxMemPool.lookup_none pool.toCTxMemPool origTx.hash).mp found
      rw [ended]
      exact ⟨fun member => ⟨member, missed tx member⟩, fun both => both.1⟩
    | some gone =>
      dsimp only
      rw [ended, ← (CTxMemPool.lookup_some pool.toCTxMemPool origTx.hash gone found).2]
      exact PoolInvariant.mem_eraseTx pool.toCTxMemPool gone tx
  apply Set.ext
  intro tx
  apply (kept tx).trans
  constructor
  · intro both
    refine ⟨both.1, fun inBlock listed => ?_⟩
    rw [mem_singleton.mp listed]
    exact both.2
  · intro both
    exact ⟨both.1, both.2 origTx mem_cons_self⟩

/-- The input of a transaction that is not in the pool takes away whoever has
the same, with all descendants. -/
theorem removeConflict_drops (indexed : Indexed getTxSize pool) (tx : CTransaction)
    (absent : ∀ other ∈ pool.mapTx, other.hash ≠ tx.hash) (own : CTxIn) :
    Drops ChildOf (members pool.toCTxMemPool)
      (members (SizedPool.removeConflict getTxSize tx pool own).toCTxMemPool)
      fun other => other.hasZerocoinSpendInputs = false ∧
        ∃ txin ∈ other.vin, txin.prevout = own.prevout := by
  unfold SizedPool.removeConflict
  cases entry : pool.mapNextTx own.prevout with
  | none =>
    apply Drops.refl
    intro other member conflicts
    obtain ⟨ordinary, txin, input, names⟩ := conflicts
    obtain ⟨n, last⟩ := exists_lastInput other.vin txin input
    rw [names] at last
    rw [(indexed.index own.prevout { ptx := other, n := n }).mpr ⟨member, ordinary, last⟩] at entry
    cases entry
  | some it =>
    obtain ⟨isIn, ordinary, last⟩ := (indexed.index own.prevout it).mp entry
    obtain ⟨named, isNamed, names⟩ := (lastInput_spec _ _ _ last).1
    have conflicting : (it.ptx.hash != tx.hash) = true := bne_iff_ne.mpr (absent it.ptx isIn)
    dsimp only
    rw [if_pos conflicting]
    apply (remove_drops indexed it.ptx isIn).congr
    intro other member
    constructor
    · intro same
      rw [same]
      exact ⟨ordinary, named, mem_of_getElem? isNamed, names⟩
    · intro conflicts
      obtain ⟨_, txin, input, same⟩ := conflicts
      by_contra differs
      have hashes : other.hash ≠ it.ptx.hash :=
        fun equal => differs (indexed.by_hash other it.ptx member isIn equal)
      exact indexed.apart it.ptx isIn ordinary other member hashes named
        (mem_of_getElem? isNamed) txin input (same.trans names.symm)

theorem removeConflicts_drops (indexed : Indexed getTxSize pool) (tx : CTransaction)
    (absent : ∀ other ∈ pool.mapTx, other.hash ≠ tx.hash) :
    Drops ChildOf (members pool.toCTxMemPool)
      (members (pool.removeConflicts getTxSize tx).toCTxMemPool) (Conflicts tx) := by
  have loop : ∀ (vin : List CTxIn) (pool : SizedPool), Indexed getTxSize pool →
      (∀ other ∈ pool.mapTx, other.hash ≠ tx.hash) →
      Drops ChildOf (members pool.toCTxMemPool)
        (members (vin.foldl (SizedPool.removeConflict getTxSize tx) pool).toCTxMemPool)
        fun other => other.hasZerocoinSpendInputs = false ∧
          ∃ own ∈ vin, ∃ txin ∈ other.vin, txin.prevout = own.prevout := by
    intro vin
    induction vin with
    | nil =>
      intro pool _ _
      apply Drops.refl
      intro other _ conflicts
      obtain ⟨_, own, listed, _⟩ := conflicts
      exact absurd listed not_mem_nil
    | cons own rest ih =>
      intro pool indexed absent
      have first := removeConflict_drops indexed tx absent own
      have later := ih (SizedPool.removeConflict getTxSize tx pool own)
        (indexed.erases (SizedPool.removeConflict_erases getTxSize tx pool own))
        (fun other member => absent other (first.subset member))
      apply (first.trans later).congr
      intro other _
      simp only [mem_cons, exists_eq_or_imp]
      exact and_or_left.symm
  exact loop tx.vin pool indexed absent

end Loop

section Blocks

/-- A transaction leaves with one that conflicts with the block, over transactions before it in
neither. -/
def LeavesWith (txs : Set CTransaction) (vtx : List CTransaction) (tx : CTransaction) : Prop :=
  ∃ before inBlock after, vtx = before ++ inBlock :: after ∧
    ∃ conflict ∈ apart txs (before ++ [inBlock]), Conflicts inBlock conflict ∧
      Walks ChildOf (apart txs (before ++ [inBlock])) conflict tx

/-- A transaction of the pool conflicts with the block or descends from one that does. -/
def Affected (txs : Set CTransaction) (vtx : List CTransaction) (tx : CTransaction) : Prop :=
  ∃ conflict ∈ txs, (∃ inBlock ∈ vtx, conflict.hash ≠ inBlock.hash ∧ Conflicts inBlock conflict) ∧
    Walks ChildOf txs conflict tx

variable (txs : Set CTransaction)

variable (first : CTransaction) (rest : List CTransaction)

theorem apart_cons :
    apart txs (first :: rest) = apart (apart txs [first]) rest := by
  apply Set.ext
  intro tx
  constructor
  · intro both
    obtain ⟨notFirst, notRest⟩ := forall_mem_cons.mp both.2
    exact ⟨⟨both.1, forall_mem_singleton.mpr notFirst⟩, notRest⟩
  · intro both
    exact ⟨both.1.1, forall_mem_cons.mpr ⟨both.1.2 first mem_cons_self, both.2⟩⟩

theorem apart_subset (vtx : List CTransaction) : apart txs vtx ⊆ txs :=
  fun _ both => both.1

theorem apart_mono {txs wider : Set CTransaction} (subset : txs ⊆ wider)
    (vtx : List CTransaction) : apart txs vtx ⊆ apart wider vtx :=
  fun _ both => ⟨subset both.1, both.2⟩

/-- What leaves with a block leaves with its first transaction or, that being
gone, with the rest. -/
theorem leavesWith_cons (tx : CTransaction) :
    LeavesWith txs (first :: rest) tx ↔
      (∃ conflict ∈ apart txs [first], Conflicts first conflict ∧
        Walks ChildOf (apart txs [first]) conflict tx) ∨
      LeavesWith (apart txs [first]) rest tx := by
  constructor
  · intro leaves
    obtain ⟨before, inBlock, after, split, reached⟩ := leaves
    cases before with
    | nil =>
      obtain ⟨isFirst, _⟩ := cons.inj split
      rw [isFirst]
      exact Or.inl reached
    | cons head before =>
      obtain ⟨isFirst, isRest⟩ := cons.inj split
      rw [cons_append, apart_cons, ← isFirst] at reached
      exact Or.inr ⟨before, inBlock, after, isRest, reached⟩
  · intro either
    obtain reached | ⟨before, inBlock, after, split, reached⟩ := either
    · exact ⟨[], first, rest, rfl, reached⟩
    · rw [← apart_cons] at reached
      exact ⟨first :: before, inBlock, after, by rw [split, cons_append], reached⟩

theorem leavesWith_left {inside left : Set CTransaction} {starts : CTransaction → Prop}
    (drops : Drops ChildOf inside left starts) (vtx : List CTransaction) (tx : CTransaction)
    (isLeft : tx ∈ left) : LeavesWith inside vtx tx ↔ LeavesWith left vtx tx := by
  constructor
  · intro leaves
    obtain ⟨before, inBlock, after, split, conflict, isIn, conflicts, walk⟩ := leaves
    have closed : ∀ source ∈ inside \ left, ∀ target ∈ apart inside (before ++ [inBlock]),
        ChildOf source target → target ∈ inside \ left := by
      intro source gone target targetIn follow
      exact drops.closed source gone target targetIn.1 follow
    rcases walks_avoid (inside \ left) closed conflict tx (fun gone => gone.2 isLeft) walk with
      ⟨kept, rest⟩
    have remaining : apart inside (before ++ [inBlock]) \ (inside \ left) ⊆
        apart left (before ++ [inBlock]) := by
      intro member stays
      refine ⟨?_, stays.1.2⟩
      by_contra gone
      exact stays.2 ⟨stays.1.1, gone⟩
    exact ⟨before, inBlock, after, split, conflict, remaining ⟨isIn, kept⟩, conflicts,
      walks_mono remaining rest⟩
  · intro leaves
    obtain ⟨before, inBlock, after, split, conflict, isIn, conflicts, walk⟩ := leaves
    have wider := apart_mono drops.subset (before ++ [inBlock])
    exact ⟨before, inBlock, after, split, conflict, wider isIn, conflicts, walks_mono wider walk⟩

/-- One transaction after the other: what is left is neither of the block nor
leaves with it. -/
theorem mem_removeForBlock (getTxSize : CTransaction → UInt64) (pool : SizedPool)
    (indexed : Indexed getTxSize pool) (vtx : List CTransaction) (tx : CTransaction) :
    tx ∈ (pool.removeForBlock getTxSize vtx).mapTx ↔
      tx ∈ apart (members pool.toCTxMemPool) vtx ∧
        ¬ LeavesWith (members pool.toCTxMemPool) vtx tx := by
  unfold SizedPool.removeForBlock
  induction vtx generalizing pool with
  | nil =>
    constructor
    · intro member
      refine ⟨⟨member, fun inBlock listed => absurd listed not_mem_nil⟩, ?_⟩
      intro leaves
      obtain ⟨before, inBlock, after, split, _⟩ := leaves
      cases before <;> cases split
    · intro both
      exact both.1.1
  | cons first rest ih =>
    have alone := members_remove_alone getTxSize pool first
    have indexedAlone := indexed.erases (SizedPool.remove_erases getTxSize pool first false)
    have absent : ∀ other ∈ (pool.remove getTxSize first false).mapTx,
        other.hash ≠ first.hash := by
      intro other member
      have isApart : other ∈ apart (members pool.toCTxMemPool) [first] := alone ▸ member
      exact isApart.2 first mem_cons_self
    have drops := removeConflicts_drops indexedAlone first absent
    have later := ih ((pool.remove getTxSize first false).removeConflicts getTxSize first)
      (indexedAlone.erases (SizedPool.removeConflicts_erases getTxSize _ first))
    rw [alone] at drops
    rw [foldl_cons, later, leavesWith_cons, apart_cons]
    constructor
    · intro both
      obtain ⟨⟨stays, notRest⟩, notLater⟩ := both
      refine ⟨⟨drops.subset stays, notRest⟩, ?_⟩
      intro either
      obtain reached | leaves := either
      · exact (drops.dropped tx (drops.subset stays)).mpr reached stays
      · exact notLater ((leavesWith_left drops rest tx stays).mp leaves)
    · intro both
      obtain ⟨⟨isIn, notRest⟩, neither⟩ := both
      have stays : tx ∈ members
          ((pool.remove getTxSize first false).removeConflicts getTxSize first).toCTxMemPool := by
        by_contra gone
        exact neither (Or.inl ((drops.dropped tx isIn).mp gone))
      refine ⟨⟨stays, notRest⟩, fun leaves => ?_⟩
      exact neither (Or.inr ((leavesWith_left drops rest tx stays).mpr leaves))

theorem leavesWith_of_affected (vtx : List CTransaction)
    (unaffected : ∀ tx ∈ txs, (∃ inBlock ∈ vtx, tx.hash = inBlock.hash) → ¬ Affected txs vtx tx)
    (tx : CTransaction) : LeavesWith txs vtx tx ↔ Affected txs vtx tx := by
  constructor
  · intro leaves
    obtain ⟨before, inBlock, after, split, conflict, isIn, conflicts, walk⟩ := leaves
    have listed : inBlock ∈ vtx := by
      rw [split]
      exact mem_append_right _ mem_cons_self
    have differs := isIn.2 inBlock (mem_append_right _ mem_cons_self)
    exact ⟨conflict, isIn.1, ⟨inBlock, listed, differs, conflicts⟩,
      walks_mono (apart_subset txs _) walk⟩
  · intro affected
    obtain ⟨conflict, isIn, ⟨inBlock, listed, differs, conflicts⟩, walk⟩ := affected
    obtain ⟨before, after, split⟩ := append_of_mem listed
    have ofBlock : ∀ other ∈ before ++ [inBlock], other ∈ vtx := by
      intro other member
      rw [split]
      obtain early | own := mem_append.mp member
      · exact mem_append_left _ early
      · rw [mem_singleton.mp own]
        exact mem_append_right _ mem_cons_self
    have isApart : ∀ other ∈ txs, Affected txs vtx other →
        other ∈ apart txs (before ++ [inBlock]) := by
      intro other otherIn otherAffected
      refine ⟨otherIn, fun done member same => ?_⟩
      exact unaffected other otherIn ⟨done, ofBlock done member, same⟩ otherAffected
    have whole : Walks ChildOf (apart txs (before ++ [inBlock])) conflict tx := by
      induction walk with
      | refl => exact .refl
      | @tail source target toSource last ih =>
        have affected : Affected txs vtx target :=
          ⟨conflict, isIn, ⟨inBlock, listed, differs, conflicts⟩, toSource.tail last⟩
        exact ih.tail ⟨last.1, isApart target last.2 affected⟩
    exact ⟨before, inBlock, after, split, conflict,
      isApart conflict isIn ⟨conflict, isIn, ⟨inBlock, listed, differs, conflicts⟩, .refl⟩,
      conflicts, whole⟩

end Blocks

/-- The pool before and after a block, if every transaction were indexed and whatever leaves took
its descendants along. -/
structure ExactRemoval (pool after : CTxMemPool) (vtx : List CTransaction) : Prop where
  absent : ∀ tx ∈ after.mapTx, ∀ inBlock ∈ vtx, tx.hash ≠ inBlock.hash
  unspent : ∀ tx ∈ after.mapTx, ∀ inBlock ∈ vtx, ¬ SharesInput inBlock tx
  removed : ∀ tx ∈ apart (members pool) vtx, tx ∉ after.mapTx ↔
    ∃ conflict ∈ members pool,
      (∃ inBlock ∈ vtx, conflict.hash ≠ inBlock.hash ∧ SharesInput inBlock conflict) ∧
        Walks SpendsFrom (members pool) conflict tx

structure TakenByBlock (pool after : CTxMemPool) (vtx : List CTransaction) : Prop where
  absent : ∀ tx ∈ after.mapTx, ∀ inBlock ∈ vtx, tx.hash ≠ inBlock.hash
  unspent : ∀ tx ∈ after.mapTx, tx.hasZerocoinSpendInputs = false → ∀ inBlock ∈ vtx,
    ¬ SharesInput inBlock tx
  nothingNew : after.mapTx ⊆ pool.mapTx
  removed : ∀ tx ∈ apart (members pool) vtx,
    tx ∉ after.mapTx ↔ LeavesWith (members pool) vtx tx
  descendants : (∀ tx ∈ members pool, (∃ inBlock ∈ vtx, tx.hash = inBlock.hash) →
      ¬ Affected (members pool) vtx tx) →
    ∀ tx ∈ apart (members pool) vtx, tx ∉ after.mapTx ↔ Affected (members pool) vtx tx

/-- No transaction of the block stays, nor any without zerocoin inputs that spends what the block
spends; the others that leave are those that conflict, with their descendants. -/
theorem block_removal_is_exact (getTxSize : CTransaction → UInt64) (pool : SizedPool)
    (indexed : Indexed getTxSize pool) (vtx : List CTransaction) :
    TakenByBlock pool.toCTxMemPool (pool.removeForBlock getTxSize vtx).toCTxMemPool vtx := by
  have law := mem_removeForBlock getTxSize pool indexed vtx
  have removed : ∀ tx ∈ apart (members pool.toCTxMemPool) vtx,
      tx ∉ (pool.removeForBlock getTxSize vtx).mapTx ↔
        LeavesWith (members pool.toCTxMemPool) vtx tx := by
    intro tx isApart
    rw [law tx, not_and_not_right]
    exact ⟨fun leaves => leaves isApart, fun leaves _ => leaves⟩
  constructor
  · intro tx stays
    exact ((law tx).mp stays).1.2
  · intro tx stays ordinary inBlock listed shares
    obtain ⟨⟨isIn, differs⟩, notLeaves⟩ := (law tx).mp stays
    obtain ⟨before, after, split⟩ := append_of_mem listed
    have isApart : tx ∈ apart (members pool.toCTxMemPool) (before ++ [inBlock]) := by
      refine ⟨isIn, fun other member => ?_⟩
      apply differs other
      rw [split]
      obtain early | own := mem_append.mp member
      · exact mem_append_left _ early
      · rw [mem_singleton.mp own]
        exact mem_append_right _ mem_cons_self
    exact notLeaves ⟨before, inBlock, after, split, tx, isApart, ⟨ordinary, shares⟩, .refl⟩
  · intro tx stays
    exact ((law tx).mp stays).1.1
  · exact removed
  · intro unaffected tx isApart
    exact (removed tx isApart).trans (leavesWith_of_affected _ vtx unaffected tx)

def publicSpend (hash mint : Uint256) : CTransaction where
  hash := hash
  nVersion := 1
  vin := [{ prevout := { hash := mint, n := 0 }, scriptSig := [Script.opZerocoinPublicSpend],
            nSequence := 1 }]
  vout := []
  nLockTime := 0

def filledPool (txs : List CTransaction) : SizedPool :=
  (txs.map Event.addUnchecked).foldl (step hundredBytes mainParams) .empty

theorem filledPool_indexed (txs : List CTransaction)
    (admissible : Guarded (step hundredBytes mainParams) (fun _ _ => ())
      (fun _ pool event => Admissible pool event) () .empty (txs.map Event.addUnchecked)) :
    Indexed hundredBytes (filledPool txs) :=
  invariant_of_guarded (step hundredBytes mainParams) (fun _ _ => ())
    (fun _ pool event => Admissible pool event) (fun _ pool => Indexed hundredBytes pool)
    (fun _ _ event indexed admissible => step_indexed event indexed admissible)
    () .empty _ (indexed_empty hundredBytes) admissible

/-- A payment, one of the block that spends it, and one that spends that. -/
def paymentChain : List CTransaction :=
  [ordinaryPayment 41 40, ordinaryPayment 42 41, ordinaryPayment 43 42]

theorem paymentChain_indexed : Indexed hundredBytes (filledPool paymentChain) := by
  apply filledPool_indexed
  decide +kernel

/-- A public spend stays although the block spends its mint, and so does a descendant behind a
transaction that the block takes first. -/
theorem removal_is_not_exact :
    (¬ ∀ (getTxSize : CTransaction → UInt64) (pool : SizedPool) (vtx : List CTransaction),
      Indexed getTxSize pool → ∀ tx ∈ (pool.removeForBlock getTxSize vtx).mapTx,
        ∀ inBlock ∈ vtx, ¬ SharesInput inBlock tx) ∧
    ¬ ∀ (getTxSize : CTransaction → UInt64) (pool : SizedPool) (vtx : List CTransaction),
      Indexed getTxSize pool → (∀ tx ∈ pool.mapTx, tx.hasZerocoinSpendInputs = false) →
      (∀ tx ∈ vtx, tx.hasZerocoinSpendInputs = false) →
      ExactRemoval pool.toCTxMemPool (pool.removeForBlock getTxSize vtx).toCTxMemPool vtx := by
  constructor
  · intro unspent
    have indexed : Indexed hundredBytes (filledPool [publicSpend 51 50]) := by
      apply filledPool_indexed
      decide +kernel
    have fails : ∃ tx ∈ ((filledPool [publicSpend 51 50]).removeForBlock hundredBytes
        [publicSpend 52 50]).mapTx, ∃ inBlock ∈ [publicSpend 52 50], SharesInput inBlock tx := by
      decide +kernel
    obtain ⟨tx, stays, inBlock, listed, shares⟩ := fails
    exact unspent hundredBytes _ _ indexed tx stays inBlock listed shares
  · intro exact
    have removal := exact hundredBytes (filledPool paymentChain)
      [ordinaryPayment 42 41, ordinaryPayment 44 40] paymentChain_indexed
      (by decide +kernel) (by decide +kernel)
    have isIn : ordinaryPayment 41 40 ∈ (filledPool paymentChain).mapTx := by decide +kernel
    have nextIn : ordinaryPayment 42 41 ∈ (filledPool paymentChain).mapTx := by decide +kernel
    have lastIn : ordinaryPayment 43 42 ∈ (filledPool paymentChain).mapTx := by decide +kernel
    have walk : Walks SpendsFrom (members (filledPool paymentChain).toCTxMemPool)
        (ordinaryPayment 41 40) (ordinaryPayment 43 42) :=
      (Relation.ReflTransGen.refl.tail ⟨by decide +kernel, nextIn⟩).tail
        ⟨by decide +kernel, lastIn⟩
    have gone := (removal.removed (ordinaryPayment 43 42) ⟨lastIn, by decide +kernel⟩).mpr
      ⟨ordinaryPayment 41 40, isIn,
        ⟨ordinaryPayment 44 40, by decide +kernel, by decide +kernel, by decide +kernel⟩, walk⟩
    have stays : ordinaryPayment 43 42 ∈ ((filledPool paymentChain).removeForBlock hundredBytes
        [ordinaryPayment 42 41, ordinaryPayment 44 40]).mapTx := by
      decide +kernel
    exact gone stays

/-- The block spends what the first of the chain spends, and takes the whole
chain away. -/
theorem chain_leaves_with_block :
    ordinaryPayment 43 42 ∉
      ((filledPool paymentChain).removeForBlock hundredBytes [ordinaryPayment 44 40]).mapTx := by
  have removal := block_removal_is_exact hundredBytes (filledPool paymentChain)
    paymentChain_indexed [ordinaryPayment 44 40]
  have isIn : ordinaryPayment 41 40 ∈ (filledPool paymentChain).mapTx := by decide +kernel
  have nextIn : ordinaryPayment 42 41 ∈ (filledPool paymentChain).mapTx := by decide +kernel
  have lastIn : ordinaryPayment 43 42 ∈ (filledPool paymentChain).mapTx := by decide +kernel
  have walk : Walks ChildOf
      (apart (members (filledPool paymentChain).toCTxMemPool) [ordinaryPayment 44 40])
      (ordinaryPayment 41 40) (ordinaryPayment 43 42) :=
    (Relation.ReflTransGen.refl.tail ⟨by decide +kernel, nextIn, by decide +kernel⟩).tail
      ⟨by decide +kernel, lastIn, by decide +kernel⟩
  apply (removal.removed (ordinaryPayment 43 42) ⟨lastIn, by decide +kernel⟩).mpr
  exact ⟨[], ordinaryPayment 44 40, [], rfl, ordinaryPayment 41 40, ⟨isIn, by decide +kernel⟩,
    by decide +kernel, walk⟩

end ZenonCore.BlockRemoval
