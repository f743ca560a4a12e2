import Mathlib.Algebra.Order.BigOperators.Group.List
import Mathlib.Algebra.Order.Group.Nat
import ZenonCore.Mempool
import ZenonCore.UnspentOutputs

/-!
# What the memory pool keeps

Every ordinary input is indexed and has a source, an output of the pool or one from outside.
-/

namespace ZenonCore.PoolInvariant

open Primitives ChainParams Coins Mempool List
open UnspentOutputs

/-- The transactions that occur have different hashes, none of them null. -/
structure HashesDistinct (known : Set CTransaction) : Prop where
  injective : Set.InjOn CTransaction.hash known
  nonzero : ∀ tx ∈ known, tx.hash ≠ 0

def Spendable (known : Set CTransaction) (outpoint : COutPoint) : Prop :=
  ∃ tx ∈ known, makes tx outpoint = true

/-- An outpoint that a zerocoin input can have: none, or that of a mint. -/
def Minted (known : Set CTransaction) (outpoint : COutPoint) : Prop :=
  outpoint.hash = 0 ∨ ∃ tx ∈ known, tx.hash = outpoint.hash ∧
    ∃ txout, tx.vout[outpoint.n.toNat]? = some txout ∧ txout.isZerocoinMint = true

/-- The pool by itself: the kinds of its transactions, and its index. -/
structure WellFormed (known : Set CTransaction) (pool : CTxMemPool) : Prop where
  isKnown : ∀ tx ∈ pool.mapTx, tx ∈ known
  notGenerated : ∀ tx ∈ pool.mapTx, tx.isCoinBase = false ∧ tx.isCoinStake = false
  zerocoin : ∀ tx ∈ pool.mapTx, tx.hasZerocoinSpendInputs = true → ∀ txin ∈ tx.vin,
    txin.spendsZerocoin = true ∧ Minted known txin.prevout
  ordinary : ∀ tx ∈ pool.mapTx, tx.hasZerocoinSpendInputs = false → ∀ txin ∈ tx.vin,
    Spendable known txin.prevout ∧ txin.prevout.hash ≠ tx.hash
  indexed : ∀ tx ∈ pool.mapTx, tx.hasZerocoinSpendInputs = false → ∀ txin ∈ tx.vin,
    ∃ n, pool.mapNextTx txin.prevout = some { ptx := tx, n := n }

def Backed (source : COutPoint → Prop) (pool : CTxMemPool) (outpoint : COutPoint) : Prop :=
  (∃ parent ∈ pool.mapTx, makes parent outpoint = true) ∨ source outpoint

def TxBacked (source : COutPoint → Prop) (pool : CTxMemPool) (tx : CTransaction) : Prop :=
  tx.hasZerocoinSpendInputs = false → ∀ txin ∈ tx.vin, Backed source pool txin.prevout

def AllBacked (source : COutPoint → Prop) (pool : CTxMemPool) : Prop :=
  ∀ tx ∈ pool.mapTx, TxBacked source pool tx

theorem spendable_not_minted (known : Set CTransaction) (hashes : HashesDistinct known)
    (outpoint : COutPoint) (spendable : Spendable known outpoint) : ¬ Minted known outpoint := by
  obtain ⟨tx, isKnown, made⟩ := spendable
  have hash := makes_hash tx outpoint made
  intro minted
  obtain null | ⟨other, otherKnown, otherHash, txout, found, mint⟩ := minted
  · exact hashes.nonzero tx isKnown (hash.trans null)
  · have same := hashes.injective otherKnown isKnown (otherHash.trans hash.symm)
    obtain ⟨available, listed, notMint⟩ := makes_output tx outpoint made
    rw [same, listed] at found
    rw [Option.some.inj found, mint] at notMint
    cases notMint

theorem Backed.mono {source wider : COutPoint → Prop} {pool : CTxMemPool} {outpoint : COutPoint}
    (implies : ∀ outpoint, source outpoint → wider outpoint)
    (backed : Backed source pool outpoint) : Backed wider pool outpoint :=
  backed.imp_right (implies outpoint)

theorem AllBacked.mono {source wider : COutPoint → Prop} {pool : CTxMemPool}
    (implies : ∀ outpoint, source outpoint → wider outpoint) (all : AllBacked source pool) :
    AllBacked wider pool :=
  fun tx member ordinary txin input => (all tx member ordinary txin input).mono implies

section Index

variable (known : Set CTransaction) (pool : CTxMemPool)

theorem WellFormed.unique {known : Set CTransaction} {pool : CTxMemPool}
    (wellFormed : WellFormed known pool) (tx other : CTransaction) (member : tx ∈ pool.mapTx)
    (otherMember : other ∈ pool.mapTx) (ordinary : tx.hasZerocoinSpendInputs = false)
    (otherOrdinary : other.hasZerocoinSpendInputs = false) (txin otherIn : CTxIn)
    (input : txin ∈ tx.vin) (otherInput : otherIn ∈ other.vin)
    (same : txin.prevout = otherIn.prevout) : tx = other := by
  obtain ⟨_, entry⟩ := wellFormed.indexed tx member ordinary txin input
  obtain ⟨_, otherEntry⟩ := wellFormed.indexed other otherMember otherOrdinary otherIn otherInput
  rw [same, otherEntry] at entry
  exact (CInPoint.mk.inj (Option.some.inj entry)).1.symm

theorem WellFormed.by_hash {known : Set CTransaction} {pool : CTxMemPool}
    (wellFormed : WellFormed known pool) (hashes : HashesDistinct known) (tx other : CTransaction)
    (member : tx ∈ pool.mapTx) (isKnown : other ∈ known) (same : tx.hash = other.hash) :
    tx = other :=
  hashes.injective (wellFormed.isKnown tx member) isKnown same

theorem registerInputs_entry (tx : CTransaction) (n : Nat) (vin : List CTxIn)
    (mapNextTx : COutPoint → Option CInPoint) (outpoint : COutPoint) :
    (∃ own ∈ vin, own.prevout = outpoint ∧ ∃ k,
      CTxMemPool.registerInputs tx n vin mapNextTx outpoint = some { ptx := tx, n := k }) ∨
    (∀ txin ∈ vin, txin.prevout ≠ outpoint) ∧
      CTxMemPool.registerInputs tx n vin mapNextTx outpoint = mapNextTx outpoint := by
  induction vin generalizing n mapNextTx with
  | nil => exact Or.inr ⟨fun txin member => absurd member not_mem_nil, rfl⟩
  | cons first rest ih =>
    rw [CTxMemPool.registerInputs]
    rcases ih (n + 1) fun other =>
        if other = first.prevout then some { ptx := tx, n := n } else mapNextTx other with
      ⟨own, member, here⟩ | ⟨others, entry⟩
    · exact Or.inl ⟨own, mem_cons_of_mem _ member, here⟩
    · by_cases same : outpoint = first.prevout
      · left
        exact ⟨first, mem_cons_self, same.symm, n, by rw [entry, if_pos same]⟩
      · right
        exact ⟨forall_mem_cons.mpr ⟨Ne.symm same, others⟩, by rw [entry, if_neg same]⟩

structure Enters (tx : CTransaction) : Prop where
  isKnown : tx ∈ known
  notGenerated : tx.isCoinBase = false ∧ tx.isCoinStake = false
  absent : ∀ other ∈ pool.mapTx, other.hash ≠ tx.hash
  zerocoin : tx.hasZerocoinSpendInputs = true → ∀ txin ∈ tx.vin,
    txin.spendsZerocoin = true ∧ Minted known txin.prevout
  ordinary : tx.hasZerocoinSpendInputs = false → ∀ txin ∈ tx.vin,
    Spendable known txin.prevout ∧ txin.prevout.hash ≠ tx.hash ∧
      pool.mapNextTx txin.prevout = none

theorem mem_addUnchecked (tx other : CTransaction) :
    other ∈ (pool.addUnchecked tx).mapTx ↔
      (other ∈ pool.mapTx ∧ other.hash ≠ tx.hash) ∨ other = tx := by
  simp [CTxMemPool.addUnchecked]

theorem addUnchecked_wellFormed (wellFormed : WellFormed known pool) (tx : CTransaction)
    (enters : Enters known pool tx) : WellFormed known (pool.addUnchecked tx) := by
  have members := fun other => (mem_addUnchecked pool tx other).mp
  have indexed : ∀ other ∈ (pool.addUnchecked tx).mapTx, other.hasZerocoinSpendInputs = false →
      ∀ txin ∈ other.vin, ∃ n,
        (pool.addUnchecked tx).mapNextTx txin.prevout = some { ptx := other, n := n } := by
    intro other member ordinary txin input
    have index : (pool.addUnchecked tx).mapNextTx =
        if tx.hasZerocoinSpendInputs then pool.mapNextTx
        else CTxMemPool.registerInputs tx 0 tx.vin pool.mapNextTx := rfl
    rw [index]
    obtain ⟨old, _⟩ | new := members other member
    · obtain ⟨n, entry⟩ := wellFormed.indexed other old ordinary txin input
      split_ifs with zerocoin
      · exact ⟨n, entry⟩
      · rcases registerInputs_entry tx 0 tx.vin pool.mapNextTx txin.prevout with
          ⟨own, inVin, same, _⟩ | ⟨_, kept⟩
        · have fresh := (enters.ordinary (by simpa using zerocoin) own inVin).2.2
          rw [same, entry] at fresh
          cases fresh
        · exact ⟨n, kept.trans entry⟩
    · subst new
      rw [if_neg (by simp [ordinary])]
      rcases registerInputs_entry other 0 other.vin pool.mapNextTx txin.prevout with
        ⟨_, _, _, mine⟩ | ⟨others, _⟩
      · exact mine
      · exact absurd rfl (others txin input)
  exact
    { isKnown := by
        intro other member
        obtain ⟨old, _⟩ | new := members other member
        · exact wellFormed.isKnown other old
        · exact new ▸ enters.isKnown
      notGenerated := by
        intro other member
        obtain ⟨old, _⟩ | new := members other member
        · exact wellFormed.notGenerated other old
        · exact new ▸ enters.notGenerated
      zerocoin := by
        intro other member zerocoin
        obtain ⟨old, _⟩ | new := members other member
        · exact wellFormed.zerocoin other old zerocoin
        · subst new
          exact enters.zerocoin zerocoin
      ordinary := by
        intro other member ordinary txin input
        obtain ⟨old, _⟩ | new := members other member
        · exact wellFormed.ordinary other old ordinary txin input
        · subst new
          have fresh := enters.ordinary ordinary txin input
          exact ⟨fresh.1, fresh.2.1⟩
      indexed := indexed }

end Index

section Entering

variable (known : Set CTransaction) (source : COutPoint → Prop) (pool : CTxMemPool)

theorem Backed.addUnchecked {source : COutPoint → Prop} {pool : CTxMemPool} {outpoint : COutPoint}
    (backed : Backed source pool outpoint) (tx : CTransaction)
    (absent : ∀ other ∈ pool.mapTx, other.hash ≠ tx.hash) :
    Backed source (pool.addUnchecked tx) outpoint := by
  obtain ⟨parent, member, made⟩ | outside := backed
  · left
    exact ⟨parent, (mem_addUnchecked pool tx parent).mpr (Or.inl ⟨member, absent parent member⟩),
      made⟩
  · exact Or.inr outside

theorem addUnchecked_backed (tx : CTransaction)
    (absent : ∀ other ∈ pool.mapTx, other.hash ≠ tx.hash)
    (backed : AllBacked (fun outpoint => source outpoint ∨ makes tx outpoint = true) pool)
    (inputs : TxBacked source pool tx) : AllBacked source (pool.addUnchecked tx) := by
  intro other member ordinary txin input
  obtain ⟨old, _⟩ | new := (mem_addUnchecked pool tx other).mp member
  · obtain inside | outside | made := backed other old ordinary txin input
    · exact Backed.addUnchecked (Or.inl inside) tx absent
    · exact Or.inr outside
    · exact Or.inl ⟨tx, (mem_addUnchecked pool tx tx).mpr (Or.inr rfl), made⟩
  · subst new
    exact (inputs ordinary txin input).addUnchecked other absent

end Entering

section Removal

variable (known : Set CTransaction) (source : COutPoint → Prop) (pool : CTxMemPool)

theorem mem_eraseTx (tx other : CTransaction) :
    other ∈ (pool.eraseTx tx).mapTx ↔ other ∈ pool.mapTx ∧ other.hash ≠ tx.hash := by
  simp [CTxMemPool.eraseTx]

theorem eraseTx_wellFormed (hashes : HashesDistinct known) (wellFormed : WellFormed known pool)
    (tx : CTransaction) (member : tx ∈ pool.mapTx) : WellFormed known (pool.eraseTx tx) := by
  have members := fun other => (mem_eraseTx pool tx other).mp
  exact
    { isKnown := fun other kept => wellFormed.isKnown other (members other kept).1
      notGenerated := fun other kept => wellFormed.notGenerated other (members other kept).1
      zerocoin := fun other kept => wellFormed.zerocoin other (members other kept).1
      ordinary := fun other kept => wellFormed.ordinary other (members other kept).1
      indexed := by
        intro other kept ordinary txin input
        obtain ⟨old, different⟩ := members other kept
        obtain ⟨n, entry⟩ := wellFormed.indexed other old ordinary txin input
        refine ⟨n, ?_⟩
        have disjoint : ∀ own ∈ tx.vin, own.prevout ≠ txin.prevout := by
          intro own ownInput same
          cases zerocoin : tx.hasZerocoinSpendInputs with
          | false =>
            have equal := wellFormed.unique tx other member old zerocoin ordinary own txin
              ownInput input same
            exact different (congrArg CTransaction.hash equal.symm)
          | true =>
            have minted := (wellFormed.zerocoin tx member zerocoin own ownInput).2
            rw [same] at minted
            exact spendable_not_minted known hashes txin.prevout
              (wellFormed.ordinary other old ordinary txin input).1 minted
        simp only [CTxMemPool.eraseTx]
        rw [if_neg]
        · exact entry
        · simpa using disjoint }

theorem removeLoop_wellFormed (hashes : HashesDistinct known) (fRecursive : Bool) (fuel : Nat)
    (pool : CTxMemPool) (txToRemove : List Uint256) (wellFormed : WellFormed known pool) :
    WellFormed known (CTxMemPool.removeLoop fRecursive fuel pool txToRemove) := by
  induction fuel generalizing pool txToRemove with
  | zero => exact wellFormed
  | succ fuel ih =>
    cases txToRemove with
    | nil => exact wellFormed
    | cons hash txToRemove =>
      rw [CTxMemPool.removeLoop]
      cases found : pool.lookup hash with
      | none => exact ih pool txToRemove wellFormed
      | some tx =>
        apply ih
        exact eraseTx_wellFormed known pool hashes wellFormed tx
          (CTxMemPool.lookup_some pool hash tx found).1

theorem remove_wellFormed (hashes : HashesDistinct known) (wellFormed : WellFormed known pool)
    (origTx : CTransaction) (fRecursive : Bool) :
    WellFormed known (pool.remove origTx fRecursive) :=
  removeLoop_wellFormed known hashes fRecursive _ pool _ wellFormed

theorem mem_spenders (wellFormed : WellFormed known pool) (parent tx : CTransaction)
    (member : tx ∈ pool.mapTx) (ordinary : tx.hasZerocoinSpendInputs = false) (txin : CTxIn)
    (input : txin ∈ tx.vin) (made : makes parent txin.prevout = true) :
    tx.hash ∈ pool.spenders parent := by
  obtain ⟨n, entry⟩ := wellFormed.indexed tx member ordinary txin input
  obtain ⟨txout, listed, _⟩ := makes_output parent txin.prevout made
  have bound := (List.getElem?_eq_some_iff.mp listed).1
  have outPoint : parent.outPoint txin.prevout.n.toNat = txin.prevout := by
    have hash := makes_hash parent txin.prevout made
    simp [CTransaction.outPoint, hash]
  apply List.mem_filterMap.mpr
  exact ⟨txin.prevout.n.toNat, List.mem_range.mpr bound, by rw [outPoint, entry]; rfl⟩

theorem outputs_left (tx : CTransaction) (list : List CTransaction) (member : tx ∈ list) :
    ((list.filter fun other => other.hash != tx.hash).map fun other => other.vout.length).sum +
      tx.vout.length ≤ (list.map fun other => other.vout.length).sum := by
  obtain ⟨before, after, split⟩ := append_of_mem member
  have kept : (list.filter fun other => other.hash != tx.hash).Sublist (before ++ after) := by
    rw [split, filter_append, filter_cons_of_neg (by simp)]
    exact filter_sublist.append filter_sublist
  have smaller := (kept.map fun other => other.vout.length).sum_le_sum fun _ _ => Nat.zero_le _
  rw [map_append, sum_append] at smaller
  have whole : (list.map fun other => other.vout.length).sum =
      (before.map fun other => other.vout.length).sum +
        (tx.vout.length + (after.map fun other => other.vout.length).sum) := by
    rw [split, map_append, sum_append, map_cons, sum_cons]
  omega

theorem removeRounds_lowers (hash : Uint256) (txToRemove : List Uint256) (tx : CTransaction)
    (found : pool.lookup hash = some tx) :
    (pool.eraseTx tx).removeRounds (txToRemove ++ pool.spenders tx) <
      pool.removeRounds (hash :: txToRemove) := by
  have member := (CTxMemPool.lookup_some pool hash tx found).1
  have pushed : (pool.spenders tx).length ≤ tx.vout.length := by
    have bound := length_filterMap_le
      (fun i => (pool.mapNextTx (tx.outPoint i)).map fun it => it.ptx.hash)
      (range tx.vout.length)
    rwa [length_range] at bound
  have total := outputs_left tx pool.mapTx member
  simp only [CTxMemPool.removeRounds, CTxMemPool.eraseTx, length_append, length_cons]
  omega

/-- The recursive loop leaves no input without its output: a transaction that
lost one is in the queue until it is gone. -/
theorem removeLoop_backed (hashes : HashesDistinct known) (fuel : Nat) (pool : CTxMemPool)
    (txToRemove : List Uint256) (enough : pool.removeRounds txToRemove ≤ fuel)
    (wellFormed : WellFormed known pool)
    (pending : ∀ tx ∈ pool.mapTx, TxBacked source pool tx ∨ tx.hash ∈ txToRemove) :
    AllBacked source (CTxMemPool.removeLoop true fuel pool txToRemove) := by
  induction fuel generalizing pool txToRemove with
  | zero =>
    have empty : txToRemove = [] := by
      simp only [CTxMemPool.removeRounds] at enough
      exact length_eq_zero_iff.mp (by omega)
    intro tx member
    exact (pending tx member).resolve_right (by simp [empty])
  | succ fuel ih =>
    cases txToRemove with
    | nil =>
      intro tx member
      exact (pending tx member).resolve_right not_mem_nil
    | cons hash txToRemove =>
      rw [CTxMemPool.removeLoop]
      cases found : pool.lookup hash with
      | none =>
        apply ih pool txToRemove _ wellFormed
        · intro tx member
          apply (pending tx member).imp_right
          intro queued
          have missed := (CTxMemPool.lookup_none pool hash).mp found tx member
          exact (mem_cons.mp queued).resolve_left missed
        · simp only [CTxMemPool.removeRounds, length_cons] at enough ⊢
          omega
      | some gone =>
        obtain ⟨inPool, goneHash⟩ := CTxMemPool.lookup_some pool hash gone found
        apply ih
        · have lowers := removeRounds_lowers pool hash txToRemove gone found
          simp only [if_true]
          omega
        · exact eraseTx_wellFormed known pool hashes wellFormed gone inPool
        · intro tx member
          obtain ⟨old, different⟩ := (mem_eraseTx pool gone tx).mp member
          simp only [if_true]
          obtain backed | queued := pending tx old
          · by_cases spends : tx.hash ∈ pool.spenders gone
            · exact Or.inr (mem_append_right _ spends)
            · left
              intro ordinary txin input
              obtain ⟨parent, parentIn, made⟩ | outside := backed ordinary txin input
              · left
                refine ⟨parent, (mem_eraseTx pool gone parent).mpr ⟨parentIn, ?_⟩, made⟩
                intro same
                have isGone := wellFormed.by_hash hashes parent gone parentIn
                  (wellFormed.isKnown gone inPool) same
                rw [isGone] at made
                exact spends (mem_spenders known pool wellFormed gone tx old ordinary txin
                  input made)
              · exact Or.inr outside
          · right
            apply mem_append_left
            exact (mem_cons.mp queued).resolve_left fun same =>
              different (same.trans goneHash.symm)

theorem remove_recursive_backed (hashes : HashesDistinct known) (wellFormed : WellFormed known pool)
    (origTx : CTransaction) (backed : AllBacked source pool) :
    AllBacked source (pool.remove origTx true) := by
  apply removeLoop_backed known source hashes _ pool _ (Nat.le_refl _) wellFormed
  exact fun tx member => Or.inl (backed tx member)

theorem remove_recursive_source (hashes : HashesDistinct known)
    (wellFormed : WellFormed known pool) (origTx : CTransaction) (isKnown : origTx ∈ known)
    (backed : AllBacked (fun outpoint => source outpoint ∨ makes origTx outpoint = true) pool) :
    AllBacked source (pool.remove origTx true) := by
  by_cases contained : pool.contains origTx.hash = true
  · -- what it makes is a source from inside
    apply remove_recursive_backed known source pool hashes wellFormed origTx
    intro tx member ordinary txin input
    obtain inside | outside | made := backed tx member ordinary txin input
    · exact Or.inl inside
    · exact Or.inr outside
    · obtain ⟨found, entry⟩ := Option.isSome_iff_exists.mp contained
      obtain ⟨inPool, hash⟩ := CTxMemPool.lookup_some pool origTx.hash found entry
      have same := wellFormed.by_hash hashes found origTx inPool isKnown hash
      exact Or.inl ⟨found, inPool, by rw [same]; exact made⟩
  · have queue : pool.remove origTx true =
        CTxMemPool.removeLoop true (pool.removeRounds (origTx.hash :: pool.spenders origTx)) pool
          (origTx.hash :: pool.spenders origTx) := by
      simp [CTxMemPool.remove, contained]
    rw [queue]
    apply removeLoop_backed known source hashes _ pool _ (Nat.le_refl _) wellFormed
    intro tx member
    by_cases spends : tx.hash ∈ pool.spenders origTx
    · exact Or.inr (mem_cons_of_mem _ spends)
    · left
      intro ordinary txin input
      obtain inside | outside | made := backed tx member ordinary txin input
      · exact Or.inl inside
      · exact Or.inr outside
      · exact absurd (mem_spenders known pool wellFormed origTx tx member ordinary txin input made)
          spends

def Releases (tx : CTransaction) (outpoint : COutPoint) : Prop :=
  makes tx outpoint = true ∧ tx.isCoinBase = false ∧ tx.isCoinStake = false

theorem remove_alone_backed (hashes : HashesDistinct known) (wellFormed : WellFormed known pool)
    (origTx : CTransaction) (isKnown : origTx ∈ known) (backed : AllBacked source pool) :
    AllBacked (fun outpoint => source outpoint ∨ Releases origTx outpoint)
      (pool.remove origTx false) := by
  have rounds : pool.removeRounds [origTx.hash] =
      (pool.mapTx.map fun tx => tx.vout.length).sum + 1 := by
    simp [CTxMemPool.removeRounds, Nat.add_comm]
  have none : pool.lookup origTx.hash = none → pool.remove origTx false = pool := by
    intro missing
    simp only [CTxMemPool.remove, Bool.false_and, Bool.false_eq_true, if_false, rounds,
      CTxMemPool.removeLoop, missing]
    cases (pool.mapTx.map fun tx => tx.vout.length).sum <;> rfl
  have one : ∀ gone, pool.lookup origTx.hash = some gone →
      pool.remove origTx false = pool.eraseTx gone := by
    intro gone found
    simp only [CTxMemPool.remove, Bool.false_and, Bool.false_eq_true, if_false, rounds,
      CTxMemPool.removeLoop, found, append_nil]
    cases (pool.mapTx.map fun tx => tx.vout.length).sum <;> rfl
  cases found : pool.lookup origTx.hash with
  | none =>
    rw [none found]
    exact backed.mono fun outpoint outside => Or.inl outside
  | some gone =>
    rw [one gone found]
    obtain ⟨inPool, hash⟩ := CTxMemPool.lookup_some pool origTx.hash gone found
    have isOrig := wellFormed.by_hash hashes gone origTx inPool isKnown hash
    subst isOrig
    intro tx member ordinary txin input
    obtain ⟨old, _⟩ := (mem_eraseTx pool gone tx).mp member
    obtain ⟨parent, parentIn, made⟩ | outside := backed tx old ordinary txin input
    · by_cases same : parent.hash = gone.hash
      · have isGone := wellFormed.by_hash hashes parent gone parentIn isKnown same
        exact Or.inr (Or.inr ⟨isGone ▸ made, wellFormed.notGenerated gone inPool⟩)
      · exact Or.inl ⟨parent, (mem_eraseTx pool gone parent).mpr ⟨parentIn, same⟩, made⟩
    · exact Or.inr (Or.inl outside)

end Removal

section Conflicts

variable (known : Set CTransaction) (source : COutPoint → Prop) (pool : CTxMemPool)

structure Sound : Prop where
  wellFormed : WellFormed known pool
  backed : AllBacked source pool

/-- No ordinary transaction of the pool has the outpoint as an input. -/
def Untouched (outpoint : COutPoint) : Prop :=
  ∀ tx ∈ pool.mapTx, tx.hasZerocoinSpendInputs = false → ∀ txin ∈ tx.vin, txin.prevout ≠ outpoint

theorem Untouched.mono {pool smaller : CTxMemPool} {outpoint : COutPoint}
    (subset : smaller.mapTx ⊆ pool.mapTx) (untouched : Untouched pool outpoint) :
    Untouched smaller outpoint :=
  fun tx member => untouched tx (subset member)

theorem remove_recursive_sound (hashes : HashesDistinct known) (sound : Sound known source pool)
    (origTx : CTransaction) : Sound known source (pool.remove origTx true) :=
  { wellFormed := remove_wellFormed known pool hashes sound.wellFormed origTx true
    backed := remove_recursive_backed known source pool hashes sound.wellFormed origTx sound.backed }

theorem removeConflict_sound (hashes : HashesDistinct known) (sound : Sound known source pool)
    (tx : CTransaction) (absent : ∀ other ∈ pool.mapTx, other.hash ≠ tx.hash) (txin : CTxIn) :
    Sound known source (CTxMemPool.removeConflict tx pool txin) ∧
      Untouched (CTxMemPool.removeConflict tx pool txin) txin.prevout := by
  have indexed := sound.wellFormed.indexed
  unfold CTxMemPool.removeConflict
  cases entry : pool.mapNextTx txin.prevout with
  | none =>
    refine ⟨sound, fun other member ordinary otherIn input same => ?_⟩
    obtain ⟨n, found⟩ := indexed other member ordinary otherIn input
    rw [same, entry] at found
    cases found
  | some it =>
    have spender : ∀ other ∈ pool.mapTx, other.hasZerocoinSpendInputs = false →
        ∀ otherIn ∈ other.vin, otherIn.prevout = txin.prevout → other = it.ptx := by
      intro other member ordinary otherIn input same
      obtain ⟨n, found⟩ := indexed other member ordinary otherIn input
      rw [same, entry] at found
      exact (congrArg CInPoint.ptx (Option.some.inj found)).symm
    dsimp only
    split_ifs with conflicting
    · refine ⟨remove_recursive_sound known source pool hashes sound it.ptx, ?_⟩
      intro other member ordinary otherIn input same
      have old := CTxMemPool.remove_subset pool it.ptx true member
      have isSpender := spender other old ordinary otherIn input same
      exact CTxMemPool.remove_absent pool it.ptx true other member (by rw [isSpender])
    · refine ⟨sound, fun other member ordinary otherIn input same => ?_⟩
      have isSpender := spender other member ordinary otherIn input same
      have ownHash : it.ptx.hash = tx.hash := by simpa using conflicting
      exact absent other member (by rw [isSpender, ownHash])

theorem removeConflicts_sound (hashes : HashesDistinct known) (sound : Sound known source pool)
    (tx : CTransaction) (absent : ∀ other ∈ pool.mapTx, other.hash ≠ tx.hash) :
    Sound known source (pool.removeConflicts tx) ∧
      ∀ txin ∈ tx.vin, Untouched (pool.removeConflicts tx) txin.prevout := by
  have loop : ∀ (vin : List CTxIn) (pool : CTxMemPool), Sound known source pool →
      (∀ other ∈ pool.mapTx, other.hash ≠ tx.hash) →
      (vin.foldl (CTxMemPool.removeConflict tx) pool).mapTx ⊆ pool.mapTx ∧
      Sound known source (vin.foldl (CTxMemPool.removeConflict tx) pool) ∧
        ∀ txin ∈ vin, Untouched (vin.foldl (CTxMemPool.removeConflict tx) pool) txin.prevout := by
    intro vin
    induction vin with
    | nil =>
      intro pool sound _
      exact ⟨List.Subset.refl _, sound, fun txin member => absurd member not_mem_nil⟩
    | cons first rest ih =>
      intro pool sound absent
      rcases removeConflict_sound known source pool hashes sound tx absent first with
        ⟨next, untouched⟩
      have subset := CTxMemPool.removeConflict_subset tx pool first
      rcases ih _ next (fun other member => absent other (subset member)) with
        ⟨later, last, others⟩
      exact ⟨List.Subset.trans later subset, last,
        forall_mem_cons.mpr ⟨untouched.mono later, others⟩⟩
  exact (loop tx.vin pool sound absent).2

/-- A connected block: what it makes is a source from outside, and nobody in
the pool spends what it spends. -/
theorem removeForBlock_sound (hashes : HashesDistinct known) (vtx : List CTransaction)
    (areKnown : ∀ tx ∈ vtx, tx ∈ known) (sound : Sound known source pool) :
    Sound known (fun outpoint => source outpoint ∨ ∃ tx ∈ vtx, Releases tx outpoint)
        (pool.removeForBlock vtx) ∧
      ∀ tx ∈ vtx, ∀ txin ∈ tx.vin, Untouched (pool.removeForBlock vtx) txin.prevout := by
  unfold CTxMemPool.removeForBlock
  induction vtx generalizing source pool with
  | nil =>
    refine ⟨⟨sound.wellFormed, sound.backed.mono fun outpoint => Or.inl⟩, ?_⟩
    exact fun tx member => absurd member not_mem_nil
  | cons first rest ih =>
    obtain ⟨firstKnown, restKnown⟩ := forall_mem_cons.mp areKnown
    have alone : Sound known (fun outpoint => source outpoint ∨ Releases first outpoint)
        (pool.remove first false) :=
      { wellFormed := remove_wellFormed known pool hashes sound.wellFormed first false
        backed := remove_alone_backed known source pool hashes sound.wellFormed first firstKnown
          sound.backed }
    rcases removeConflicts_sound known _ _ hashes alone first
      (CTxMemPool.remove_absent pool first false) with ⟨next, untouched⟩
    obtain ⟨last, others⟩ := ih _ _ restKnown next
    refine ⟨⟨last.wellFormed, last.backed.mono ?_⟩, ?_⟩
    · rintro outpoint ((outside | made) | ⟨tx, member, made⟩)
      · exact Or.inl outside
      · exact Or.inr ⟨first, mem_cons_self, made⟩
      · exact Or.inr ⟨tx, mem_cons_of_mem _ member, made⟩
    · intro tx member txin input
      obtain here | later := mem_cons.mp member
      · subst here
        exact (untouched txin input).mono (CTxMemPool.removeForBlock_subset _ rest)
      · exact others tx later txin input

theorem removeCoinbaseSpends_sound (hashes : HashesDistinct known) (params : CChainParams)
    (pcoins : CCoinsView) (nMemPoolHeight : Int) (sound : Sound known source pool) :
    Sound known source (pool.removeCoinbaseSpends params pcoins nMemPoolHeight) ∧
      ∀ tx ∈ (pool.removeCoinbaseSpends params pcoins nMemPoolHeight).mapTx, ∀ txin ∈ tx.vin,
        pool.spendsImmature params pcoins nMemPoolHeight txin = false := by
  have loop : ∀ (list : List CTransaction) (pool : CTxMemPool), Sound known source pool →
      Sound known source (list.foldl (fun pool tx => pool.remove tx true) pool) ∧
      (list.foldl (fun pool tx => pool.remove tx true) pool).mapTx ⊆ pool.mapTx ∧
      ∀ gone ∈ list, ∀ tx ∈ (list.foldl (fun pool tx => pool.remove tx true) pool).mapTx,
        tx.hash ≠ gone.hash := by
    intro list
    induction list with
    | nil =>
      intro pool sound
      exact ⟨sound, List.Subset.refl _, fun gone member => absurd member not_mem_nil⟩
    | cons first rest ih =>
      intro pool sound
      rcases ih _ (remove_recursive_sound known source pool hashes sound first) with
        ⟨last, subset, others⟩
      refine ⟨last, List.Subset.trans subset (CTxMemPool.remove_subset pool first true),
        forall_mem_cons.mpr ⟨?_, others⟩⟩
      intro tx member
      exact CTxMemPool.remove_absent pool first true tx (subset member)
  rcases loop (pool.mapTx.filter fun tx =>
    tx.vin.any (pool.spendsImmature params pcoins nMemPoolHeight)) pool sound with
    ⟨last, subset, gone⟩
  refine ⟨last, fun tx member txin input => ?_⟩
  by_contra immature
  have listed : tx ∈ pool.mapTx.filter fun tx =>
      tx.vin.any (pool.spendsImmature params pcoins nMemPoolHeight) := by
    apply mem_filter.mpr
    exact ⟨subset member, any_eq_true.mpr ⟨txin, input, by simpa using immature⟩⟩
  exact gone tx listed tx member rfl

end Conflicts

end ZenonCore.PoolInvariant
