import ZenonCore.MempoolConsistency
import ZenonCore.Serials

/-!
# Serial numbers in the pool

`AcceptToMemoryPool` compares a spend with the chain and with its own transaction, and not
with the pool.
-/

namespace ZenonCore.PoolSerials

open Primitives ChainParams Coins Mempool List
open Validation Zerocoin Chainstate CheckBlock
open ChainTip Serials MempoolConsistency ValueGate
open Library.Runs

/-- The serial numbers a transaction spends, one for each zerocoin input that
can be read. -/
def serialsOf (lib : Libzerocoin) (tx : CTransaction) : List Int :=
  tx.zerocoinInputs.filterMap (spentSerial lib)

/-- No transaction of the pool spends a serial number twice, and no two spend
the same one. -/
structure SerialsUnique (lib : Libzerocoin) (pool : CTxMemPool) : Prop where
  once : ∀ tx ∈ pool.mapTx, (serialsOf lib tx).Nodup
  apart : ∀ first ∈ pool.mapTx, ∀ second ∈ pool.mapTx, ∀ serial ∈ serialsOf lib first,
    serial ∈ serialsOf lib second → first = second

/-- What happens to the pool. The node that accepts a transaction may have any
chain, which changes between the events. -/
inductive PoolEvent
  | acceptToMemoryPool (here : LocalState) (node : NodeState) (tx : CTransaction)
  | remove (origTx : CTransaction) (fRecursive : Bool)
  | removeConflicts (tx : CTransaction)
  | removeCoinbaseSpends (pcoins : CCoinsView) (nMemPoolHeight : Int)
  | removeForBlock (vtx : List CTransaction)
  | clear

/-- A call that succeeds; one that fails leaves the pool as it is. -/
def step (services : Services) (pool : CTxMemPool) : PoolEvent → Option CTxMemPool
  | .acceptToMemoryPool here node tx =>
    (ChainTip.acceptToMemoryPool services here { node with mempool := pool } tx).toOption
  | .remove origTx fRecursive => some (pool.remove origTx fRecursive)
  | .removeConflicts tx => some (pool.removeConflicts tx)
  | .removeCoinbaseSpends pcoins nMemPoolHeight =>
    some (pool.removeCoinbaseSpends services.params pcoins nMemPoolHeight)
  | .removeForBlock vtx => some (pool.removeForBlock vtx)
  | .clear => some .empty

/-- A transaction that enters spends no serial number of the pool, and before the zerocoin start
height none twice. -/
def SpendsFresh (services : Services) (pool : CTxMemPool) : PoolEvent → Prop
  | .acceptToMemoryPool _ node tx =>
    (node.chainActive.nHeight < services.params.nZerocoinStartHeight →
      (serialsOf services.lib tx).Nodup) ∧
    ∀ other ∈ pool.mapTx, ∀ serial ∈ serialsOf services.lib tx,
      serial ∉ serialsOf services.lib other
  | _ => True

instance (services : Services) (pool : CTxMemPool) :
    ∀ event, Decidable (SpendsFresh services pool event)
  | .acceptToMemoryPool _ _ _ => inferInstanceAs (Decidable ((_ → _) ∧ _))
  | .remove _ _ => isTrue trivial
  | .removeConflicts _ => isTrue trivial
  | .removeCoinbaseSpends _ _ => isTrue trivial
  | .removeForBlock _ => isTrue trivial
  | .clear => isTrue trivial

section InTransaction

variable (services : Services) (node : NodeState) (tx : CTransaction)

theorem readRedeemed_serial (txin : CTxIn) (newSpend : CoinSpend) (prevOut : CTxOut)
    (read : readRedeemed services node tx txin = .ok (newSpend, prevOut)) :
    spentSerial services.lib txin = some newSpend.coinSerialNumber := by
  unfold readRedeemed at read
  unfold spentSerial
  split_ifs at read ⊢
  · simp only [bind_eq_ok, orDos_eq_ok, ofFault_eq_ok, dos, ofOption_eq_ok] at read
    obtain ⟨found, _, parsed, same, publicSpend, isSome, result⟩ := read
    cases isSome
    cases result
    obtain ⟨raw, readRaw, serial⟩ := parseCoinSpend_serial _ _ _ _ _ same
    rw [readRaw]
    exact congrArg some serial.symm
  · simp only [bind_eq_ok, ofFault_eq_ok] at read
    obtain ⟨found, parsed, result⟩ := read
    cases result
    rw [parsed]

theorem redeemInputs_serials (fVerifySignature fFakeSerialAttack : Bool) (vin : List CTxIn)
    (before after : Redemption)
    (done : vin.foldlM (redeemInput services node tx fVerifySignature fFakeSerialAttack) before =
      .ok after) :
    before.serials.reverse ++ (vin.filter CTxIn.spendsZerocoin).filterMap
        (spentSerial services.lib) = after.serials.reverse ∧
      (before.serials.Nodup → after.serials.Nodup) := by
  induction vin generalizing before with
  | nil =>
    cases done
    simp
  | cons txin rest ih =>
    rw [foldlM_cons, bind_eq_ok] at done
    obtain ⟨next, taken, later⟩ := done
    obtain ⟨counted, unique⟩ := ih next later
    unfold redeemInput at taken
    by_cases zerocoin : txin.spendsZerocoin = true
    · rw [if_neg (by simp [zerocoin])] at taken
      simp only [bind_eq_ok, dos, require_eq_ok, exists_and_left, exists_const,
        Prod.exists] at taken
      obtain ⟨newSpend, prevOut, read, _, _, _, _, _, fresh, result⟩ := taken
      cases result
      rw [filter_cons_of_pos zerocoin,
        filterMap_cons_some (readRedeemed_serial services node tx _ _ _ read)]
      constructor
      · rw [← counted]
        simp
      · intro nodup
        apply unique
        rw [nodup_cons]
        exact ⟨by simpa using fresh, nodup⟩
    · rw [if_pos (by simpa using zerocoin)] at taken
      cases taken
      rw [filter_cons_of_neg zerocoin]
      exact ⟨counted, unique⟩

theorem checkTransaction_serials (here : LocalState) (fFakeSerialAttack : Bool)
    (checked : checkTransaction services here node tx true fFakeSerialAttack = .ok ()) :
    (serialsOf services.lib tx).Nodup := by
  unfold serialsOf CTransaction.zerocoinInputs
  by_cases zerocoin : tx.hasZerocoinSpendInputs = true
  · unfold checkTransaction checkZerocoinInputs at checked
    simp only [bind_eq_ok, dos, require_eq_ok, onlyIf_eq_ok, orDos_eq_ok, exists_and_left,
      exists_const] at checked
    obtain ⟨_, _, _, _, _, _, _, _, inputs, _⟩ := checked
    have spends := (inputs trivial).2 zerocoin
    unfold checkZerocoinSpend at spends
    simp only [bind_eq_ok, dos, require_eq_ok, exists_and_left, exists_const] at spends
    obtain ⟨_, _, redeemed, collected, _⟩ := spends
    obtain ⟨serials, unique⟩ := redeemInputs_serials services node tx _ _ _ _ _ collected
    have same : (tx.vin.filter CTxIn.spendsZerocoin).filterMap (spentSerial services.lib) =
        redeemed.serials.reverse := serials
    rw [same, nodup_reverse]
    exact unique nodup_nil
  · have none : tx.vin.filter CTxIn.spendsZerocoin = [] := by
      apply filter_eq_nil_iff.mpr
      intro txin member spends
      exact zerocoin (any_eq_true.mpr ⟨txin, member, spends⟩)
    rw [none]
    exact nodup_nil

end InTransaction

section Runs

variable (services : Services) (pool after : CTxMemPool)

/-- What a step does: a transaction whose hash the pool does not have enters,
or only removals happen. -/
theorem step_members (event : PoolEvent) (taken : step services pool event = some after) :
    (∃ here node tx, event = .acceptToMemoryPool here node tx ∧
      (∀ other ∈ pool.mapTx, other.hash ≠ tx.hash) ∧
      (services.params.nZerocoinStartHeight ≤ node.chainActive.nHeight →
        (serialsOf services.lib tx).Nodup) ∧
      ∀ other, other ∈ after.mapTx ↔ other ∈ pool.mapTx ∨ other = tx) ∨
    ((∀ here node tx, event ≠ .acceptToMemoryPool here node tx) ∧
      after.mapTx ⊆ pool.mapTx) := by
  cases event with
  | acceptToMemoryPool here node tx =>
    left
    simp only [step] at taken
    cases accepted : ChainTip.acceptToMemoryPool services here { node with mempool := pool } tx with
    | error failure =>
      rw [accepted] at taken
      cases taken
    | ok result =>
      rw [accepted] at taken
      cases taken
      obtain ⟨added, passed⟩ := acceptToMemoryPool_ok services here _ tx after accepted
      have absent : ∀ other ∈ pool.mapTx, other.hash ≠ tx.hash := by
        have missing : pool.lookup tx.hash = none := by
          simpa [CTxMemPool.contains] using passed.absent
        exact (CTxMemPool.lookup_none _ _).mp missing
      refine ⟨here, node, tx, rfl, absent, ?_, ?_⟩
      · intro active
        unfold ChainTip.acceptToMemoryPool at accepted
        simp only [bind_eq_ok, dos, require_eq_ok, orDos_eq_ok, exists_and_left,
          exists_const, active, decide_true] at accepted
        obtain ⟨_, _, checked, _⟩ := accepted
        exact checkTransaction_serials services _ tx here _ checked
      · intro other
        rw [added, CTxMemPool.addUnchecked, mem_append, mem_singleton,
          mem_filter]
        apply or_congr_left
        constructor
        · exact And.left
        · intro member
          exact ⟨member, by simpa using absent other member⟩
  | remove origTx fRecursive =>
    cases taken
    exact Or.inr ⟨fun _ _ _ => by simp, CTxMemPool.remove_subset pool origTx fRecursive⟩
  | removeConflicts tx =>
    cases taken
    exact Or.inr ⟨fun _ _ _ => by simp, CTxMemPool.removeConflicts_subset pool tx⟩
  | removeCoinbaseSpends pcoins nMemPoolHeight =>
    cases taken
    exact Or.inr ⟨fun _ _ _ => by simp,
      CTxMemPool.removeCoinbaseSpends_subset services.params pool pcoins nMemPoolHeight⟩
  | removeForBlock vtx =>
    cases taken
    exact Or.inr ⟨fun _ _ _ => by simp, CTxMemPool.removeForBlock_subset pool vtx⟩
  | clear =>
    cases taken
    exact Or.inr ⟨fun _ _ _ => by simp, nil_subset _⟩

theorem step_unique_iff (event : PoolEvent) (unique : SerialsUnique services.lib pool)
    (taken : step services pool event = some after) :
    SerialsUnique services.lib after ↔ SpendsFresh services pool event := by
  rcases step_members services pool after event taken with
    ⟨here, node, tx, isAccept, absent, active, members⟩ | ⟨notAccept, fewer⟩
  · subst isAccept
    constructor
    · intro uniqueAfter
      refine ⟨fun _ => uniqueAfter.once tx ((members tx).mpr (Or.inr rfl)), ?_⟩
      intro other inPool serial spent spentToo
      have same := uniqueAfter.apart other ((members other).mpr (Or.inl inPool)) tx
        ((members tx).mpr (Or.inr rfl)) serial spentToo spent
      exact absent other inPool (congrArg CTransaction.hash same)
    · intro fresh
      have ownOnce : (serialsOf services.lib tx).Nodup := by
        by_cases early : node.chainActive.nHeight < services.params.nZerocoinStartHeight
        · exact fresh.1 early
        · exact active (by omega)
      constructor
      · intro other member
        obtain old | new := (members other).mp member
        · exact unique.once other old
        · rw [new]
          exact ownOnce
      · intro first inFirst second inSecond serial spent spentToo
        obtain oldFirst | newFirst := (members first).mp inFirst
        · obtain oldSecond | newSecond := (members second).mp inSecond
          · exact unique.apart first oldFirst second oldSecond serial spent spentToo
          · rw [newSecond] at spentToo
            exact absurd spent (fresh.2 first oldFirst serial spentToo)
        · obtain oldSecond | newSecond := (members second).mp inSecond
          · rw [newFirst] at spent
            exact absurd spentToo (fresh.2 second oldSecond serial spent)
          · rw [newFirst, newSecond]
  · have kept : SerialsUnique services.lib after :=
      { once := fun tx member => unique.once tx (fewer member)
        apart := fun first inFirst second inSecond =>
          unique.apart first (fewer inFirst) second (fewer inSecond) }
    have met : SpendsFresh services pool event := by
      cases event with
      | acceptToMemoryPool here node tx => exact absurd rfl (notAccept here node tx)
      | _ => exact trivial
    exact ⟨fun _ => met, fun _ => kept⟩

/-- From an empty pool no serial number is spent twice in any state if and only if every transaction
that enters spends fresh ones. -/
theorem serials_unique_iff (events : List PoolEvent) (last : CTxMemPool)
    (reached : run (step services) .empty events = some last) :
    (∀ before middle, before <+: events → run (step services) .empty before = some middle →
      SerialsUnique services.lib middle) ↔
    AllSteps (step services) (SpendsFresh services) .empty events := by
  apply invariant_iff_guarded_run (step services) (SpendsFresh services)
    (SerialsUnique services.lib) _ .empty last events _ reached
  · intro pool event next unique taken
    exact step_unique_iff services pool next event unique taken
  · constructor
    · intro tx member
      cases member
    · intro first member
      cases member

end Runs

def sameMintSpends : List PoolEvent :=
  [.acceptToMemoryPool quietNode fundedNode (publicSpend 12),
    .acceptToMemoryPool quietNode fundedNode (publicSpend 17)]

/-- Both enter. -/
theorem pool_spends_a_serial_twice :
    ¬ ∀ (services : Services) (events : List PoolEvent) (last : CTxMemPool),
      run (step services) .empty events = some last → SerialsUnique services.lib last := by
  intro unique
  have outcome : (run (step mainnetServices) .empty sameMintSpends).map
      (fun last => last.mapTx) = some [publicSpend 12, publicSpend 17] := by
    decide +kernel
  obtain ⟨last, reached, pool⟩ := Option.map_eq_some_iff.mp outcome
  have apart := (unique mainnetServices sameMintSpends last reached).apart
  rw [pool] at apart
  have serial : serialsOf mainnetServices.lib (publicSpend 12) =
      serialsOf mainnetServices.lib (publicSpend 17) := by
    decide +kernel
  have one : (serialsOf mainnetServices.lib (publicSpend 12)).length = 1 := by decide +kernel
  obtain ⟨number, only⟩ := length_eq_one_iff.mp one
  have same := apart (publicSpend 12) (by simp) (publicSpend 17) (by simp) number
    (by rw [only]; simp) (by rw [← serial, only]; simp)
  exact absurd same (by decide +kernel)

/-- One spend enters and leaves with a block; the other one enters after that. -/
def spendsInTurn : List PoolEvent :=
  [.acceptToMemoryPool quietNode fundedNode (publicSpend 12), .removeForBlock [publicSpend 12],
    .acceptToMemoryPool quietNode fundedNode (publicSpend 17)]

theorem spends_in_turn_are_unique :
    ∃ last, run (step mainnetServices) .empty spendsInTurn = some last ∧
      last.mapTx = [publicSpend 17] ∧ SerialsUnique mainnetServices.lib last := by
  have outcome : (run (step mainnetServices) .empty spendsInTurn).map
      (fun last => last.mapTx) = some [publicSpend 17] := by
    decide +kernel
  obtain ⟨last, reached, pool⟩ := Option.map_eq_some_iff.mp outcome
  have fresh : AllSteps (step mainnetServices) (SpendsFresh mainnetServices) .empty
      spendsInTurn := by
    decide +kernel
  have throughout := (serials_unique_iff mainnetServices spendsInTurn last reached).mpr fresh
  exact ⟨last, reached, pool, throughout spendsInTurn last (prefix_refl _) reached⟩

end ZenonCore.PoolSerials
