import ZenonCore.BlockOrder
import ZenonCore.BlockTemplate
import ZenonCore.JustCheck
import ZenonCore.MempoolConsistency

/-!
# What `CreateNewBlock` assembles

Every transaction of the pool is once in the queue, among those that wait, or in the block;
the block returned has passed the test of its validity.
-/

namespace ZenonCore.AssembledBlocks

open BlockOrder BlockTemplate Chainstate Coins List
open CheckBlock Effects JustCheck Primitives
open CoinsRoundTrip (hasOrdinaryInputs)
open MoneySupply (IndexedState SupplyServices)
open Strictness TrackedConnect Validation
open ValueGate (coinbaseTx quietNode)
open Chain (CBlockIndex)
open ConnectBlock (Connecting connectTransactions overwritesNothing
  TransactionsConnected connectTransactions_ok transactionsConnected_mem paired_of_mem)
open Heaps (firstLargest)
open MempoolConsistency
open PoolInvariant (HashesDistinct)
open Script (CScript op1)

section Queue

variable {δ : Type} (mining : Mining δ) (services : Services) (here : LocalState)
  (node : NodeState)

/-- The transactions of the queue and those that wait for others. -/
def queued (candidates : Candidates δ) : List CTransaction :=
  candidates.vecPriority.map TxPriority.ptx ++ candidates.vOrphan.map fun orphan => orphan.ptx

theorem leave_queued (candidates : Candidates δ) (doubles : Doubles δ) (tx : CTransaction)
    (setDependsOn : List Uint256) (freed : Bool) :
    List.Subperm (queued (candidates.leave doubles tx setDependsOn freed))
      (queued candidates ++ [tx]) := by
  unfold Candidates.leave
  split_ifs
  · exact (sublist_append_left _ _).subperm
  · simp [queued, List.Subperm.refl]

theorem examine_queued (candidates next : Candidates δ) (tx : CTransaction)
    (examined : examine mining services here node candidates tx = .ok next) :
    List.Subperm (queued next)
      (queued candidates ++ [tx].filter fun tx => !isPassedOver here node tx) := by
  unfold examine at examined
  by_cases passed : isPassedOver here node tx = true
  · rw [if_pos passed] at examined
    cases examined
    exact (sublist_append_left _ _).subperm
  · rw [if_neg passed] at examined
    rw [filter_cons_of_pos (by simpa using passed), filter_nil]
    rw [bind_eq_ok] at examined
    obtain ⟨read, _, result⟩ := examined
    cases read with
    | missing gathered =>
      cases result
      exact leave_queued candidates _ tx _ _
    | invalid gathered =>
      cases result
      exact leave_queued candidates _ tx _ _
    | complete gathered =>
      dsimp only at result
      rw [bind_eq_ok] at result
      obtain ⟨nValueOut, _, entered⟩ := result
      split_ifs at entered
      · cases entered
        unfold queued
        rw [map_append, append_assoc, append_assoc]
        exact (perm_append_comm.append_left _).subperm
      · cases entered
        simp [queued, List.Subperm.refl]

theorem examined_queued (mapTx : List CTransaction) (candidates last : Candidates δ)
    (examined : mapTx.foldlM (examine mining services here node) candidates = .ok last) :
    List.Subperm (queued last)
      (queued candidates ++ mapTx.filter fun tx => !isPassedOver here node tx) := by
  induction mapTx generalizing candidates with
  | nil =>
    cases examined
    rw [filter_nil, append_nil]
  | cons tx rest ih =>
    rw [foldlM_cons, bind_eq_ok] at examined
    obtain ⟨next, taken, later⟩ := examined
    have step := examine_queued mining services here node candidates next tx taken
    rw [← singleton_append, filter_append, ← append_assoc]
    exact (ih next later).trans ((subperm_append_right _).mpr step)

theorem releaseOne_queued (hash : Uint256) (released next : Candidates δ) (orphan : COrphan δ)
    (taken : releaseOne hash released orphan = .ok next) :
    (queued next).Perm (queued released ++ [orphan.ptx]) := by
  unfold releaseOne at taken
  split_ifs at taken
  · cases taken
    simp [queued]
  · dsimp only at taken
    split_ifs at taken
    · cases taken
      unfold queued
      rw [map_append, append_assoc, append_assoc]
      exact perm_append_comm.append_left _
    · cases taken
      simp [queued]

theorem released_queued (hash : Uint256) (vOrphan : List (COrphan δ))
    (released last : Candidates δ)
    (done : vOrphan.foldlM (releaseOne hash) released = .ok last) :
    (queued last).Perm (queued released ++ vOrphan.map fun orphan => orphan.ptx) := by
  induction vOrphan generalizing released with
  | nil =>
    cases done
    rw [map_nil, append_nil]
  | cons orphan rest ih =>
    rw [foldlM_cons, bind_eq_ok] at done
    obtain ⟨next, taken, later⟩ := done
    have step := releaseOne_queued hash released next orphan taken
    rw [map_cons, ← singleton_append, ← append_assoc]
    exact (ih next later).trans (step.append_right _)

end Queue

section Rounds

variable {δ : Type} (mining : Mining δ) (services : Services) (node : NodeState)

def undecided (state : Assembling δ) : List CTransaction :=
  queued { vecPriority := state.vecPriority, vOrphan := state.vOrphan }

structure SameBlock (state next : Assembling δ) : Prop where
  view : next.view = state.view
  vtx : next.vtx = state.vtx
  size : next.nBlockSize = state.nBlockSize
  sigOps : next.nBlockSigOps = state.nBlockSigOps
  queue : next.vecPriority = state.vecPriority
  orphans : next.vOrphan = state.vOrphan

/-- A transaction has been added to the block, within its limits. -/
structure Adds (tx : CTransaction) (state next : Assembling δ) : Prop where
  inputs : state.view.haveInputs tx = true
  coins : ∃ undos, updateCoins tx state.view (nHeight node) = some (next.view, undos)
  vtx : next.vtx = state.vtx ++ [tx]
  size : next.nBlockSize = state.nBlockSize + services.getSerializeSize tx
  sigOps : state.nBlockSigOps + txSigOps services tx state.view ≤ next.nBlockSigOps
  sizeLimit : next.nBlockSize < mining.nBlockMaxSize
  sigOpsLimit : next.nBlockSigOps < maxBlockSigOpsCurrent
  undecided : (undecided next).Perm (undecided state)

variable (tx : CTransaction)

theorem txSigOps_le (view : CCoinsView) :
    txSigOps services tx view ≤
      services.getLegacySigOpCount tx + services.getP2SHSigOpCount tx view := by
  unfold txSigOps
  split_ifs
  · exact le_rfl
  · exact Nat.add_le_add_left (Nat.zero_le _) _

/-- The last checks leave the state as it is, or the transaction is added with
the fee that has been found. -/
theorem addIfValid_stages (nTxSize : Nat) (state next : Assembling δ)
    (taken : addIfValid services node tx nTxSize state = .ok next) :
    next = state ∨
      ∃ nValueIn nValueOut nTxSigOps, getValueIn state.view tx = some nValueIn ∧
        tx.getValueOut = some nValueOut ∧
        nTxSigOps = services.getLegacySigOpCount tx + services.getP2SHSigOpCount tx state.view ∧
        state.nBlockSigOps + nTxSigOps < maxBlockSigOpsCurrent ∧
        add node tx nTxSize nTxSigOps (nValueIn - nValueOut) state = .ok next := by
  unfold addIfValid at taken
  simp only [bind_eq_ok, ofOption_eq_ok] at taken
  obtain ⟨nValueIn, brought, nValueOut, made, rest⟩ := taken
  split_ifs at rest with full
  · exact Or.inl (Except.ok.inj rest).symm
  · rw [bind_eq_ok] at rest
    obtain ⟨height, _, checked⟩ := rest
    split at checked
    · exact Or.inl (Except.ok.inj checked).symm
    · cases checked
    · exact Or.inr ⟨nValueIn, nValueOut, _, brought, made, rfl, Nat.lt_of_not_le full, checked⟩

theorem add_eq_ok (nTxSize nTxSigOps : Nat) (nTxFees : CAmount)
    (state next : Assembling δ)
    (taken : add node tx nTxSize nTxSigOps nTxFees state = .ok next) :
    (∃ undos, updateCoins tx state.view (nHeight node) = some (next.view, undos)) ∧
      next.vtx = state.vtx ++ [tx] ∧ next.nBlockSize = state.nBlockSize + nTxSize ∧
      next.nBlockSigOps = state.nBlockSigOps + nTxSigOps ∧
      next.nFees = state.nFees + nTxFees ∧ (undecided next).Perm (undecided state) := by
  unfold add at taken
  simp only [bind_eq_ok, ofOption_eq_ok] at taken
  obtain ⟨⟨view, undos⟩, updated, released, releases, result⟩ := taken
  cases result
  have kept := released_queued tx.hash state.vOrphan _ released releases
  exact ⟨⟨undos, updated⟩, rfl, rfl, rfl, rfl, by simpa [undecided, queued] using kept⟩

theorem addIfValid_cases (state next : Assembling δ)
    (inputs : state.view.haveInputs tx = true)
    (fits : state.nBlockSize + services.getSerializeSize tx < mining.nBlockMaxSize)
    (taken : addIfValid services node tx (services.getSerializeSize tx) state = .ok next) :
    SameBlock state next ∨ Adds mining services node tx state next := by
  rcases addIfValid_stages services node tx _ state next taken with
    same | ⟨_, _, nTxSigOps, _, _, counted, few, added⟩
  · rw [same]
    exact Or.inl ⟨rfl, rfl, rfl, rfl, rfl, rfl⟩
  · rcases add_eq_ok node tx _ _ _ state next added with
      ⟨coins, vtx, size, sigOps, _, undecided⟩
    have bound := txSigOps_le services tx state.view
    exact Or.inr
      { inputs := inputs
        coins := coins
        vtx := vtx
        size := size
        sigOps := by omega
        sizeLimit := size ▸ fits
        sigOpsLimit := sigOps ▸ few
        undecided := undecided }

variable (top : TxPriority δ) (state next : Assembling δ)

/-- A transaction that is taken off the queue goes on to the last checks if its inputs are there and
it fits. -/
theorem consider_stages (taken : consider mining services node top state = .ok next) :
    ∃ fSortedByFee vTxSerials,
      next = { state with fSortedByFee := fSortedByFee, vTxSerials := vTxSerials } ∨
        state.view.haveInputs top.ptx = true ∧
          state.nBlockSize + services.getSerializeSize top.ptx < mining.nBlockMaxSize ∧
          addIfValid services node top.ptx (services.getSerializeSize top.ptx)
            { state with fSortedByFee := fSortedByFee, vTxSerials := vTxSerials } = .ok next := by
  unfold consider at taken
  dsimp only at taken
  split_ifs at taken with large signatures free missing
  · exact ⟨_, _, Or.inl (Except.ok.inj taken).symm⟩
  · exact ⟨_, _, Or.inl (Except.ok.inj taken).symm⟩
  · exact ⟨_, _, Or.inl (Except.ok.inj taken).symm⟩
  · exact ⟨_, _, Or.inl (Except.ok.inj taken).symm⟩
  · rw [bind_eq_ok] at taken
    obtain ⟨⟨fDoubleSerial, vTxSerials⟩, _, rest⟩ := taken
    dsimp only at rest
    split_ifs at rest
    · exact ⟨_, _, Or.inl (Except.ok.inj rest).symm⟩
    · have inputs : state.view.haveInputs top.ptx = true := by
        simpa [sortByFee] using missing
      exact ⟨_, vTxSerials, Or.inr ⟨inputs, Nat.lt_of_not_le large, rest⟩⟩

theorem consider_cases (taken : consider mining services node top state = .ok next) :
    SameBlock state next ∨ Adds mining services node top.ptx state next := by
  rcases consider_stages mining services node top state next taken with
    ⟨fSortedByFee, vTxSerials, same | ⟨inputs, fits, rest⟩⟩
  · rw [same]
    exact Or.inl ⟨rfl, rfl, rfl, rfl, rfl, rfl⟩
  · rcases addIfValid_cases mining services node top.ptx
        { state with fSortedByFee := fSortedByFee, vTxSerials := vTxSerials } next inputs fits
        rest with same | adds
    · exact Or.inl ⟨same.view, same.vtx, same.size, same.sigOps, same.queue, same.orphans⟩
    · exact Or.inr ⟨adds.inputs, adds.coins, adds.vtx, adds.size, adds.sigOps, adds.sizeLimit,
        adds.sigOpsLimit, adds.undecided⟩

theorem round_cases (state next : Assembling δ)
    (taken : round mining services node state = .ok next) :
    state.vecPriority = [] ∧ next = state ∨
      ∃ top rest, state.vecPriority.Perm (top :: rest) ∧
        (SameBlock { state with vecPriority := rest } next ∨
          Adds mining services node top.ptx { state with vecPriority := rest } next) := by
  unfold BlockTemplate.round at taken
  cases popped : mining.heap.pop (mining.compare state.fSortedByFee) state.vecPriority with
  | none =>
    rw [popped] at taken
    cases taken
    left
    refine ⟨?_, rfl⟩
    by_contra nonempty
    have pops := mining.heap.pops (mining.compare state.fSortedByFee) state.vecPriority nonempty
    rw [popped] at pops
    cases pops
  | some entry =>
    obtain ⟨top, rest⟩ := entry
    rw [popped] at taken
    right
    exact ⟨top, rest, mining.heap.takes _ _ top rest popped,
      consider_cases mining services node top _ next taken⟩

theorem undecided_pop (state : Assembling δ) (top : TxPriority δ) (rest : List (TxPriority δ))
    (popped : state.vecPriority.Perm (top :: rest)) :
    (undecided state).Perm (top.ptx :: undecided { state with vecPriority := rest }) :=
  (popped.map TxPriority.ptx).append_right _

theorem SameBlock.undecided_eq {state next : Assembling δ} (same : SameBlock state next) :
    undecided next = undecided state := by
  unfold undecided
  rw [same.queue, same.orphans]

end Rounds

section Collecting

variable {δ : Type} (mining : Mining δ) (services : Services) (here : LocalState)
  (node : NodeState)

structure Filled (state : Assembling δ) : Prop where
  placed : ∃ nSigOps,
    placeAll services (nHeight node) node.pcoinsTip state.vtx =
        some { view := state.view, nSigOps := nSigOps } ∧
      100 + nSigOps ≤ state.nBlockSigOps
  size : state.nBlockSize = 1000 + (state.vtx.map services.getSerializeSize).sum
  limits : state.vtx ≠ [] →
    state.nBlockSize < mining.nBlockMaxSize ∧ state.nBlockSigOps < maxBlockSigOpsCurrent
  once : List.Subperm (state.vtx ++ undecided state)
    (node.mempool.mapTx.filter fun tx => !isPassedOver here node tx)

theorem Filled.passes {mining : Mining δ} {services : Services} {here : LocalState}
    {node : NodeState} {state next : Assembling δ} (filled : Filled mining services here node state)
    (top : TxPriority δ) (rest : List (TxPriority δ))
    (popped : state.vecPriority.Perm (top :: rest))
    (same : SameBlock { state with vecPriority := rest } next) :
    Filled mining services here node next where
  placed := by
    rw [same.view, same.vtx, same.sigOps]
    exact filled.placed
  size := by
    rw [same.vtx, same.size]
    exact filled.size
  limits := by
    rw [same.vtx, same.size, same.sigOps]
    exact filled.limits
  once := by
    rw [same.undecided_eq, same.vtx]
    apply List.Subperm.trans _ filled.once
    apply (subperm_append_left _).mpr
    exact (sublist_cons_self _ _).subperm.trans
      (undecided_pop state top rest popped).symm.subperm

theorem Filled.adds {mining : Mining δ} {services : Services} {here : LocalState}
    {node : NodeState} {state next : Assembling δ} (filled : Filled mining services here node state)
    (top : TxPriority δ) (rest : List (TxPriority δ))
    (popped : state.vecPriority.Perm (top :: rest))
    (adds : Adds mining services node top.ptx { state with vecPriority := rest } next) :
    Filled mining services here node next where
  placed := by
    obtain ⟨nSigOps, placed, bound⟩ := filled.placed
    obtain ⟨undos, updated⟩ := adds.coins
    have taken := place_of_update services (nHeight node)
      { view := state.view, nSigOps := nSigOps } top.ptx next.view undos adds.inputs updated
    refine ⟨nSigOps + txSigOps services top.ptx state.view, ?_, ?_⟩
    · rw [adds.vtx]
      exact placeAll_snoc services (nHeight node) _ _ _ _ top.ptx placed taken
    · have added := adds.sigOps
      dsimp only at added
      omega
  size := by
    have sum := filled.size
    rw [adds.size, adds.vtx]
    simp only [map_append, map_cons, map_nil, sum_append, sum_cons,
      sum_nil]
    omega
  limits := fun _ => ⟨adds.sizeLimit, adds.sigOpsLimit⟩
  once := by
    have kept : (next.vtx ++ undecided next).Perm (state.vtx ++ undecided state) := by
      rw [adds.vtx, append_assoc]
      apply List.Perm.append_left
      exact (adds.undecided.cons top.ptx).trans (undecided_pop state top rest popped).symm
    exact kept.subperm.trans filled.once

theorem round_filled (state next : Assembling δ) (filled : Filled mining services here node state)
    (taken : round mining services node state = .ok next) :
    Filled mining services here node next := by
  rcases round_cases mining services node state next taken with
    ⟨_, same⟩ | ⟨top, rest, popped, same | adds⟩
  · rw [same]
    exact filled
  · exact filled.passes top rest popped same
  · exact filled.adds top rest popped adds

theorem round_uses (state next : Assembling δ) (goesOn : (!state.vecPriority.isEmpty) = true)
    (taken : round mining services node state = .ok next) :
    (undecided next).length < (undecided state).length := by
  rcases round_cases mining services node state next taken with
    ⟨none, _⟩ | ⟨top, rest, popped, same | adds⟩
  · rw [none] at goesOn
    cases goesOn
  · rw [same.undecided_eq, (undecided_pop state top rest popped).length_eq]
    exact Nat.lt_succ_self _
  · rw [adds.undecided.length_eq, (undecided_pop state top rest popped).length_eq]
    exact Nat.lt_succ_self _

theorem collect_filled (collected : Assembling δ)
    (done : collect mining services here node = .ok collected) :
    Filled mining services here node collected ∧ collected.vecPriority = [] := by
  unfold collect at done
  rw [bind_eq_ok] at done
  obtain ⟨candidates, examined, filling⟩ := done
  have enters := examined_queued mining services here node node.mempool.mapTx _ candidates examined
  have start : Filled mining services here node (Assembling.start mining node candidates) :=
    { placed := ⟨0, rfl, le_rfl⟩
      size := rfl
      limits := fun nonempty => absurd rfl nonempty
      once := enters }
  have length : (undecided (Assembling.start mining node candidates)).length ≤
      candidates.vecPriority.length + candidates.vOrphan.length := by
    simp [undecided, queued, Assembling.start]
  constructor
  · exact loop_keeps _ (round mining services node) (Filled mining services here node)
      (round_filled mining services here node) _ _ collected start filling
  · have stopped := loop_ends _ (round mining services node)
      (fun state => (undecided state).length) (round_uses mining services node)
      (fun state none => by
        have empty := length_eq_zero_iff.mp none
        simp only [undecided, queued, append_eq_nil_iff, map_eq_nil_iff] at empty
        rw [empty.1]
        rfl)
      _ _ collected length filling
    simpa using stopped

/-- The pool's map has one entry for each hash, and no transaction of the pool
has coins in the view of the tip. -/
structure Unconfirmed : Prop where
  nodup : (node.mempool.mapTx.map CTransaction.hash).Nodup
  absent : ∀ tx ∈ node.mempool.mapTx, node.pcoinsTip.haveCoins tx.hash = false

theorem Filled.collected_mem {mining : Mining δ} {services : Services} {here : LocalState}
    {node : NodeState} {state : Assembling δ} (filled : Filled mining services here node state)
    (tx : CTransaction) (member : tx ∈ state.vtx) :
    tx ∈ node.mempool.mapTx ∧ isPassedOver here node tx = false := by
  have kept := filled.once.subset (mem_append_left _ member)
  rw [mem_filter] at kept
  exact ⟨kept.1, by simpa using kept.2⟩

theorem Filled.collected_nodup {mining : Mining δ} {services : Services} {here : LocalState}
    {node : NodeState} {state : Assembling δ} (filled : Filled mining services here node state)
    (unconfirmed : Unconfirmed node) : (state.vtx.map CTransaction.hash).Nodup := by
  obtain ⟨taken, same, sublist⟩ := filled.once
  have inPool := (sublist.trans filter_sublist).map CTransaction.hash
  have nodup := (same.map CTransaction.hash).nodup_iff.mp (unconfirmed.nodup.sublist inPool)
  rw [map_append] at nodup
  exact nodup.of_append_left

/-- What holds of the transactions that the loop has taken from the pool. -/
structure WellCollected (collected : Assembling δ) : Prop where
  order : BehindParents TakesCoins collected.vtx
  inputs : InputsUnspent node.pcoinsTip collected.vtx
  limits : collected.vtx ≠ [] →
    1000 + (collected.vtx.map services.getSerializeSize).sum < mining.nBlockMaxSize ∧
      ∃ last, placeAll services (nHeight node) node.pcoinsTip collected.vtx = some last ∧
        100 + last.nSigOps < maxBlockSigOpsCurrent

theorem collect_well (unconfirmed : Unconfirmed node) (collected : Assembling δ)
    (done : collect mining services here node = .ok collected) :
    WellCollected mining services node collected := by
  have filled := (collect_filled mining services here node collected done).1
  obtain ⟨nSigOps, placed, bound⟩ := filled.placed
  have fresh : FreshHashes node.pcoinsTip collected.vtx :=
    { nodup := filled.collected_nodup unconfirmed
      absent := by
        intro tx member n
        rw [Bool.eq_false_iff]
        intro output
        have coins := haveCoins_of_hasOutput _ _ output
        rw [unconfirmed.absent tx (filled.collected_mem tx member).1] at coins
        cases coins }
  exact
    { order := behind_parents services (nHeight node) _ _ _ fresh placed
      inputs := inputs_unspent services (nHeight node) _ _ _ fresh placed
      limits := by
        intro nonempty
        obtain ⟨size, sigOps⟩ := filled.limits nonempty
        rw [filled.size] at size
        exact ⟨size, _, placed, by dsimp only; omega⟩ }

end Collecting

section Tested

variable (services : SupplyServices) (here : LocalState) (state : IndexedState)

/-- A block that passes has passed `CheckBlock` and, behind the genesis block, `ConnectBlock`'s
loop. -/
theorem testBlockValidity_ok (block : CBlock) (pindexPrev : CBlockIndex)
    (passed : outcome (testBlockValidity services here block pindexPrev false) state = .ok ())
    (other : block.hash ≠ services.params.hashGenesisBlock) :
    checkBlock services.toServices here state.node block false = .ok () ∧
      ∃ acc, connectLoop services here state.node block (.dummy pindexPrev)
        state.node.pcoinsTip = .ok acc := by
  unfold testBlockValidity at passed
  rw [outcome_inspect] at passed
  simp only [outcome_bind_eq_ok, outcome_check, after_check] at passed
  obtain ⟨_, _, _, _, _, _, _, checked, _, _, done, connected, _⟩ := passed
  have kept := checkBlockTracked_kept here services.toServices block false state _ checked
  rw [outcome_checkBlockTracked] at checked
  refine ⟨checked, ?_⟩
  rw [kept] at connected
  unfold connectBlockTracked at connected
  rw [if_neg other] at connected
  simp only [outcome_bind_eq_ok, outcome_check, after_check] at connected
  obtain ⟨_, again, _, _, loops⟩ := connected
  rw [checkUnlessChecked_kept services here block false state _ again] at loops
  unfold connectOther at loops
  rw [outcome_inspect] at loops
  simp only [outcome_bind_eq_ok, outcome_check] at loops
  obtain ⟨acc, looped, _⟩ := loops
  exact ⟨acc, looped⟩

theorem connectLoop_connects (node : NodeState) (block : CBlock) (pprev : CBlockIndex)
    (view : CCoinsView) (acc : Connecting)
    (looped : connectLoop services here node block (.dummy pprev) view = .ok acc) :
    overwritesNothing view block = true ∧
      ∃ scripts flags, connectTransactions services.toServices here node block (pprev.nHeight + 1)
        scripts flags 0 block.vtx (Connecting.start view) = .ok acc := by
  unfold connectLoop at looped
  simp only [bind_eq_ok, dos, onlyIf_eq_ok, require_eq_ok, exists_and_left,
    exists_const] at looped
  obtain ⟨_, _, overwrites, transactions⟩ := looped
  exact ⟨overwrites rfl, _, _, transactions⟩

theorem connectLoop_places (block : CBlock) (pprev : CBlockIndex) (view : CCoinsView)
    (acc : Connecting)
    (looped : connectLoop services here state.node block (.dummy pprev) view = .ok acc) :
    overwritesNothing view block = true ∧
      TransactionsConnected services.toServices state.node (pprev.nHeight + 1) 0 block.vtx
        (Connecting.start view) acc ∧
      ∃ last, placeAll services.toServices (pprev.nHeight + 1) view block.vtx = some last ∧
        last.nSigOps ≤ maxBlockSigOpsCurrent := by
  rcases connectLoop_connects services here state.node block pprev view acc looped with
    ⟨overwrites, scripts, flags, transactions⟩
  have places := connectTransactions_place services.toServices here state.node block _ _ _ 0
    block.vtx (Connecting.start view) acc (Nat.zero_le _) transactions
  exact ⟨overwrites, connectTransactions_ok services.toServices here state.node block _ _ _ 0
    block.vtx _ acc transactions, _, places.1, places.2⟩

theorem overwritesNothing_absent (view : CCoinsView) (block : CBlock)
    (overwrites : overwritesNothing view block = true) (tx : CTransaction)
    (member : tx ∈ block.vtx) (n : UInt32) :
    view.hasOutput { hash := tx.hash, n := n } = false := by
  have entry := all_eq_true.mp overwrites tx member
  rw [Bool.eq_false_iff]
  intro output
  cases found : view.accessCoins tx.hash with
  | none =>
    have none : view.coins tx.hash = none := found
    unfold CCoinsView.hasOutput at output
    rw [none] at output
    cases output
  | some coins =>
    rw [found] at entry
    have live := not_pruned_of_hasOutput view _ output coins found
    exact absurd entry (by simp [live])

variable (block : CBlock) (first : CTransaction) (rest : List CTransaction)

theorem checkBlockShape_coinBase (vtx : block.vtx = first :: rest)
    (shape : checkBlockShape block = .ok ()) :
    first.isCoinBase = true ∧ ∀ tx ∈ rest, tx.isCoinBase = false := by
  unfold checkBlockShape at shape
  simp only [bind_eq_ok, dos, require_eq_ok, exists_and_left, exists_const] at shape
  obtain ⟨coinBase, others, _⟩ := shape
  rw [vtx] at coinBase others
  constructor
  · simpa using coinBase
  · intro tx member
    simpa using all_eq_true.mp others tx member

theorem checkBlock_coinBase (vtx : block.vtx = first :: rest)
    (checked : checkBlock services.toServices here state.node block false = .ok ()) :
    first.isCoinBase = true ∧ ∀ tx ∈ rest, tx.isCoinBase = false := by
  unfold checkBlock at checked
  simp only [bind_eq_ok] at checked
  obtain ⟨_, _, _, _, _, _, _, shape, _⟩ := checked
  exact checkBlockShape_coinBase block first rest vtx shape

/-- An input that takes an output from the coins, or a mint. -/
def TakesOutput (tx : CTransaction) (txin : CTxIn) : Prop :=
  hasOrdinaryInputs tx = true ∨ txin.spendsZerocoin = true

/-- The public spends of a block come behind the mints they spend: they are not allowed together. -/
theorem spends_behind_mints (known : Set CTransaction) (hashes : HashesDistinct known)
    (knows : Knows known state.node) (nHeight : Int) (vtx : List CTransaction)
    (vtxKnown : ∀ tx ∈ vtx, tx ∈ known) (acc last : Connecting)
    (connected : TransactionsConnected services.toServices state.node nHeight 0 vtx acc last)
    (tx other : CTransaction) (member : tx ∈ vtx) (otherMember : other ∈ vtx) (txin : CTxIn)
    (input : txin ∈ tx.vin) (zerocoin : txin.spendsZerocoin = true) :
    other.hash ≠ txin.prevout.hash := by
  rcases transactionsConnected_mem _ _ nHeight 0 vtx acc last connected tx member with
    ⟨_, _, _, connects⟩
  obtain ⟨spends, accepted, _⟩ := connects.spends
  have counted : txin ∈ tx.zerocoinInputs := mem_filter.mpr ⟨input, zerocoin⟩
  obtain ⟨spend, _, spent⟩ := paired_of_mem _ _ spends accepted txin counted
  intro same
  rcases readSpend_source services.toServices known state.node knows tx txin spend zerocoin
      spent.read with null | ⟨isPublic, parent, parentKnown, hash, txout, listed, mint⟩
  · exact hashes.nonzero other (vtxKnown other otherMember) (same.trans null)
  · have isParent : other = parent :=
      hashes.injective (vtxKnown other otherMember) parentKnown (same.trans hash.symm)
    rcases transactionsConnected_mem _ _ nHeight 0 vtx acc last connected other otherMember with
      ⟨_, _, _, otherConnects⟩
    obtain ⟨mints, minted, _⟩ := otherConnects.mints
    have inOutputs : txout ∈ other.zerocoinOutputs := by
      rw [isParent]
      exact mem_filter.mpr ⟨mem_of_getElem? listed, mint⟩
    obtain ⟨pubCoin, _, accepts⟩ := paired_of_mem _ _ mints minted txout inOutputs
    have enforced := spent.enforced
    have contextual := accepts.contextual
    unfold checkPublicCoinSpendEnforced at enforced
    unfold contextualCheckZerocoinMint at contextual
    by_cases late : services.params.nPublicZCSpends ≤ nHeight
    · rw [if_pos late] at contextual
      cases contextual
    · rw [if_neg late, isPublic] at enforced
      cases enforced

/-- What holds of the transactions of a block behind the tip. -/
structure WellOrdered (vtx : List CTransaction) : Prop where
  order : BehindParents TakesOutput vtx
  inputs : InputsUnspent state.node.pcoinsTip vtx
  sigOps : ∃ last,
    placeAll services.toServices (nHeight state.node) state.node.pcoinsTip vtx = some last ∧
      last.nSigOps ≤ maxBlockSigOpsCurrent

theorem tested_well_ordered (known : Set CTransaction) (hashes : HashesDistinct known)
    (knows : Knows known state.node) (block : CBlock) (blockKnown : ∀ tx ∈ block.vtx, tx ∈ known)
    (nodup : (block.vtx.map CTransaction.hash).Nodup) (acc : Connecting)
    (looped : connectLoop services here state.node block (.dummy state.node.chainActive)
      state.node.pcoinsTip = .ok acc) :
    WellOrdered services state block.vtx := by
  rcases connectLoop_places services here state block state.node.chainActive
    state.node.pcoinsTip acc looped with ⟨overwrites, connected, last, placed, bound⟩
  have fresh : FreshHashes state.node.pcoinsTip block.vtx :=
    ⟨nodup, fun tx member => overwritesNothing_absent _ block overwrites tx member⟩
  exact
    { order := by
        intro before tx later split txin input takes other behind
        obtain ordinary | zerocoin := takes
        · exact behind_parents services.toServices _ _ block.vtx last fresh placed before tx later
            split txin input ordinary other behind
        · apply spends_behind_mints services state known hashes knows _ block.vtx blockKnown _ acc
            connected tx other _ _ txin input zerocoin
          · rw [split]
            exact mem_append_right before mem_cons_self
          · rw [split]
            exact mem_append_right before behind
      inputs := inputs_unspent services.toServices _ _ block.vtx last fresh placed
      sigOps := ⟨last, placed, bound⟩ }

end Tested

section Templates

variable {δ : Type} (mining : Mining δ) (services : SupplyServices) (here : LocalState)
  (maker : BlockMaker) (scriptPubKeyIn : CScript) (fProofOfStake : Bool) (state : IndexedState)

/-- The transactions that `CreateNewBlock` puts before those of the pool. -/
def ownTransactions (collected : Assembling δ) : List CTransaction :=
  if fProofOfStake then
    stakeCoinbase services state.node.chainActive ::
      (maker.createCoinStake.map Prod.fst).toList
  else
    [paidCoinbase services maker state.node.chainActive scriptPubKeyIn collected.nFees]

theorem assemble_vtx (template : CBlockTemplate)
    (made : assemble mining services here maker scriptPubKeyIn fProofOfStake state.node =
      .ok template) :
    ∃ collected, collect mining services.toServices here state.node = .ok collected ∧
      (fProofOfStake = true → maker.createCoinStake.isSome = true) ∧
      template.block.vtx =
        ownTransactions services maker scriptPubKeyIn fProofOfStake state collected ++
          collected.vtx := by
  unfold assemble at made
  rw [bind_eq_ok] at made
  obtain ⟨_, _, made⟩ := made
  cases fProofOfStake with
  | true =>
    rw [if_pos rfl] at made
    cases created : maker.createCoinStake with
    | none =>
      rw [created] at made
      cases made
    | some coinstake =>
      rw [created] at made
      simp only [bind_eq_ok, refuse, ofOption_eq_ok] at made
      obtain ⟨collected, done, signed⟩ := made
      unfold stakeTemplate at signed
      rw [Option.map_eq_some_iff] at signed
      obtain ⟨vchBlockSig, _, result⟩ := signed
      refine ⟨collected, done, fun _ => rfl, ?_⟩
      rw [← result]
      unfold ownTransactions
      rw [if_pos rfl, created]
      rfl
  | false =>
    rw [if_neg Bool.false_ne_true] at made
    rw [bind_eq_ok] at made
    obtain ⟨collected, done, result⟩ := made
    refine ⟨collected, done, fun absurdly => absurd absurdly Bool.false_ne_true, ?_⟩
    cases result
    rfl

theorem createNewBlock_ok (template : CBlockTemplate)
    (created : (createNewBlock mining services here maker scriptPubKeyIn fProofOfStake state).1 =
      .ok template) :
    assemble mining services here maker scriptPubKeyIn fProofOfStake state.node = .ok template ∧
      outcome (testBlockValidity services here template.block state.node.chainActive false)
        state = .ok () := by
  unfold createNewBlock at created
  cases made : assemble mining services here maker scriptPubKeyIn fProofOfStake state.node with
  | error failure =>
    rw [made] at created
    cases created
  | ok other =>
    rw [made] at created
    dsimp only at created
    cases tested : outcome (testBlockValidity services here other.block state.node.chainActive
      false) state with
    | ok done =>
      rw [tested] at created
      cases created
      exact ⟨rfl, tested⟩
    | error failure =>
      rw [tested] at created
      cases failure with
      | rejected reason => cases created
      | fault fault => cases created
      | assertion => cases created

theorem template_nodup (known : Set CTransaction) (hashes : HashesDistinct known)
    (unconfirmed : Unconfirmed state.node)
    (coinstakes : ∀ made ∈ maker.createCoinStake, made.1.isCoinStake = true) (block : CBlock)
    (blockKnown : ∀ tx ∈ block.vtx, tx ∈ known) (collected : Assembling δ)
    (filled : Filled mining services.toServices here state.node collected)
    (vtx : block.vtx =
      ownTransactions services maker scriptPubKeyIn fProofOfStake state collected ++ collected.vtx)
    (checked : checkBlock services.toServices here state.node block false = .ok ()) :
    (block.vtx.map CTransaction.hash).Nodup := by
  have pooled := filled.collected_nodup unconfirmed
  have passed : ∀ tx ∈ collected.vtx, tx.isCoinBase = false ∧ tx.isCoinStake = false := by
    intro tx member
    have kept := (filled.collected_mem tx member).2
    unfold isPassedOver at kept
    simp only [Bool.or_eq_false_iff] at kept
    exact ⟨kept.1.1.1, kept.1.1.2⟩
  apply List.Nodup.map_on
  · intro tx member other otherMember same
    exact hashes.injective (blockKnown tx member) (blockKnown other otherMember) same
  · rw [vtx]
    have inner := pooled.of_map
    unfold ownTransactions at vtx ⊢
    cases fProofOfStake with
    | false =>
      rw [if_neg Bool.false_ne_true] at vtx ⊢
      have coinBase := (checkBlock_coinBase services here state block _ _ vtx checked).1
      rw [singleton_append, nodup_cons]
      refine ⟨?_, inner⟩
      intro member
      rw [(passed _ member).1] at coinBase
      cases coinBase
    | true =>
      rw [if_pos rfl] at vtx ⊢
      have coinBase := checkBlock_coinBase services here state block _ _ vtx checked
      rw [cons_append, nodup_cons]
      constructor
      · intro member
        rw [coinBase.2 _ member] at coinBase
        exact absurd coinBase.1 Bool.false_ne_true
      · cases created : maker.createCoinStake with
        | none => exact inner
        | some made =>
          refine nodup_cons.mpr ⟨?_, inner⟩
          intro member
          have isCoinStake := coinstakes made created
          rw [(passed _ member).2] at isCoinStake
          cases isCoinStake

end Templates

/-- Whatever waits for what: the transactions taken from the pool are in order and within the
limits, and so is, but for its size, the block. -/
theorem assembled_blocks_in_order {δ : Type} (mining : Mining δ) (services : SupplyServices)
    (here : LocalState) (maker : BlockMaker) (scriptPubKeyIn : CScript) (fProofOfStake : Bool)
    (state : IndexedState) (known : Set CTransaction) (hashes : HashesDistinct known)
    (knows : Knows known state.node) (unconfirmed : Unconfirmed state.node)
    (coinstakes : ∀ made ∈ maker.createCoinStake, made.1.isCoinStake = true) :
    (∀ collected, collect mining services.toServices here state.node = .ok collected →
      collected.vecPriority = [] ∧
        WellCollected mining services.toServices state.node collected) ∧
    ∀ template,
      (createNewBlock mining services here maker scriptPubKeyIn fProofOfStake state).1 =
        .ok template →
      (∀ tx ∈ template.block.vtx, tx ∈ known) →
      template.block.hash ≠ services.params.hashGenesisBlock →
        WellOrdered services state template.block.vtx ∧
          ∃ collected, collect mining services.toServices here state.node = .ok collected ∧
            template.block.vtx =
              ownTransactions services maker scriptPubKeyIn fProofOfStake state collected ++
                collected.vtx := by
  constructor
  · intro collected done
    exact ⟨(collect_filled mining services.toServices here state.node collected done).2,
      collect_well mining services.toServices here state.node unconfirmed collected done⟩
  · intro template created blockKnown other
    rcases createNewBlock_ok mining services here maker scriptPubKeyIn fProofOfStake state template
      created with ⟨made, tested⟩
    rcases assemble_vtx mining services here maker scriptPubKeyIn fProofOfStake state template
      made with ⟨collected, done, _, vtx⟩
    rcases testBlockValidity_ok services here state template.block state.node.chainActive tested
      other with ⟨checked, acc, looped⟩
    have filled := (collect_filled mining services.toServices here state.node collected done).1
    have nodup := template_nodup mining services here maker scriptPubKeyIn fProofOfStake state
      known hashes unconfirmed coinstakes template.block blockKnown collected filled vtx checked
    exact ⟨tested_well_ordered services here state known hashes knows template.block blockKnown
      nodup acc looped, collected, done, vtx⟩

def wholePriorities : Doubles Int where
  zero := 0
  addInput := fun dPriority nValueIn nConf => dPriority + nValueIn * nConf
  addSpend := fun dPriority _ _ nTotalIn => (dPriority + 100000) * nTotalIn
  computePriority := fun _ dPriority nTxSize => dPriority / nTxSize
  add := fun first second => first + second
  less := fun first second => decide (first < second)
  equal := fun first second => decide (first = second)
  isPositive := fun dPriority => decide (0 < dPriority)
  allowFree := fun dPriority => decide (57600000 < dPriority)

def miningBelow (blockMaxSize : UInt32) : Mining Int where
  doubles := wholePriorities
  heap := firstLargest (TxPriority Int)
  mapDeltas := fun _ => none
  mapZerocoinspends := fun _ => none
  blockMaxSize := blockMaxSize
  blockPrioritySize := 50000
  blockMinSize := 0
  minRelayTxFee := 10000
  extractVersionFromSerial := fun _ => 2

def workMaker : BlockMaker where
  fillBlockPayee := fun vout _ => vout
  createCoinStake := none
  signBlock := fun _ => none
  getHash := fun _ => 150
  nAccumulatorCheckpoint := 0

def childTx : CTransaction := simpleTx 20 { hash := 22, n := 0 } [] (8 * coin)

def pooledState (mapTx : List CTransaction) : IndexedState :=
  { headerState with
    node := { fundedNode with mempool := { mapTx := mapTx, mapNextTx := fun _ => none } } }

/-- The transactions that occur when a block with some fees pays a script. -/
def minedTransactions (scriptPubKeyIn : CScript) (nFees : CAmount) : List CTransaction :=
  [coinbaseTx 10, stakeMintTx, fundingTx, feeTx, childTx,
    paidCoinbase mainnetSupply workMaker fundedChain scriptPubKeyIn nFees]

variable (scriptPubKeyIn : CScript) (nFees : CAmount)

theorem minedTransactions_hashes :
    (minedTransactions scriptPubKeyIn nFees).map CTransaction.hash = [10, 11, 21, 22, 20, 77] :=
  rfl

theorem minedTransactions_distinct :
    HashesDistinct { tx | tx ∈ minedTransactions scriptPubKeyIn nFees } where
  injective := by
    have nodup : ((minedTransactions scriptPubKeyIn nFees).map CTransaction.hash).Nodup := by
      rw [minedTransactions_hashes]
      decide +kernel
    intro first inFirst second inSecond same
    exact inj_on_of_nodup_map nodup inFirst inSecond same
  nonzero := by
    have nonzero : ∀ hash ∈ (minedTransactions scriptPubKeyIn nFees).map CTransaction.hash,
        hash ≠ 0 := by
      rw [minedTransactions_hashes]
      simp
    intro tx member
    exact nonzero tx.hash (mem_map_of_mem member)

theorem pooledState_knows
    (mapTx : List CTransaction) (listed : ∀ tx ∈ mapTx, tx = childTx ∨ tx = feeTx) :
    Knows { tx | tx ∈ minedTransactions scriptPubKeyIn nFees } (pooledState mapTx).node where
  pool := by
    intro tx member
    obtain same | same := listed tx member
    · rw [same]
      simp [minedTransactions]
    · rw [same]
      simp [minedTransactions]
  index := fun _ _ _ entry => by cases entry
  chain := by
    intro block inChain tx member
    have before : tx ∈ [coinbaseTx 10, stakeMintTx, fundingTx] := by
      have whole : ∀ block ∈ fundedChain, ∀ tx ∈ block.vtx,
          tx ∈ [coinbaseTx 10, stakeMintTx, fundingTx] := by
        decide +kernel
      exact whole block inChain tx member
    exact mem_append_left [feeTx, childTx,
      paidCoinbase mainnetSupply workMaker fundedChain scriptPubKeyIn nFees] before

theorem pooledState_unconfirmed : Unconfirmed (pooledState [childTx, feeTx]).node where
  nodup := by decide
  absent := by
    have absent : ∀ tx ∈ [childTx, feeTx],
        (pooledState [childTx, feeTx]).node.pcoinsTip.haveCoins tx.hash = false := by
      decide +kernel
    exact absent

/-- The rule for a pool in which the first transaction waits for the second. -/
theorem waiting_transaction_comes_behind :
    ∃ template collected,
      (createNewBlock (miningBelow 750000) mainnetSupply quietNode workMaker [op1] false
        (pooledState [childTx, feeTx])).1 = .ok template ∧
      collected.vtx = [feeTx, childTx] ∧
      WellCollected (miningBelow 750000) mainnetSupply.toServices
        (pooledState [childTx, feeTx]).node collected ∧
      WellOrdered mainnetSupply (pooledState [childTx, feeTx]) template.block.vtx := by
  have created : ((createNewBlock (miningBelow 750000) mainnetSupply quietNode workMaker [op1]
      false (pooledState [childTx, feeTx])).1.toOption.map fun template =>
        (template.block.vtx, template.block.hash)) =
      some ([paidCoinbase mainnetSupply workMaker fundedChain [op1] (2 * coin), feeTx, childTx],
        150) := by
    decide +kernel
  have collects : ((collect (miningBelow 750000) mainnetSupply.toServices quietNode
      (pooledState [childTx, feeTx]).node).toOption.map fun collected => collected.vtx) =
      some [feeTx, childTx] := by
    decide +kernel
  have rule := assembled_blocks_in_order (miningBelow 750000) mainnetSupply quietNode workMaker
    [op1] false (pooledState [childTx, feeTx]) { tx | tx ∈ minedTransactions [op1] (2 * coin) }
    (minedTransactions_distinct _ _) (pooledState_knows _ _ _ (by simp))
    pooledState_unconfirmed (fun made absent => by cases absent)
  cases made : (createNewBlock (miningBelow 750000) mainnetSupply quietNode workMaker [op1] false
      (pooledState [childTx, feeTx])).1 with
  | error failure =>
    rw [made] at created
    cases created
  | ok template =>
    cases done : collect (miningBelow 750000) mainnetSupply.toServices quietNode
        (pooledState [childTx, feeTx]).node with
    | error failure =>
      rw [done] at collects
      cases collects
    | ok collected =>
      rw [made] at created
      rw [done] at collects
      obtain ⟨vtx, hash⟩ := Prod.mk.inj (Option.some.inj created)
      refine ⟨template, collected, rfl, Option.some.inj collects, (rule.1 collected done).2, ?_⟩
      apply (rule.2 template made _ _).1
      · intro tx member
        rw [vtx] at member
        simp only [mem_cons, not_mem_nil, or_false] at member
        obtain same | same | same := member
        · simp [same, minedTransactions]
        · simp [same, minedTransactions]
        · simp [same, minedTransactions]
      · rw [hash]
        decide

def sizeOfCompactSize (nSize : Nat) : Nat :=
  if nSize < 253 then 1 else if nSize ≤ 0xffff then 3 else if nSize ≤ 0xffffffff then 5 else 9

def scriptSize (script : CScript) : Nat := sizeOfCompactSize script.length + script.length

def serializeSize (tx : CTransaction) : Nat :=
  4 + (sizeOfCompactSize tx.vin.length +
      (tx.vin.map fun txin => 36 + scriptSize txin.scriptSig + 4).sum) +
    (sizeOfCompactSize tx.vout.length +
      (tx.vout.map fun txout => 8 + scriptSize txout.scriptPubKey).sum) + 4

def sizedSupply : SupplyServices := { mainnetSupply with getSerializeSize := serializeSize }

def longScript : CScript := List.replicate 1200 op1

theorem pooledState_empty : Unconfirmed (pooledState []).node where
  nodup := nodup_nil
  absent := fun _ member => absurd member not_mem_nil

/-- The coinbase is not counted, whatever it pays to. -/
theorem coinbase_exceeds_configured_size :
    ¬ ∀ (mining : Mining Int) (services : SupplyServices) (here : LocalState) (maker : BlockMaker)
        (scriptPubKeyIn : CScript) (fProofOfStake : Bool) (state : IndexedState)
        (known : Set CTransaction) (template : CBlockTemplate),
      HashesDistinct known → Knows known state.node → Unconfirmed state.node →
      (∀ made ∈ maker.createCoinStake, made.1.isCoinStake = true) →
      (createNewBlock mining services here maker scriptPubKeyIn fProofOfStake state).1 =
        .ok template →
      (∀ tx ∈ template.block.vtx, tx ∈ known) →
      template.block.hash ≠ services.params.hashGenesisBlock →
        (template.block.vtx.map services.getSerializeSize).sum < mining.nBlockMaxSize := by
  intro bounded
  have created : ((createNewBlock (miningBelow 1000) sizedSupply quietNode workMaker longScript
      false (pooledState [])).1.toOption.map fun template =>
        (template.block.vtx, template.block.hash)) =
      some ([paidCoinbase mainnetSupply workMaker fundedChain longScript 0], 150) := by
    decide +kernel
  have large : ([paidCoinbase mainnetSupply workMaker fundedChain longScript 0].map
      serializeSize).sum = 1264 := by
    decide +kernel
  cases made : (createNewBlock (miningBelow 1000) sizedSupply quietNode workMaker longScript false
      (pooledState [])).1 with
  | error failure =>
    rw [made] at created
    cases created
  | ok template =>
    rw [made] at created
    obtain ⟨vtx, hash⟩ := Prod.mk.inj (Option.some.inj created)
    have below := bounded (miningBelow 1000) sizedSupply quietNode workMaker longScript false
      (pooledState []) { tx | tx ∈ minedTransactions longScript 0 } template
      (minedTransactions_distinct _ _) (pooledState_knows _ _ _ (by simp)) pooledState_empty
      (fun made absent => by cases absent) made
      (by
        intro tx member
        rw [vtx] at member
        simp [mem_singleton.mp member, minedTransactions])
      (by
        rw [hash]
        decide)
    have size : (template.block.vtx.map sizedSupply.getSerializeSize).sum = 1264 := by
      rw [vtx]
      exact large
    rw [size] at below
    exact absurd below (by decide)

end ZenonCore.AssembledBlocks
