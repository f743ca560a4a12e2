import ZenonCore.AssembledBlocks
import ZenonCore.BlockValueSums

/-!
# The fees of a block

`ConnectBlock` counts what ordinary transactions leave over, and nothing for zerocoin inputs;
`CreateNewBlock` counts both.
-/

namespace ZenonCore.BlockFees

open AssembledBlocks BlockOrder BlockTemplate List Option
open BlockValueSums Chainstate CheckBlock Coins
open ConnectBlock Primitives Strictness Validation
open CoinsRoundTrip (hasOrdinaryInputs)
open UnspentOutputs (makes)

section Fees

variable (services : Services) (node : NodeState)

def valueOf (tx : CTransaction) : Int := tx.getValueOut.getD 0

def feeOf (view : CCoinsView) (tx : CTransaction) : Int :=
  if tx.hasZerocoinSpendInputs || tx.isCoinBase || tx.isCoinStake then 0
  else (getValueIn view tx).getD 0 - valueOf tx

/-- The fees of some transactions, each over the view the earlier ones leave. -/
def feesOf (nHeight : Int) : CCoinsView → List CTransaction → Int
  | _, [] => 0
  | view, tx :: rest =>
    feeOf view tx +
      match updateCoins tx view nHeight with
      | none => 0
      | some (next, _) => feesOf nHeight next rest

variable (view : CCoinsView) (tx : CTransaction)

theorem feeOf_reward (reward : tx.isCoinBase = true ∨ tx.isCoinStake = true) : feeOf view tx = 0 := by
  unfold feeOf
  obtain coinBase | coinStake := reward
  · rw [coinBase, Bool.or_true]
    rfl
  · rw [coinStake, Bool.or_true]
    rfl

/-- What a transaction with zerocoin inputs leaves over of its denominations. -/
def zerocoinFee (tx : CTransaction) : Int :=
  if tx.hasZerocoinSpendInputs then (tx.vin.map (creditOf services node tx)).sum - valueOf tx
  else 0

/-- What it leaves over of the value that `GetZerocoinSpent` finds. -/
def statedFee (tx : CTransaction) : Int :=
  if tx.hasZerocoinSpendInputs then getZerocoinSpent tx - valueOf tx else 0

def IsPlain (tx : CTransaction) : Prop := tx.isCoinBase = false ∧ tx.isCoinStake = false

theorem valueIn_split (plain : IsPlain tx) :
    valueIn services node view tx = valueOf tx + feeOf view tx + zerocoinFee services node tx := by
  unfold valueIn feeOf zerocoinFee
  rw [plain.1, plain.2]
  cases tx.hasZerocoinSpendInputs with
  | true =>
    simp only [Bool.true_or, if_true]
    omega
  | false =>
    simp only [Bool.or_false, Bool.false_eq_true, if_false]
    omega

end Fees

section Connecting

variable (services : Services) (here : LocalState) (node : NodeState) (block : CBlock)
  (nHeight : Int) (scripts : Bool) (flags : UInt32)

theorem connectZerocoin_fees (tx : CTransaction) (acc last : Connecting)
    (done : connectZerocoin services node nHeight tx acc = .ok last) : last.nFees = acc.nFees := by
  unfold connectZerocoin at done
  simp only [bind_eq_ok] at done
  obtain ⟨_, _, spent, spending, minting⟩ := done
  have spends := connectSpends_value services node nHeight tx tx.vin acc spent spending
  have mints := connectMints_keeps services node nHeight tx spent last minting
  exact mints.2.2.1.trans spends.2.2.1

theorem connectOrdinary_fees (tx : CTransaction) (acc last : Connecting)
    (coinBase : tx.isCoinBase = false) (zerocoin : tx.hasZerocoinSpendInputs = false)
    (done : connectOrdinary services here node nHeight scripts flags tx acc = .ok last) :
    last.nFees = acc.nFees + feeOf acc.view tx := by
  unfold connectOrdinary at done
  simp only [bind_eq_ok, ofOption_eq_ok] at done
  rcases done with ⟨_, _, _, _, minted, minting, _, _, nTxValueIn, brought, nTxValueOut, made,
    vChecks, _, result⟩
  rcases connectMints_keeps services node nHeight tx acc minted minting with
    ⟨sameView, _, sameFees, _⟩
  rw [sameView] at brought
  cases result
  dsimp only
  unfold feeOf valueOf
  rw [coinBase, zerocoin, brought, made, sameFees]
  cases tx.isCoinStake with
  | true => exact (Int.add_zero _).symm
  | false => rfl

theorem connectTransaction_fees (i : Nat) (tx : CTransaction) (acc next : Connecting)
    (taken : connectTransaction services here node block nHeight scripts flags i tx acc =
      .ok next) : next.nFees = acc.nFees + feeOf acc.view tx := by
  unfold connectTransaction at taken
  simp only [bind_eq_ok, ofOption_eq_ok] at taken
  obtain ⟨_, _, _, _, checked, checking, total, _, ⟨view, undo⟩, _, result⟩ := taken
  have counted : checked.nFees = acc.nFees + feeOf acc.view tx := by
    let before : Connecting :=
      { acc with nSigOps := acc.nSigOps + services.getLegacySigOpCount tx }
    split_ifs at checking with zerocoin coinBase
    · have nothing : feeOf acc.view tx = 0 := by
        unfold feeOf
        rw [zerocoin]
        rfl
      rw [nothing, Int.add_zero]
      exact connectZerocoin_fees services node nHeight tx before checked checking
    · exact connectOrdinary_fees services here node nHeight scripts flags tx before checked
        (by simpa using coinBase) (by simpa using zerocoin) checking
    · have isCoinBase : tx.isCoinBase = true := by simpa using coinBase
      cases checking
      rw [feeOf_reward acc.view tx (Or.inl isCoinBase), Int.add_zero]
  cases result
  exact counted

variable (i : Nat) (txs : List CTransaction) (acc last : Connecting)

theorem connectTransactions_fees (done : connectTransactions services here node block nHeight scripts flags i txs acc =
      .ok last) : last.nFees = acc.nFees + feesOf nHeight acc.view txs := by
  induction txs generalizing i acc with
  | nil =>
    cases done
    exact (Int.add_zero _).symm
  | cons tx rest ih =>
    rw [connectTransactions, bind_eq_ok] at done
    obtain ⟨next, taken, later⟩ := done
    have added := connectTransaction_added services here node block nHeight scripts flags i tx acc
      next taken
    obtain ⟨undo, updated⟩ := added.coins
    have split : feesOf nHeight acc.view (tx :: rest) =
        feeOf acc.view tx + feesOf nHeight next.view rest := by
      rw [feesOf, updated]
    rw [ih (i + 1) next later, split,
      connectTransaction_fees services here node block nHeight scripts flags i tx acc next taken]
    exact Int.add_assoc _ _ _

/-- What plain transactions bring in apart from their fees is what they make and
what the zerocoins among them leave over. -/
theorem connectTransactions_balance (plain : ∀ tx ∈ txs, IsPlain tx)
    (done : connectTransactions services here node block nHeight scripts flags i txs acc =
      .ok last) :
    (last.nValueIn - last.nFees : Int) = acc.nValueIn - acc.nFees + (txs.map valueOf).sum +
      (txs.map (zerocoinFee services node)).sum := by
  induction txs generalizing i acc with
  | nil =>
    cases done
    simp
  | cons tx rest ih =>
    rw [connectTransactions, bind_eq_ok] at done
    obtain ⟨next, taken, later⟩ := done
    have added := connectTransaction_added services here node block nHeight scripts flags i tx acc
      next taken
    have fee := connectTransaction_fees services here node block nHeight scripts flags i tx acc
      next taken
    rw [ih (i + 1) next (fun other member => plain other (mem_cons_of_mem _ member)) later,
      added.spent, fee, valueIn_split services node acc.view tx (plain tx mem_cons_self)]
    simp only [map_cons, sum_cons]
    ring

end Connecting

section Views

variable (services : Services) (nHeight : Int)

/-- Two views that differ at one hash at most, at which the first has no output. -/
def Alike (txid : Uint256) (view other : CCoinsView) : Prop :=
  (∀ hash, hash ≠ txid → view.coins hash = other.coins hash) ∧
    ((∀ n, view.hasOutput { hash := txid, n := n } = false) ∨ view.coins txid = other.coins txid)

theorem spendInputs_alike (vin : List CTxIn) (view other last : CCoinsView)
    (undos : List CTxInUndo)
    (same : ∀ txin ∈ vin, view.coins txin.prevout.hash = other.coins txin.prevout.hash)
    (spent : spendInputs view vin = some (last, undos)) :
    ∃ otherLast, spendInputs other vin = some (otherLast, undos) ∧
      ∀ hash, view.coins hash = other.coins hash → last.coins hash = otherLast.coins hash := by
  induction vin generalizing view other undos with
  | nil =>
    cases spent
    exact ⟨other, rfl, fun _ equal => equal⟩
  | cons txin rest ih =>
    simp only [spendInputs, bind_eq_bind, bind_eq_some_iff] at spent
    obtain ⟨⟨coins, undo⟩, spending, ⟨next, undone⟩, later, result⟩ := spent
    cases result
    have entry : other.modifiable txin.prevout.hash = view.modifiable txin.prevout.hash := by
      unfold CCoinsView.modifiable
      rw [same txin mem_cons_self]
    have updated : ∀ hash, view.coins hash = other.coins hash →
        (view.update txin.prevout.hash coins).coins hash =
          (other.update txin.prevout.hash coins).coins hash := by
      intro hash equal
      unfold CCoinsView.update
      dsimp only
      rw [equal]
    rcases ih (view.update txin.prevout.hash coins) (other.update txin.prevout.hash coins) undone
      (fun input member => updated _ (same input (mem_cons_of_mem _ member))) later with
      ⟨otherLast, otherSpent, kept⟩
    refine ⟨otherLast, ?_, fun hash equal => kept hash (updated hash equal)⟩
    simp only [spendInputs, bind_eq_bind, entry, spending, bind_some, otherSpent]

theorem sumInputs_alike (vin : List CTxIn) (view other : CCoinsView) (nResult : CAmount)
    (same : ∀ txin ∈ vin, view.coins txin.prevout.hash = other.coins txin.prevout.hash) :
    vin.foldlM (fun nResult txin =>
        (view.getOutputFor txin.prevout).map fun txout => nResult + txout.nValue) nResult =
      vin.foldlM (fun nResult txin =>
        (other.getOutputFor txin.prevout).map fun txout => nResult + txout.nValue) nResult := by
  induction vin generalizing nResult with
  | nil => rfl
  | cons txin rest ih =>
    have output : view.getOutputFor txin.prevout = other.getOutputFor txin.prevout := by
      unfold CCoinsView.getOutputFor
      rw [same txin mem_cons_self]
    rw [foldlM_cons, foldlM_cons, output]
    apply congrArg
    funext next
    exact ih next fun input member => same input (mem_cons_of_mem _ member)

theorem getValueIn_alike (tx : CTransaction) (view other : CCoinsView)
    (same : hasOrdinaryInputs tx = true →
      ∀ txin ∈ tx.vin, view.coins txin.prevout.hash = other.coins txin.prevout.hash) :
    getValueIn view tx = getValueIn other tx := by
  unfold getValueIn
  unfold hasOrdinaryInputs at same
  cases coinBase : tx.isCoinBase with
  | true => rfl
  | false =>
    cases zerocoin : tx.hasZerocoinSpendInputs with
    | true => rfl
    | false =>
      rw [coinBase, zerocoin] at same
      rw [if_neg Bool.false_ne_true, if_neg Bool.false_ne_true, if_neg Bool.false_ne_true,
        if_neg Bool.false_ne_true]
      exact sumInputs_alike tx.vin view other 0 (same rfl)

/-- A transaction that is placed on one of two such views has the same fee in
the other, and leaves them alike. -/
theorem place_alike (txid : Uint256) (view other : CCoinsView) (alike : Alike txid view other)
    (tx : CTransaction) (next : CCoinsView) (undos : List CTxInUndo)
    (inputs : view.haveInputs tx = true)
    (updated : updateCoins tx view nHeight = some (next, undos)) :
    feeOf other tx = feeOf view tx ∧
      ∃ otherNext, updateCoins tx other nHeight = some (otherNext, undos) ∧
        Alike txid next otherNext := by
  have same : hasOrdinaryInputs tx = true →
      ∀ txin ∈ tx.vin, view.coins txin.prevout.hash = other.coins txin.prevout.hash := by
    intro ordinary txin input
    have output := haveInputs_hasOutput view tx inputs ordinary txin input
    by_cases here : txin.prevout.hash = txid
    · obtain absent | equal := alike.2
      · rw [← here] at absent
        rw [absent txin.prevout.n] at output
        cases output
      · rw [here]
        exact equal
    · exact alike.1 _ here
  have spends : ∃ otherNext, updateCoins tx other nHeight = some (otherNext, undos) ∧
      ∀ hash, hash = tx.hash ∨ view.coins hash = other.coins hash →
        next.coins hash = otherNext.coins hash := by
    have added : ∀ (spent otherSpent : CCoinsView) (hash : Uint256),
        hash = tx.hash ∨ spent.coins hash = otherSpent.coins hash →
          (addOutputs spent tx nHeight).coins hash = (addOutputs otherSpent tx nHeight).coins hash := by
      intro spent otherSpent hash either
      unfold addOutputs CCoinsView.update
      dsimp only
      split_ifs with own
      · rfl
      · exact either.resolve_left own
    unfold updateCoins at updated ⊢
    split_ifs at updated ⊢ with ordinary
    · simp only [bind_eq_bind, bind_eq_some_iff] at updated
      obtain ⟨⟨spent, vprevout⟩, spending, result⟩ := updated
      cases result
      rcases spendInputs_alike tx.vin view other spent vprevout (same ordinary) spending with
        ⟨otherSpent, otherSpending, kept⟩
      refine ⟨addOutputs otherSpent tx nHeight, ?_, ?_⟩
      · rw [otherSpending]
        rfl
      · intro hash either
        exact added spent otherSpent hash (either.imp_right (kept hash))
    · cases updated
      exact ⟨_, rfl, added view other⟩
  obtain ⟨otherNext, otherUpdated, kept⟩ := spends
  refine ⟨?_, otherNext, otherUpdated, ?_, ?_⟩
  · unfold feeOf
    rw [getValueIn_alike tx view other same]
  · intro hash apart
    exact kept hash (Or.inr (alike.1 hash apart))
  · by_cases own : txid = tx.hash
    · exact Or.inr (kept txid (Or.inl own))
    · obtain absent | equal := alike.2
      · left
        intro n
        rw [Bool.eq_false_iff]
        intro output
        rcases updateCoins_hasOutput tx view next nHeight undos _ updated output with
          made | ⟨before, _⟩
        · exact own (UnspentOutputs.makes_hash tx _ made).symm
        · rw [absent n] at before
          cases before
      · exact Or.inr (kept txid (Or.inr equal))

theorem feesOf_alike (txid : Uint256) (vtx : List CTransaction) (placed last : Placed)
    (other : CCoinsView) (alike : Alike txid placed.view other)
    (all : vtx.foldlM (place services nHeight) placed = some last) :
    feesOf nHeight other vtx = feesOf nHeight placed.view vtx := by
  induction vtx generalizing placed other with
  | nil => rfl
  | cons tx rest ih =>
    rw [foldlM_cons, bind_eq_bind, bind_eq_some_iff] at all
    obtain ⟨next, taken, later⟩ := all
    obtain ⟨inputs, ⟨undos, updated⟩, _⟩ := place_eq_some services nHeight placed next tx taken
    rcases place_alike nHeight txid placed.view other alike tx next.view undos inputs updated with
      ⟨fee, otherNext, otherUpdated, still⟩
    rw [feesOf, feesOf, otherUpdated, updated, fee]
    dsimp only
    rw [ih next otherNext still later]

theorem feesOf_snoc (vtx : List CTransaction) (tx : CTransaction) (placed last : Placed)
    (all : vtx.foldlM (place services nHeight) placed = some last) :
    feesOf nHeight placed.view (vtx ++ [tx]) =
      feesOf nHeight placed.view vtx + feeOf last.view tx := by
  induction vtx generalizing placed with
  | nil =>
    cases all
    rw [nil_append, feesOf, feesOf, Int.zero_add]
    cases updateCoins tx last.view nHeight with
    | none => exact Int.add_zero _
    | some next => exact Int.add_zero _
  | cons first rest ih =>
    rw [foldlM_cons, bind_eq_bind, bind_eq_some_iff] at all
    obtain ⟨next, taken, later⟩ := all
    obtain ⟨_, ⟨undos, updated⟩, _⟩ := place_eq_some services nHeight placed next first taken
    rw [cons_append, feesOf, feesOf, updated]
    dsimp only
    rw [ih next later, Int.add_assoc]

end Views

section Assembling

variable {δ : Type} (mining : Mining δ) (services : Services) (here : LocalState)
  (node : NodeState)

def Charges (state next : Assembling δ) : Prop :=
  next.vtx = state.vtx ∧ next.nFees = state.nFees ∨
    ∃ tx, next.vtx = state.vtx ++ [tx] ∧
      next.nFees = state.nFees + ((getValueIn state.view tx).getD 0 - valueOf tx)

theorem addIfValid_charges (tx : CTransaction) (nTxSize : Nat) (state next : Assembling δ)
    (taken : addIfValid services node tx nTxSize state = .ok next) : Charges state next := by
  rcases addIfValid_stages services node tx nTxSize state next taken with
    same | ⟨nValueIn, nValueOut, _, brought, made, _, _, added⟩
  · rw [same]
    exact Or.inl ⟨rfl, rfl⟩
  · obtain ⟨_, vtx, _, _, fees, _⟩ := add_eq_ok node tx _ _ _ state next added
    refine Or.inr ⟨tx, vtx, ?_⟩
    rw [fees, brought]
    unfold valueOf
    rw [made]
    rfl

theorem consider_charges (top : TxPriority δ) (state next : Assembling δ)
    (taken : consider mining services node top state = .ok next) : Charges state next := by
  rcases consider_stages mining services node top state next taken with
    ⟨fSortedByFee, vTxSerials, same | ⟨_, _, rest⟩⟩
  · rw [same]
    exact Or.inl ⟨rfl, rfl⟩
  · exact addIfValid_charges services node top.ptx _
      { state with fSortedByFee := fSortedByFee, vTxSerials := vTxSerials } next rest

theorem round_charges (state next : Assembling δ)
    (taken : round mining services node state = .ok next) : Charges state next := by
  unfold BlockTemplate.round at taken
  cases popped : mining.heap.pop (mining.compare state.fSortedByFee) state.vecPriority with
  | none =>
    rw [popped] at taken
    cases taken
    exact Or.inl ⟨rfl, rfl⟩
  | some entry =>
    obtain ⟨top, rest⟩ := entry
    rw [popped] at taken
    exact consider_charges mining services node top { state with vecPriority := rest } next taken

structure Charged (state : Assembling δ) : Prop where
  filled : Filled mining services here node state
  fees : state.nFees = feesOf (nHeight node) node.pcoinsTip state.vtx +
    (state.vtx.map statedFee).sum

theorem collected_plain {mining : Mining δ} {services : Services} {here : LocalState}
    {node : NodeState} {state : Assembling δ} (filled : Filled mining services here node state)
    (tx : CTransaction) (member : tx ∈ state.vtx) : IsPlain tx := by
  have passed := (filled.collected_mem tx member).2
  unfold isPassedOver at passed
  simp only [Bool.or_eq_false_iff] at passed
  exact ⟨passed.1.1.1, passed.1.1.2⟩

theorem charge_eq (view : CCoinsView) (tx : CTransaction) (plain : IsPlain tx) :
    (getValueIn view tx).getD 0 - valueOf tx = feeOf view tx + statedFee tx := by
  unfold feeOf statedFee
  rw [plain.1, plain.2]
  cases zerocoin : tx.hasZerocoinSpendInputs with
  | true =>
    unfold getValueIn
    rw [plain.1, zerocoin]
    exact (Int.zero_add _).symm
  | false => exact (Int.add_zero _).symm

theorem round_charged (state next : Assembling δ)
    (charged : Charged mining services here node state)
    (taken : round mining services node state = .ok next) :
    Charged mining services here node next := by
  have filled := round_filled mining services here node state next charged.filled taken
  refine ⟨filled, ?_⟩
  rcases round_charges mining services node state next taken with
    ⟨sameVtx, sameFees⟩ | ⟨tx, added, fees⟩
  · rw [sameVtx, sameFees]
    exact charged.fees
  · obtain ⟨nSigOps, placed, _⟩ := charged.filled.placed
    have plain : IsPlain tx := by
      apply collected_plain filled
      rw [added]
      exact mem_append_right _ mem_cons_self
    have walk := feesOf_snoc services (nHeight node) state.vtx tx _ _ placed
    rw [fees, charge_eq state.view tx plain, charged.fees, added, walk]
    simp only [map_append, map_cons, map_nil, sum_append, sum_cons,
      sum_nil]
    ring

theorem collect_charged (collected : Assembling δ)
    (done : collect mining services here node = .ok collected) :
    Charged mining services here node collected := by
  have start := done
  unfold collect at start
  rw [bind_eq_ok] at start
  obtain ⟨candidates, examined, filling⟩ := start
  have enters := examined_queued mining services here node node.mempool.mapTx _ candidates examined
  have first : Charged mining services here node (Assembling.start mining node candidates) :=
    { filled :=
        { placed := ⟨0, rfl, le_rfl⟩
          size := rfl
          limits := fun nonempty => absurd rfl nonempty
          once := enters }
      fees := rfl }
  exact loop_keeps _ (round mining services node) (Charged mining services here node)
    (round_charged mining services here node) _ _ collected first filling

end Assembling

end ZenonCore.BlockFees
