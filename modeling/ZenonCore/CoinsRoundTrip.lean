import ZenonCore.CoinsUndo
import ZenonCore.ValueGate

/-!
# Connecting and disconnecting a block

`UpdateCoins` over a block and `DisconnectBlock` with its records; the entry of one
transaction is followed through both.
-/

namespace ZenonCore.CoinsRoundTrip

open Primitives Coins Chain Validation List Option
open Zerocoin Chainstate ConnectBlock DisconnectBlock
open CoinsUndo

/-- `UpdateCoins` over the transactions in order, with the records of each. -/
def updateCoinsInOrder (nHeight : Int) :
    List CTransaction → CCoinsView → Option (CCoinsView × List (List CTxInUndo))
  | [], view => some (view, [])
  | tx :: rest, view => do
      let (next, vprevout) ← updateCoins tx view nHeight
      let (last, vtxundo) ← updateCoinsInOrder nHeight rest next
      some (last, vprevout :: vtxundo)

def hasOrdinaryInputs (tx : CTransaction) : Bool := !tx.isCoinBase && !tx.hasZerocoinSpendInputs

section Spends

/-- The inputs a transaction takes from the coins, with their records. -/
def ordinarySpends (one : CTransaction × List CTxInUndo) : List (CTxIn × CTxInUndo) :=
  if hasOrdinaryInputs one.1 then one.1.vin.zip one.2 else []

def spendsOf (txid : Uint256) (spends : List (CTxIn × CTxInUndo)) : List (CTxIn × CTxInUndo) :=
  spends.filter fun spent => spent.1.prevout.hash == txid

/-- What is spent of an entry until a transaction writes it anew. -/
def spentBefore (txid : Uint256) : List (CTransaction × List CTxInUndo) → List (CTxIn × CTxInUndo)
  | [] => []
  | one :: rest =>
    spendsOf txid (ordinarySpends one) ++
      if one.1.hash = txid then [] else spentBefore txid rest

/-- The inputs behind `spentBefore`, which are those of the block alone. -/
def spendingInputs (txid : Uint256) : List CTransaction → List CTxIn
  | [] => []
  | tx :: rest =>
    (if hasOrdinaryInputs tx then tx.vin.filter fun txin => txin.prevout.hash == txid else []) ++
      if tx.hash = txid then [] else spendingInputs txid rest

def writesEntry (vtx : List CTransaction) (txid : Uint256) : Bool :=
  vtx.any fun tx => tx.hash == txid

/-- The block spends every unspent output of the entry before it writes the
entry anew. -/
def SpendsLastOutput (vtx : List CTransaction) (txid : Uint256) (coins : CCoins) : Prop :=
  ∀ n, (output coins n).isNull = false →
    ∃ txin ∈ spendingInputs txid vtx, txin.prevout.n.toNat = n

/-- One record for every input that takes something from the coins. -/
def RecordsFit (pairs : List (CTransaction × List CTxInUndo)) : Prop :=
  ∀ one ∈ pairs, hasOrdinaryInputs one.1 = true → one.2.length = one.1.vin.length

theorem spendsOf_inputs (txid : Uint256) (one : CTransaction × List CTxInUndo)
    (fits : hasOrdinaryInputs one.1 = true → one.2.length = one.1.vin.length) :
    (spendsOf txid (ordinarySpends one)).map Prod.fst =
      if hasOrdinaryInputs one.1 then
        one.1.vin.filter fun txin => txin.prevout.hash == txid
      else [] := by
  unfold spendsOf ordinarySpends
  split
  · rename_i ordinary
    have inputs : (one.1.vin.zip one.2).map Prod.fst = one.1.vin :=
      map_fst_zip (Nat.le_of_eq (fits ordinary).symm)
    conv_rhs => rw [← inputs]
    rw [List.filter_map]
    rfl
  · rfl

variable (txid : Uint256) (pairs : List (CTransaction × List CTxInUndo))

theorem spentBefore_inputs (fits : RecordsFit pairs) :
    (spentBefore txid pairs).map Prod.fst = spendingInputs txid (pairs.map Prod.fst) := by
  induction pairs with
  | nil => rfl
  | cons one rest ih =>
    have later := ih fun other member => fits other (mem_cons_of_mem _ member)
    simp only [spentBefore, spendingInputs, map_cons, map_append]
    rw [spendsOf_inputs txid one (fits one mem_cons_self), apply_ite (map Prod.fst),
      later, map_nil]

theorem exhausts_iff_spendsLastOutput (fits : RecordsFit pairs) (coins : CCoins) :
    Exhausts (spentBefore txid pairs) coins ↔
      SpendsLastOutput (pairs.map Prod.fst) txid coins := by
  unfold Exhausts SpendsLastOutput
  rw [← spentBefore_inputs txid pairs fits]
  simp only [Taken, List.mem_map, exists_exists_and_eq_and]

end Spends

theorem spendInputs_entries (vin : List CTxIn) (view last : CCoinsView) (undos : List CTxInUndo)
    (spent : spendInputs view vin = some (last, undos)) :
    undos.length = vin.length ∧ ∀ txid, SpendsTo (view.coins txid)
      (spendsOf txid (vin.zip undos)) (last.coins txid) := by
  induction vin generalizing view undos with
  | nil =>
    cases spent
    exact ⟨rfl, fun txid => SpendsTo.done _⟩
  | cons txin rest ih =>
    simp only [spendInputs, bind_eq_bind, bind_eq_some_iff, Prod.exists,
      some.injEq, Prod.mk.injEq] at spent
    obtain ⟨after, undo, here, final, others, later, sameView, sameUndos⟩ := spent
    subst sameView sameUndos
    obtain ⟨lengths, entries⟩ := ih _ others later
    refine ⟨by rw [length_cons, length_cons, lengths], fun txid => ?_⟩
    have entry := entries txid
    simp only [CCoinsView.update] at entry
    rw [zip_cons_cons, spendsOf]
    by_cases same : txin.prevout.hash = txid
    · rw [filter_cons_of_pos (by simpa using same)]
      subst same
      rw [if_pos rfl] at entry
      exact SpendsTo.next here entry
    · rw [filter_cons_of_neg (by simpa using same)]
      rw [if_neg fun equal => same equal.symm] at entry
      exact entry

theorem updateCoins_entries (tx : CTransaction) (nHeight : Int) (view next : CCoinsView)
    (vprevout : List CTxInUndo) (updated : updateCoins tx view nHeight = some (next, vprevout)) :
    (hasOrdinaryInputs tx = true → vprevout.length = tx.vin.length) ∧ ∀ txid, ∃ entry,
      SpendsTo (view.coins txid) (spendsOf txid (ordinarySpends (tx, vprevout))) entry ∧
      (tx.hash ≠ txid → next.coins txid = entry) := by
  unfold updateCoins at updated
  unfold ordinarySpends hasOrdinaryInputs
  split at updated
  · rename_i ordinary
    simp only [bind_eq_bind, bind_eq_some_iff, Prod.exists, some.injEq,
      Prod.mk.injEq] at updated
    obtain ⟨spent, records, taken, sameView, sameRecords⟩ := updated
    subst sameView sameRecords
    obtain ⟨lengths, entries⟩ := spendInputs_entries tx.vin view spent records taken
    refine ⟨fun _ => lengths, fun txid => ⟨spent.coins txid, ?_, fun other => ?_⟩⟩
    · rw [if_pos ordinary]
      exact entries txid
    · exact if_neg fun same => other same.symm
  · rename_i special
    obtain ⟨sameView, sameRecords⟩ := Prod.mk.inj (some.inj updated)
    subst sameView
    refine ⟨fun ordinary => absurd ordinary special, fun txid => ⟨view.coins txid, ?_, ?_⟩⟩
    · rw [if_neg special]
      exact SpendsTo.done _
    · exact fun other => if_neg fun same => other same.symm

theorem updateCoinsInOrder_entries (nHeight : Int) (vtx : List CTransaction)
    (view last : CCoinsView) (undos : List (List CTxInUndo))
    (updated : updateCoinsInOrder nHeight vtx view = some (last, undos)) :
    undos.length = vtx.length ∧ RecordsFit (vtx.zip undos) ∧ ∀ txid, ∃ entry,
      SpendsTo (view.coins txid) (spentBefore txid (vtx.zip undos)) entry ∧
      (writesEntry vtx txid = false → last.coins txid = entry) := by
  induction vtx generalizing view undos with
  | nil =>
    cases updated
    exact ⟨rfl, fun one member => absurd member not_mem_nil,
      fun txid => ⟨_, SpendsTo.done _, fun _ => rfl⟩⟩
  | cons tx rest ih =>
    simp only [updateCoinsInOrder, bind_eq_bind, bind_eq_some_iff, Prod.exists,
      some.injEq, Prod.mk.injEq] at updated
    obtain ⟨next, vprevout, here, final, others, later, sameView, sameUndos⟩ := updated
    subst sameView sameUndos
    obtain ⟨fits, entries⟩ := updateCoins_entries tx nHeight view next vprevout here
    obtain ⟨lengths, laterFit, laterEntries⟩ := ih next others later
    refine ⟨by rw [length_cons, length_cons, lengths], ?_, fun txid => ?_⟩
    · intro one member
      rw [zip_cons_cons] at member
      obtain isHere | inRest := mem_cons.mp member
      · subst isHere
        exact fits
      · exact laterFit one inRest
    · obtain ⟨entry, spent, kept⟩ := entries txid
      rw [zip_cons_cons]
      simp only [spentBefore, writesEntry, any_cons, Bool.or_eq_false_iff, beq_eq_false_iff_ne]
      by_cases written : tx.hash = txid
      · rw [if_pos written, append_nil]
        exact ⟨entry, spent, fun unwritten => absurd written unwritten.1⟩
      · rw [if_neg written]
        obtain ⟨lastEntry, laterSpent, laterKept⟩ := laterEntries txid
        rw [kept written] at laterSpent
        exact ⟨lastEntry, SpendsTo.append spent laterSpent,
          fun unwritten => laterKept unwritten.2⟩

section Disconnecting

def restoreOutput (view : CCoinsView) (spent : CTxIn × CTxInUndo) : CCoinsView :=
  view.update spent.1.prevout.hash
    (restoredCoins (view.modifiable spent.1.prevout.hash) spent.1.prevout spent.2)

/-- What `DisconnectBlock` does to the coins for one transaction. -/
def undoTransaction (one : CTransaction × List CTxInUndo) (view : CCoinsView) : CCoinsView :=
  (ordinarySpends one).reverse.foldl restoreOutput (view.update one.1.hash CCoins.clear)

theorem restoreOutputs_entry (txid : Uint256) (spends : List (CTxIn × CTxInUndo))
    (view : CCoinsView) :
    (spends.foldl restoreOutput view).coins txid =
      (spendsOf txid spends).foldl undoEntry (view.coins txid) := by
  induction spends generalizing view with
  | nil => rfl
  | cons spent rest ih =>
    rw [foldl_cons, ih, spendsOf, spendsOf]
    by_cases same : spent.1.prevout.hash = txid
    · rw [filter_cons_of_pos (by simpa using same), foldl_cons]
      subst same
      simp only [restoreOutput, CCoinsView.update, if_pos, undoEntry, CCoinsView.modifiable]
    · rw [filter_cons_of_neg (by simpa using same)]
      simp only [restoreOutput, CCoinsView.update]
      rw [if_neg fun equal => same equal.symm]

theorem undoTransaction_entry (txid : Uint256) (one : CTransaction × List CTxInUndo)
    (view : CCoinsView) :
    (undoTransaction one view).coins txid =
      (spendsOf txid (ordinarySpends one)).reverse.foldl undoEntry
        (if one.1.hash = txid then some CCoins.clear else view.coins txid) := by
  unfold undoTransaction
  rw [restoreOutputs_entry, spendsOf, spendsOf, filter_reverse]
  simp only [CCoinsView.update]
  by_cases same : one.1.hash = txid
  · rw [if_pos same, if_pos same.symm]
    rfl
  · rw [if_neg same, if_neg fun equal => same equal.symm]

theorem undoTransactions_entry (txid : Uint256) (pairs : List (CTransaction × List CTxInUndo))
    (view : CCoinsView) :
    (pairs.foldr undoTransaction view).coins txid =
      (spentBefore txid pairs).reverse.foldl undoEntry
        (if writesEntry (pairs.map Prod.fst) txid then some CCoins.clear
          else view.coins txid) := by
  induction pairs with
  | nil => rfl
  | cons one rest ih =>
    rw [foldr_cons, undoTransaction_entry, ih]
    simp only [spentBefore, writesEntry, map_cons, any_cons]
    by_cases same : one.1.hash = txid
    · simp [same]
    · simp only [if_neg same, reverse_append, foldl_append,
        beq_eq_false_iff_ne.mpr same, Bool.false_or]
      rfl

variable (services : Services) (node : NodeState)

/-- Nothing stops `DisconnectBlock` from erasing the records of the
transaction from the zerocoin database. -/
structure Erasable (tx : CTransaction) : Prop where
  spends : tx.hasZerocoinSpendInputs = true → ∀ txin ∈ tx.vin, erasesSpend txin = true →
    ∃ spend, readSpend services node tx txin = .ok spend
  mints : ∀ txout ∈ tx.vout, txout.isZerocoinMint = true →
    ∃ pubCoin, readMint txout = .ok pubCoin

theorem asRefusal_eq_ok {α : Type} (result : Validated α) (value : α) :
    asRefusal result = .ok value ↔ result = .ok value := by
  unfold asRefusal
  split
  · exact ⟨fun same => (by cases same), fun same => (by cases same)⟩
  · exact Iff.rfl

variable (tx : CTransaction)

theorem eraseSpends_ok_iff (vin : List CTxIn) (acc : Disconnecting) :
    (eraseSpends services node tx vin acc).1.view = acc.view ∧
      ((eraseSpends services node tx vin acc).2 = .ok () ↔
        ∀ txin ∈ vin, erasesSpend txin = true →
          ∃ spend, readSpend services node tx txin = .ok spend) := by
  induction vin generalizing acc with
  | nil => exact ⟨rfl, iff_of_true rfl fun _ member => absurd member not_mem_nil⟩
  | cons txin rest ih =>
    simp only [eraseSpends, forall_mem_cons]
    split
    · rename_i erases
      split
      · rename_i failure found
        refine ⟨rfl, iff_of_false (fun same => by cases same) fun all => ?_⟩
        obtain ⟨spend, read⟩ := all.1 erases
        rw [(asRefusal_eq_ok _ _).mpr read] at found
        cases found
      · rename_i spend found
        rcases ih { acc with erased := acc.erased ++ [.spend spend.coinSpend.coinSerialNumber] }
          with ⟨view, result⟩
        refine ⟨view, result.trans ⟨fun later => ⟨fun _ => ?_, later⟩, fun all => all.2⟩⟩
        exact ⟨spend, (asRefusal_eq_ok _ _).mp found⟩
    · rename_i keeps
      obtain ⟨view, result⟩ := ih acc
      exact ⟨view, result.trans
        ⟨fun later => ⟨fun erases => absurd erases keeps, later⟩, fun all => all.2⟩⟩

theorem eraseMints_ok_iff (vout : List CTxOut) (acc : Disconnecting) :
    (eraseMints vout acc).1.view = acc.view ∧
      ((eraseMints vout acc).2 = .ok () ↔
        ∀ txout ∈ vout, txout.isZerocoinMint = true →
          ∃ pubCoin, readMint txout = .ok pubCoin) := by
  induction vout generalizing acc with
  | nil => exact ⟨rfl, iff_of_true rfl fun _ member => absurd member not_mem_nil⟩
  | cons txout rest ih =>
    simp only [eraseMints, forall_mem_cons]
    split
    · rename_i mints
      split
      · rename_i failure found
        refine ⟨rfl, iff_of_false (fun same => by cases same) fun all => ?_⟩
        obtain ⟨pubCoin, read⟩ := all.1 mints
        rw [read] at found
        cases found
      · rename_i pubCoin found
        rcases ih { acc with erased := acc.erased ++ [.mint pubCoin.value] } with ⟨view, result⟩
        refine ⟨view, result.trans ⟨fun later => ⟨fun _ => ?_, later⟩, fun all => all.2⟩⟩
        exact ⟨pubCoin, found⟩
    · rename_i plain
      obtain ⟨view, result⟩ := ih acc
      exact ⟨view, result.trans
        ⟨fun later => ⟨fun mints => absurd mints plain, later⟩, fun all => all.2⟩⟩

theorem restoreInputs_view (vprevout : List CTxInUndo) (acc : Disconnecting) :
    (restoreInputs tx vprevout acc).view =
      (tx.vin.zip vprevout).reverse.foldl restoreOutput acc.view := by
  unfold restoreInputs
  induction (tx.vin.zip vprevout).reverse generalizing acc with
  | nil => rfl
  | cons spent rest ih => exact ih (restoreInput acc spent)

theorem erasesOfSpends (acc : Disconnecting) :
    ∃ after result, (if tx.hasZerocoinSpendInputs then eraseSpends services node tx tx.vin acc
        else (acc, .ok ())) = (after, result) ∧ after.view = acc.view ∧
      (result = .ok () ↔ (tx.hasZerocoinSpendInputs = true → ∀ txin ∈ tx.vin,
        erasesSpend txin = true → ∃ spend, readSpend services node tx txin = .ok spend)) := by
  split
  · rename_i zerocoin
    obtain ⟨view, result⟩ := eraseSpends_ok_iff services node tx tx.vin acc
    exact ⟨_, _, rfl, view, result.trans ⟨fun all _ => all, fun all => all zerocoin⟩⟩
  · rename_i plain
    exact ⟨_, _, rfl, rfl, iff_of_true rfl fun zerocoin => absurd zerocoin plain⟩

theorem erasesOfMints (acc : Disconnecting) :
    ∃ after result, (if tx.hasZerocoinMintOutputs then eraseMints tx.vout acc
        else (acc, .ok ())) = (after, result) ∧ after.view = acc.view ∧
      (result = .ok () ↔ ∀ txout ∈ tx.vout, txout.isZerocoinMint = true →
        ∃ pubCoin, readMint txout = .ok pubCoin) := by
  split
  · obtain ⟨view, result⟩ := eraseMints_ok_iff tx.vout acc
    exact ⟨_, _, rfl, view, result⟩
  · rename_i plain
    refine ⟨_, _, rfl, rfl, iff_of_true rfl fun txout member mints => ?_⟩
    exact absurd (any_eq_true.mpr ⟨txout, member, mints⟩) plain

variable (nHeight : Int) (vtxundo : List (List CTxInUndo))

theorem disconnectTransaction_ok_iff (i : Nat) (tx : CTransaction) (acc : Disconnecting)
    (fits : hasOrdinaryInputs tx = true → (vtxundo.getD (i - 1) []).length = tx.vin.length) :
    ∃ next result, disconnectTransaction services node nHeight vtxundo i tx acc = (next, result) ∧
      (result = .ok () ↔ Erasable services node tx) ∧
      (result = .ok () → next.view = undoTransaction (tx, vtxundo.getD (i - 1) []) acc.view) := by
  unfold disconnectTransaction
  rcases erasesOfSpends services node tx acc with
    ⟨afterSpends, spendsResult, foundSpends, spendsView, spendsOk⟩
  rw [foundSpends]
  cases spendsResult with
  | error failure =>
    refine ⟨_, _, rfl, iff_of_false (fun same => by cases same) fun erasable => ?_,
      fun same => by cases same⟩
    cases spendsOk.mpr erasable.spends
  | ok done =>
    rcases erasesOfMints tx afterSpends with
      ⟨afterMints, mintsResult, foundMints, mintsView, mintsOk⟩
    simp only [foundMints]
    cases mintsResult with
    | error failure =>
      refine ⟨_, _, rfl, iff_of_false (fun same => by cases same) fun erasable => ?_,
        fun same => by cases same⟩
      cases mintsOk.mpr erasable.mints
    | ok done =>
      have erasable : Erasable services node tx := ⟨spendsOk.mp rfl, mintsOk.mp rfl⟩
      have undone : (undoOutputs tx nHeight afterMints).view =
          acc.view.update tx.hash CCoins.clear := by
        simp only [undoOutputs, mintsView, spendsView]
      by_cases ordinary : hasOrdinaryInputs tx = true
      · have sizes := fits ordinary
        unfold hasOrdinaryInputs at ordinary
        simp only [ordinary, if_true, sizes, ne_eq, not_true_eq_false, if_false]
        refine ⟨_, _, rfl, iff_of_true rfl erasable, fun _ => ?_⟩
        rw [restoreInputs_view, undone, undoTransaction, ordinarySpends,
          if_pos (by exact ordinary)]
      · have special := ordinary
        unfold hasOrdinaryInputs at ordinary
        simp only [ordinary]
        refine ⟨_, _, rfl, iff_of_true rfl erasable, fun _ => ?_⟩
        rw [undone, undoTransaction, ordinarySpends, if_neg special]
        rfl

theorem disconnectTransactions_ok_iff (list : List (CTransaction × Nat)) (acc : Disconnecting)
    (fits : ∀ one ∈ list, hasOrdinaryInputs one.1 = true →
      (vtxundo.getD (one.2 - 1) []).length = one.1.vin.length) :
    ∃ last result, disconnectTransactions services node nHeight vtxundo list acc = (last, result) ∧
      (result = .ok () ↔ ∀ one ∈ list, Erasable services node one.1) ∧
      (result = .ok () → last.view =
        (list.map fun one => (one.1, vtxundo.getD (one.2 - 1) [])).foldl
          (fun view one => undoTransaction one view) acc.view) := by
  induction list generalizing acc with
  | nil =>
    exact ⟨_, _, rfl, iff_of_true rfl fun _ member => absurd member not_mem_nil,
      fun _ => rfl⟩
  | cons one rest ih =>
    rcases disconnectTransaction_ok_iff services node nHeight vtxundo one.2 one.1 acc
      (fits one mem_cons_self) with ⟨next, result, found, erasable, view⟩
    simp only [disconnectTransactions, found, forall_mem_cons, map_cons,
      foldl_cons]
    cases result with
    | error failure =>
      refine ⟨_, _, rfl, iff_of_false (fun same => by cases same) fun all => ?_,
        fun same => by cases same⟩
      cases erasable.mpr all.1
    | ok done =>
      rcases ih next fun other member => fits other (mem_cons_of_mem _ member) with
        ⟨last, lastResult, lastFound, lastErasable, lastView⟩
      refine ⟨last, lastResult, lastFound, ?_, fun same => ?_⟩
      · rw [lastErasable]
        exact ⟨fun all => ⟨erasable.mp rfl, all⟩, fun all => all.2⟩
      · rw [lastView same, view rfl]

end Disconnecting

section Block

variable (services : Services) (node : NodeState)

theorem undoTransaction_coinBase (tx : CTransaction) (coinBase : tx.isCoinBase = true)
    (first second : List CTxInUndo) (view : CCoinsView) :
    undoTransaction (tx, first) view = undoTransaction (tx, second) view := by
  unfold undoTransaction ordinarySpends hasOrdinaryInputs
  simp [coinBase]

theorem tail_records (rest : List CTransaction) (others : List (List CTxInUndo))
    (lengths : others.length = rest.length) :
    (rest.zipIdx 1).map (fun one => (one.1, others.getD (one.2 - 1) [])) = rest.zip others := by
  apply ext_getElem
  · simp [lengths]
  · intro n inMapped inZipped
    rw [length_zip, lengths, Nat.min_self] at inZipped
    rw [getElem_map, getElem_zipIdx, getElem_zip, Nat.add_sub_cancel_left,
      getD_eq_getElem _ _ (by omega)]

theorem undo_in_block (first : CTransaction) (rest : List CTransaction)
    (coinBase : first.isCoinBase = true) (own : List CTxInUndo) (others : List (List CTxInUndo))
    (lengths : others.length = rest.length) (view : CCoinsView) :
    ((((first :: rest).zipIdx.reverse).map fun one => (one.1, others.getD (one.2 - 1) [])).foldl
        (fun view one => undoTransaction one view) view) =
      ((first :: rest).zip (own :: others)).foldr undoTransaction view := by
  rw [map_reverse, foldl_reverse, zipIdx_cons, map_cons, foldr_cons,
    tail_records rest others lengths, zip_cons_cons, foldr_cons]
  exact undoTransaction_coinBase first coinBase _ _ _

variable (block : CBlock) (pprev : CBlockIndex) (view after : CCoinsView)
  (undos : List (List CTxInUndo))

theorem restored_entry_iff {view after : CCoinsView} {vtx : List CTransaction}
    {pairs : List (CTransaction × List CTxInUndo)}
    (stored : ∀ txid coins, view.coins txid = some coins → coins.isPruned = false →
      Stored coins) (txid : Uint256)
    (connected : ∃ entry, SpendsTo (view.coins txid) (spentBefore txid pairs) entry ∧
      (writesEntry vtx txid = false → after.coins txid = entry))
    (fits : RecordsFit pairs) (inputs : pairs.map Prod.fst = vtx) :
    live ((pairs.foldr undoTransaction after).coins txid) = live (view.coins txid) ↔
      ∀ coins, view.coins txid = some coins → coins.isPruned = false →
        (writesEntry vtx txid = true → SpendsLastOutput vtx txid coins) ∧
        (SpendsLastOutput vtx txid coins → coins.fCoinStake = false) := by
  obtain ⟨entry, spent, kept⟩ := connected
  rw [undoTransactions_entry, inputs]
  by_cases unspent : ((view.coins txid).getD CCoins.clear).isPruned = true
  · obtain ⟨nothing, same⟩ := SpendsTo.of_pruned unspent spent
    rw [nothing, (live_eq_none _).mpr unspent, reverse_nil, foldl_nil, live_eq_none]
    apply iff_of_true
    · cases written : writesEntry vtx txid with
      | true => rfl
      | false =>
        rw [kept written, same]
        exact unspent
    · intro coins isEntry notPruned
      rw [isEntry] at unspent
      exact absurd unspent (by simp [notPruned])
  · have found : view.coins txid ≠ none := by
      intro missing
      rw [missing] at unspent
      exact unspent rfl
    obtain ⟨coins, isEntry⟩ := ne_none_iff_exists'.mp found
    have notPruned : coins.isPruned = false := by
      rw [isEntry] at unspent
      simpa using unspent
    have own := stored txid coins isEntry notPruned
    rw [isEntry] at spent
    simp only [isEntry, some.injEq, forall_eq']
    rw [forall_prop_of_true notPruned, (live_eq_some (some coins) coins).mpr ⟨rfl, notPruned⟩, ← inputs,
      ← exhausts_iff_spendsLastOutput txid pairs fits coins, inputs]
    cases written : writesEntry vtx txid with
    | true =>
      rw [if_pos rfl, cleared_entry_restored own notPruned spent]
      exact ⟨fun both => ⟨fun _ => both.1, fun _ => both.2⟩,
        fun both => ⟨both.1 rfl, both.2 (both.1 rfl)⟩⟩
    | false =>
      rw [if_neg Bool.false_ne_true, kept written, entry_restored own notPruned spent]
      exact ⟨fun flag => ⟨fun impossible => (by cases impossible), flag⟩, fun both => both.2⟩

/-- The view after the block is disconnected has the entries of before. -/
def RoundTrips : Prop :=
  ∃ restored fClean,
    (disconnectBlock services node block pprev (after.setBestBlock block.hash)).2 =
        .ok (restored, fClean) ∧
      ∀ txid, live (restored.coins txid) = live (view.coins txid)

theorem disconnectBlock_view (first : CTransaction) (rest : List CTransaction)
    (isBlock : block.vtx = first :: rest) (coinBase : first.isCoinBase = true)
    (own : List CTxInUndo) (others : List (List CTxInUndo))
    (lengths : others.length = rest.length)
    (fits : RecordsFit ((first :: rest).zip (own :: others)))
    (stored : node.blockUndo block.hash = some others) :
    ∃ result, (disconnectBlock services node block pprev (after.setBestBlock block.hash)).2 =
        result ∧
      ((∃ restored fClean, result = .ok (restored, fClean)) ↔
        ∀ tx ∈ block.vtx, Erasable services node tx) ∧
      ∀ restored fClean, result = .ok (restored, fClean) → ∀ txid, restored.coins txid =
        (((first :: rest).zip (own :: others)).foldr undoTransaction after).coins txid := by
  have data : undoData node block (after.setBestBlock block.hash) = .ok others := by
    simp only [undoData, bind_eq_ok, refuse, require_eq_ok, ofOption_eq_ok, exists_and_left,
      exists_const]
    exact ⟨beq_self_eq_true _, others, stored, by simp [isBlock, lengths], rfl⟩
  have fit : ∀ one ∈ block.vtx.zipIdx.reverse, hasOrdinaryInputs one.1 = true →
      (others.getD (one.2 - 1) []).length = one.1.vin.length := by
    intro one member ordinary
    rw [isBlock, List.mem_reverse, List.zipIdx_cons] at member
    obtain isFirst | inRest := List.mem_cons.mp member
    · rw [isFirst, hasOrdinaryInputs, coinBase] at ordinary
      cases ordinary
    · apply fits (one.1, others.getD (one.2 - 1) []) _ ordinary
      rw [List.zip_cons_cons, ← tail_records rest others lengths]
      exact List.mem_cons_of_mem _ (List.mem_map_of_mem inRest)
  rcases disconnectTransactions_ok_iff services node (pprev.nHeight + 1) others
    block.vtx.zipIdx.reverse
    { view := after.setBestBlock block.hash, erased := [], fClean := true } fit with
    ⟨last, result, found, erasable, lastView⟩
  have onVtx : (∀ one ∈ block.vtx.zipIdx.reverse, Erasable services node one.1) ↔
      ∀ tx ∈ block.vtx, Erasable services node tx := by
    have values : block.vtx.zipIdx.map Prod.fst = block.vtx := List.zipIdx_map_fst 0 block.vtx
    conv_rhs => rw [← values]
    simp only [List.mem_reverse, List.mem_map, forall_exists_index, and_imp,
      forall_apply_eq_imp_iff₂]
  rw [onVtx] at erasable
  refine ⟨_, rfl, ?_⟩
  unfold disconnectBlock
  simp only [data, found]
  cases result with
  | error failure =>
    refine ⟨iff_of_false (fun ok => ?_) fun all => ?_, fun restored fClean ok => ?_⟩
    · obtain ⟨restored, fClean, same⟩ := ok
      cases same
    · cases erasable.mpr all
    · cases ok
  | ok done =>
    refine ⟨iff_of_true ⟨_, _, rfl⟩ (erasable.mp rfl), fun restored fClean ok txid => ?_⟩
    obtain ⟨same, _⟩ := Prod.mk.inj (Except.ok.inj ok)
    rw [← same]
    change last.view.coins txid = _
    rw [lastView rfl, isBlock, undo_in_block first rest coinBase own others lengths,
      undoTransactions_entry, undoTransactions_entry]
    rfl

/-- A block leaves no trace in the coins exactly if its zerocoin records can be erased, no entry is
written anew while something of it is left, and no coinstake loses its last output. -/
theorem round_trips_iff
    (stored : ∀ txid coins, view.coins txid = some coins → coins.isPruned = false →
      Stored coins)
    (coinBase : block.vtx.head?.any CTransaction.isCoinBase = true)
    (updated : updateCoinsInOrder (pprev.nHeight + 1) block.vtx view = some (after, undos))
    (collected : node.blockUndo block.hash = some undos.tail) :
    RoundTrips services node block pprev view after ↔
      (∀ tx ∈ block.vtx, Erasable services node tx) ∧
      ∀ txid coins, view.coins txid = some coins → coins.isPruned = false →
        (writesEntry block.vtx txid = true → SpendsLastOutput block.vtx txid coins) ∧
        (SpendsLastOutput block.vtx txid coins → coins.fCoinStake = false) := by
  rcases updateCoinsInOrder_entries (pprev.nHeight + 1) block.vtx view after undos updated with
    ⟨lengths, fits, entries⟩
  cases isBlock : block.vtx with
  | nil =>
    rw [isBlock] at coinBase
    cases coinBase
  | cons first rest =>
    rw [isBlock] at coinBase lengths fits entries
    cases undos with
    | nil => cases lengths
    | cons own others =>
      rcases disconnectBlock_view services node block pprev after first rest isBlock coinBase
        own others (Nat.succ.inj lengths) fits collected with ⟨result, isResult, ok, coins⟩
      have inputs : ((first :: rest).zip (own :: others)).map Prod.fst = first :: rest :=
        map_fst_zip (Nat.le_of_eq lengths.symm)
      have entriesRestored := fun txid =>
        restored_entry_iff stored txid (entries txid) fits inputs
      unfold RoundTrips
      rw [isResult, ← isBlock, ← ok]
      constructor
      · intro trips
        obtain ⟨restored, fClean, same, all⟩ := trips
        refine ⟨⟨restored, fClean, same⟩, fun txid => ?_⟩
        rw [isBlock]
        apply (entriesRestored txid).mp
        rw [← coins restored fClean same txid]
        exact all txid
      · intro holds
        obtain ⟨restored, fClean, same⟩ := holds.1
        refine ⟨restored, fClean, same, fun txid => ?_⟩
        rw [coins restored fClean same txid]
        apply (entriesRestored txid).mpr
        rw [← isBlock]
        exact holds.2 txid

end Block

section Example

open ChainParams Script ValueGate

def heldView (fCoinStake : Bool) : CCoinsView where
  hashBlock := mainParams.hashGenesisBlock
  coins := fun txid =>
    if txid = 21 then
      some
        { fCoinBase := false
          fCoinStake := fCoinStake
          vout := [CTxOut.null, { nValue := 5 * coin, scriptPubKey := [op1] }]
          nHeight := 1
          nVersion := 1 }
    else none

def spendingTx : CTransaction where
  hash := 23
  nVersion := 1
  vin := [{ prevout := { hash := 21, n := 1 }, scriptSig := [], nSequence := 0xffffffff }]
  vout := [{ nValue := 5 * coin, scriptPubKey := [op1] }]
  nLockTime := 0

def spendingBlock : CBlock :=
  exampleBlock 103 mainParams.hashGenesisBlock 1600000000 [coinbaseTx 22, spendingTx]

def updatedView (fCoinStake : Bool) : CCoinsView × List (List CTxInUndo) :=
  (updateCoinsInOrder 1 spendingBlock.vtx (heldView fCoinStake)).getD (heldView fCoinStake, [])

def recordingNode (fCoinStake : Bool) : NodeState :=
  { mintedNode with
    blockUndo := fun hash => if hash = 103 then some (updatedView fCoinStake).2.tail else none }

theorem heldView_stored (fCoinStake : Bool) (txid : Uint256) (coins : CCoins)
    (found : (heldView fCoinStake).coins txid = some coins) (_ : coins.isPruned = false) :
    Stored coins := by
  simp only [heldView] at found
  split at found
  · cases found
    exact
      { clean := by cases fCoinStake <;> rfl
        canonical := by simp [CTxOut.isNull, coin]
        height := one_ne_zero }
  · cases found

theorem spendingBlock_updated (fCoinStake : Bool) :
    updateCoinsInOrder 1 spendingBlock.vtx (heldView fCoinStake) =
      some ((updatedView fCoinStake).1, (updatedView fCoinStake).2) := by
  have available : (updateCoinsInOrder 1 spendingBlock.vtx (heldView fCoinStake)).isSome = true := by
    cases fCoinStake <;> decide +kernel
  obtain ⟨result, isResult⟩ := isSome_iff_exists.mp available
  rw [updatedView, isResult]
  rfl

/-- A block that spends the last output of a coinstake: the flag does not come
back. -/
theorem coinstake_flag_is_lost :
    ¬ ∀ (services : Services) (node : NodeState) (block : CBlock) (pprev : CBlockIndex)
        (view after : CCoinsView) (undos : List (List CTxInUndo)),
      (∀ txid coins, view.coins txid = some coins → coins.isPruned = false → Stored coins) →
      block.vtx.head?.any CTransaction.isCoinBase = true →
      updateCoinsInOrder (pprev.nHeight + 1) block.vtx view = some (after, undos) →
      node.blockUndo block.hash = some undos.tail →
      RoundTrips services node block pprev view after := by
  intro always
  have trips := always mainnetServices (recordingNode true) spendingBlock [genesisBlock]
    (heldView true) _ _ (heldView_stored true) (by decide +kernel) (spendingBlock_updated true) rfl
  obtain ⟨restored, fClean, disconnected, same⟩ := trips
  have flag : (disconnectBlock mainnetServices (recordingNode true) spendingBlock [genesisBlock]
      ((updatedView true).1.setBestBlock spendingBlock.hash)).2.toOption.map
        (fun result => (live (result.1.coins 21)).map CCoins.fCoinStake) = some (some false) := by
    decide +kernel
  have before : (live ((heldView true).coins 21)).map CCoins.fCoinStake = some true := by
    decide +kernel
  rw [disconnected] at flag
  have lost : (live (restored.coins 21)).map CCoins.fCoinStake = some false :=
    some.inj flag
  rw [same 21, before] at lost
  cases lost

/-- The same spend of a transaction that is not a coinstake. -/
theorem ordinary_spend_round_trips :
    RoundTrips mainnetServices (recordingNode false) spendingBlock [genesisBlock] (heldView false)
      (updatedView false).1 := by
  apply (round_trips_iff mainnetServices (recordingNode false) spendingBlock [genesisBlock]
    (heldView false) _ _ (heldView_stored false) (by decide +kernel)
    (spendingBlock_updated false) rfl).mpr
  constructor
  · intro tx member
    have plain : ∀ tx ∈ spendingBlock.vtx, tx.hasZerocoinSpendInputs = false ∧
        tx.hasZerocoinMintOutputs = false := by
      decide +kernel
    obtain ⟨noSpends, noMints⟩ := plain tx member
    exact
      { spends := fun zerocoin => absurd zerocoin (by simp [noSpends])
        mints := fun txout inTx mints => by
          have found : tx.hasZerocoinMintOutputs = true :=
            any_eq_true.mpr ⟨txout, inTx, mints⟩
          rw [noMints] at found
          cases found }
  · intro txid coins found _
    simp only [heldView] at found
    split at found
    · rename_i isHeld
      subst isHeld
      cases found
      exact ⟨fun written => absurd written (by decide +kernel), fun _ => rfl⟩
    · cases found

end Example

end ZenonCore.CoinsRoundTrip
