import ZenonCore.DisconnectBlock

/-!
# Serial numbers of zerocoin inputs

The serial number of an input is in its script alone.
-/

namespace ZenonCore.Serials

open Primitives Coins Chain Validation List
open Zerocoin Chainstate CheckBlock ConnectBlock
open DisconnectBlock

/-- The serial number an input spends, if its script can be read. -/
def spentSerial (lib : Libzerocoin) (txin : CTxIn) : Option Int :=
  if txin.isZerocoinPublicSpend then
    match parsePublicCoinSpend lib txin with
    | .ok spend => some spend.coinSerialNumber
    | .error _ => none
  else
    match txInToZerocoinSpend lib txin with
    | .ok spend => some spend.coinSerialNumber
    | .error _ => none

theorem parseCoinSpend_serial (lib : Libzerocoin) (txin : CTxIn) (tx : CTransaction)
    (prevOut : CTxOut) (spend : PublicCoinSpend)
    (parsed : parseCoinSpend lib txin tx prevOut = .ok (some spend)) :
    ∃ found, parsePublicCoinSpend lib txin = .ok found ∧
      spend.coinSerialNumber = found.coinSerialNumber := by
  unfold parseCoinSpend at parsed
  split_ifs at parsed
  · cases parsed
  · rw [bind_eq_ok] at parsed
    obtain ⟨found, read, rest⟩ := parsed
    rw [bind_eq_ok] at rest
    obtain ⟨pubCoin, _, result⟩ := rest
    cases pubCoin with
    | none => cases result
    | some pubCoin =>
      cases result
      exact ⟨found, read, rfl⟩

theorem readSpend_serial (services : Services) (node : NodeState) (tx : CTransaction)
    (txin : CTxIn) (spend : Spend) (read : readSpend services node tx txin = .ok spend) :
    spentSerial services.lib txin = some spend.coinSpend.coinSerialNumber := by
  unfold readSpend at read
  unfold spentSerial
  split_ifs at read ⊢
  · unfold parseZerocoinPublicSpend at read
    simp only [bind_eq_ok, orDos_eq_ok, ofFault_eq_ok, dos, ofOption_eq_ok] at read
    obtain ⟨publicSpend, ⟨prevOut, _, found, parsed, same⟩, result⟩ := read
    cases same
    cases result
    obtain ⟨raw, readRaw, serial⟩ := parseCoinSpend_serial _ _ _ _ _ parsed
    rw [readRaw]
    exact congrArg some serial.symm
  · simp only [bind_eq_ok, ofFault_eq_ok] at read
    obtain ⟨found, parsed, result⟩ := read
    cases result
    rw [parsed]
    rfl

section InBlock

variable (services : Services) (here : LocalState) (node : NodeState)

theorem countSerials_ok (tx : CTransaction) (vin : List CTxIn) (before after : List Int)
    (done : vin.foldlM (countSerial services node tx) before = .ok after) :
    (before.map some).reverse ++ (vin.filter CTxIn.spendsZerocoin).map (spentSerial services.lib) =
        (after.map some).reverse ∧
      (before.Nodup → after.Nodup) := by
  induction vin generalizing before with
  | nil =>
    cases done
    simp
  | cons txin rest ih =>
    rw [foldlM_cons, bind_eq_ok] at done
    obtain ⟨next, taken, later⟩ := done
    obtain ⟨counted, unique⟩ := ih next later
    unfold countSerial at taken
    split_ifs at taken with zerocoin
    · simp only [bind_eq_ok, dos, require_eq_ok, exists_and_left, exists_const] at taken
      obtain ⟨spend, read, fresh, result⟩ := taken
      cases result
      rw [filter_cons_of_pos zerocoin, map_cons, readSpend_serial _ _ _ _ _ read]
      constructor
      · rw [← counted]
        simp
      · intro nodup
        apply unique
        rw [nodup_cons]
        exact ⟨by simpa using fresh, nodup⟩
    · cases taken
      rw [filter_cons_of_neg zerocoin]
      exact ⟨counted, unique⟩

theorem checkBlockTransaction_serials (fZerocoinActive : Bool) (tx : CTransaction)
    (before after : List Int)
    (taken : checkBlockTransaction services here node fZerocoinActive before tx = .ok after) :
    (before.map some).reverse ++ tx.zerocoinInputs.map (spentSerial services.lib) =
        (after.map some).reverse ∧
      (before.Nodup → after.Nodup) := by
  unfold checkBlockTransaction at taken
  rw [bind_eq_ok] at taken
  obtain ⟨_, _, counted⟩ := taken
  split_ifs at counted with zerocoin
  · exact countSerials_ok services node tx tx.vin before after counted
  · cases counted
    rw [(zerocoinInputs_eq_nil tx).mpr (by simpa using zerocoin)]
    simp

theorem checkBlock_serials (block : CBlock) (fCheckMerkleRoot : Bool)
    (checked : checkBlock services here node block fCheckMerkleRoot = .ok ()) :
    (block.zerocoinInputs.map fun spend => spentSerial services.lib spend.2).Nodup := by
  have loop : ∀ (active : Bool) (vtx : List CTransaction) (before after : List Int),
      vtx.foldlM (checkBlockTransaction services here node active) before = .ok after →
      (before.map some).reverse ++
          (vtx.flatMap fun tx => tx.zerocoinInputs).map (spentSerial services.lib) =
          (after.map some).reverse ∧
        (before.Nodup → after.Nodup) := by
    intro active vtx
    induction vtx with
    | nil =>
      intro before after done
      cases done
      simp
    | cons tx rest ih =>
      intro before after done
      rw [foldlM_cons, bind_eq_ok] at done
      obtain ⟨next, taken, later⟩ := done
      have first := checkBlockTransaction_serials services here node active tx before next taken
      have others := ih next after later
      constructor
      · rw [← others.1, ← first.1]
        simp
      · exact fun nodup => others.2 (first.2 nodup)
  unfold checkBlock at checked
  simp only [bind_eq_ok] at checked
  obtain ⟨_, _, _, _, _, _, _, _, _, _, last, folded, _⟩ := checked
  obtain ⟨serials, unique⟩ := loop _ block.vtx [] last folded
  have same : (block.zerocoinInputs.map fun spend => spentSerial services.lib spend.2) =
      (block.vtx.flatMap fun tx => tx.zerocoinInputs).map (spentSerial services.lib) := by
    simp [CBlock.zerocoinInputs, map_flatMap, Function.comp_def]
  rw [same]
  simp only [map_nil, reverse_nil, nil_append] at serials
  rw [serials, nodup_reverse]
  exact List.Nodup.map (Option.some_injective _) (unique nodup_nil)

/-- A record that `ConnectBlock` queues for an input: its serial number was
not in the chain. -/
structure SpendQueued (spend : CTransaction × CTxIn) (record : CoinSpend × Uint256) : Prop where
  serial : spentSerial services.lib spend.2 = some record.1.coinSerialNumber
  txid : record.2 = spend.1.hash
  fresh : isSerialInBlockchain node record.1.coinSerialNumber = none

theorem queued_serials (spends : List (CTransaction × CTxIn))
    (records : List (CoinSpend × Uint256))
    (queued : List.Forall₂ (SpendQueued services node) spends records) :
    (spends.map fun spend => spentSerial services.lib spend.2) =
      (records.map fun record => record.1.coinSerialNumber).map some := by
  induction queued with
  | nil => rfl
  | cons pair rest ih => rw [map_cons, ih, pair.serial, map_cons, map_cons]

theorem spendAccepted_queued (nHeight : Int) (tx : CTransaction) (txin : CTxIn) (spend : Spend)
    (accepted : SpendAccepted services node nHeight tx txin spend) :
    SpendQueued services node (tx, txin) (spend.coinSpend, tx.hash) := by
  have contextual := accepted.contextual
  simp only [contextualCheckZerocoinSpend, Bool.and_eq_true, Option.isNone_iff_eq_none]
    at contextual
  exact
    { serial := readSpend_serial services node tx txin spend accepted.read
      txid := rfl
      fresh := contextual.2 }

theorem transactionsConnected_queued (nHeight : Int) (i : Nat) (vtx : List CTransaction)
    (acc last : Connecting)
    (connected : TransactionsConnected services node nHeight i vtx acc last) :
    ∃ records, last.vSpends = acc.vSpends ++ records ∧
      List.Forall₂ (SpendQueued services node)
        (vtx.flatMap fun tx => tx.zerocoinInputs.map fun txin => (tx, txin)) records := by
  induction connected with
  | done i acc => exact ⟨[], by simp, .nil⟩
  | round i tx rest acc next last taken later ih =>
    obtain ⟨others, after, queued⟩ := ih
    obtain ⟨spends, accepted, here⟩ := taken.spends
    refine ⟨spends.map (fun spend => (spend.coinSpend, tx.hash)) ++ others, ?_, ?_⟩
    · rw [after, here, append_assoc]
    · rw [flatMap_cons]
      apply rel_append _ queued
      rw [forall₂_map_left_iff, forall₂_map_right_iff]
      exact accepted.imp fun txin spend =>
        spendAccepted_queued services node nHeight tx txin spend

end InBlock

section Database

variable (db : CZerocoinDB)

theorem writeCoinSpendBatch_spends (records : List (CoinSpend × Uint256))
    (bnSerial : Int) (distinct : (records.map fun record => record.1.coinSerialNumber).Nodup) :
    (∀ record ∈ records, record.1.coinSerialNumber = bnSerial →
      (db.writeCoinSpendBatch records).spends bnSerial = some record.2) ∧
    ((∀ record ∈ records, record.1.coinSerialNumber ≠ bnSerial) →
      (db.writeCoinSpendBatch records).spends bnSerial = db.spends bnSerial) := by
  induction records generalizing db with
  | nil => simp [CZerocoinDB.writeCoinSpendBatch]
  | cons first rest ih =>
    rw [map_cons, nodup_cons] at distinct
    have later := ih (db.writeCoinSpend first) distinct.2
    have unfolds : db.writeCoinSpendBatch (first :: rest) =
        (db.writeCoinSpend first).writeCoinSpendBatch rest := rfl
    rw [unfolds]
    constructor
    · intro record member same
      obtain here | inRest := mem_cons.mp member
      · have others : ∀ other ∈ rest, other.1.coinSerialNumber ≠ bnSerial := by
          intro other found equal
          apply distinct.1
          rw [← here, same, ← equal]
          exact mem_map_of_mem found
        rw [later.2 others]
        simp [CZerocoinDB.writeCoinSpend, ← here, same]
      · exact later.1 record inRest same
    · intro absent
      rw [later.2 fun other found => absent other (mem_cons_of_mem _ found)]
      have different := absent first mem_cons_self
      simp [CZerocoinDB.writeCoinSpend, different.symm]

theorem writeCoinMintBatch_spends (records : List (PublicCoin × Uint256)) :
    (db.writeCoinMintBatch records).spends = db.spends := by
  unfold CZerocoinDB.writeCoinMintBatch
  induction records generalizing db with
  | nil => rfl
  | cons first rest ih => exact ih (db.writeCoinMint first)

theorem writeAccumulatorValues_spends (entries : List (UInt32 × Int)) :
    (entries.foldl CZerocoinDB.writeAccumulatorValue db).spends = db.spends := by
  induction entries generalizing db with
  | nil => rfl
  | cons first rest ih => exact ih (db.writeAccumulatorValue first)

theorem eraseAccumulatorValues_spends (erased previous : Uint256) :
    (eraseAccumulatorValues db erased previous).spends = db.spends := by
  unfold eraseAccumulatorValues
  induction range 8 generalizing db with
  | nil => rfl
  | cons pos rest ih =>
    rw [foldl_cons, ih]
    split_ifs <;> rfl

theorem eraseRecords_spends (erased : List Erasure) (bnSerial : Int)
    (kept : Erasure.spend bnSerial ∉ erased) :
    (eraseRecords db erased).spends bnSerial = db.spends bnSerial := by
  unfold eraseRecords
  induction erased generalizing db with
  | nil => rfl
  | cons first rest ih =>
    rw [mem_cons, not_or] at kept
    rw [foldl_cons, ih _ kept.2]
    cases first with
    | mint bnPubcoin => rfl
    | spend other =>
      have different : bnSerial ≠ other := fun same => kept.1 (by rw [same])
      simp [eraseRecord, CZerocoinDB.eraseCoinSpend, different]

end Database

section Erased

variable (services : Services) (node : NodeState)

/-- A spend that is erased belongs to an input of a transaction with zerocoin
inputs whose script is that of a spend. -/
def ErasedFrom (vtx : List CTransaction) (erasure : Erasure) : Prop :=
  ∀ bnSerial, erasure = .spend bnSerial → ∃ tx ∈ vtx, tx.hasZerocoinSpendInputs = true ∧
    ∃ txin ∈ tx.vin, erasesSpend txin = true ∧
      spentSerial services.lib txin = some bnSerial

theorem eraseSpends_erased (tx : CTransaction) (zerocoin : tx.hasZerocoinSpendInputs = true)
    (vin : List CTxIn) (inputs : vin ⊆ tx.vin) (acc : Disconnecting) (erasure : Erasure)
    (member : erasure ∈ (eraseSpends services node tx vin acc).1.erased) :
    erasure ∈ acc.erased ∨ ErasedFrom services [tx] erasure := by
  induction vin generalizing acc with
  | nil => exact Or.inl member
  | cons txin rest ih =>
    have tail : rest ⊆ tx.vin := fun other found => inputs (mem_cons_of_mem _ found)
    simp only [eraseSpends] at member
    split_ifs at member with erases
    · cases read : readSpend services node tx txin with
      | error failure =>
        rw [read] at member
        cases failure <;> exact Or.inl (by simpa [asRefusal, refuse] using member)
      | ok spend =>
        rw [read] at member
        obtain before | later := ih tail _ member
        · obtain old | new := mem_append.mp before
          · exact Or.inl old
          · right
            intro bnSerial isSpend
            rw [mem_singleton.mp new] at isSpend
            cases isSpend
            exact ⟨tx, by simp, zerocoin, txin, inputs mem_cons_self, erases,
              readSpend_serial services node tx txin spend read⟩
        · exact Or.inr later
    · exact ih tail acc member

theorem eraseMints_erased (vtx : List CTransaction) (vout : List CTxOut) (acc : Disconnecting)
    (erasure : Erasure) (member : erasure ∈ (eraseMints vout acc).1.erased) :
    erasure ∈ acc.erased ∨ ErasedFrom services vtx erasure := by
  induction vout generalizing acc with
  | nil => exact Or.inl member
  | cons txout rest ih =>
    simp only [eraseMints] at member
    split_ifs at member
    · cases read : readMint txout with
      | error failure =>
        rw [read] at member
        exact Or.inl member
      | ok pubCoin =>
        rw [read] at member
        obtain before | later := ih _ member
        · obtain old | new := mem_append.mp before
          · exact Or.inl old
          · right
            intro bnSerial isSpend
            rw [mem_singleton.mp new] at isSpend
            cases isSpend
        · exact Or.inr later
    · exact ih acc member

theorem restoreInputs_erased (tx : CTransaction) (vprevout : List CTxInUndo)
    (acc : Disconnecting) : (restoreInputs tx vprevout acc).erased = acc.erased := by
  unfold restoreInputs
  induction (tx.vin.zip vprevout).reverse generalizing acc with
  | nil => rfl
  | cons first rest ih => exact ih (restoreInput acc first)

variable (nHeight : Int) (vtxundo : List (List CTxInUndo))

theorem disconnectTransaction_erased (i : Nat)
    (tx : CTransaction) (acc : Disconnecting) (erasure : Erasure)
    (member : erasure ∈
      (disconnectTransaction services node nHeight vtxundo i tx acc).1.erased) :
    erasure ∈ acc.erased ∨ ErasedFrom services [tx] erasure := by
  have spends : ∀ found, erasure ∈ found →
      found = (if tx.hasZerocoinSpendInputs then eraseSpends services node tx tx.vin acc
        else (acc, .ok ())).1.erased →
      erasure ∈ acc.erased ∨ ErasedFrom services [tx] erasure := by
    intro found inFound same
    rw [same] at inFound
    split_ifs at inFound with zerocoin
    · exact eraseSpends_erased services node tx zerocoin tx.vin (List.Subset.refl _) acc erasure
        inFound
    · exact Or.inl inFound
  have mints : ∀ (before : Disconnecting) found, erasure ∈ found →
      found = (if tx.hasZerocoinMintOutputs then eraseMints tx.vout before
        else (before, .ok ())).1.erased →
      erasure ∈ before.erased ∨ ErasedFrom services [tx] erasure := by
    intro before found inFound same
    rw [same] at inFound
    split_ifs at inFound
    · exact eraseMints_erased services [tx] tx.vout before erasure inFound
    · exact Or.inl inFound
  unfold disconnectTransaction at member
  split at member
  · rename_i stopped
    exact spends _ member (by rw [stopped])
  · rename_i afterSpends spent
    have fromMints : erasure ∈ (if tx.hasZerocoinMintOutputs then eraseMints tx.vout afterSpends
        else (afterSpends, .ok ())).1.erased := by
      split at member
      · rename_i stopped
        rw [stopped]
        exact member
      · rename_i afterMints minted
        rw [minted]
        dsimp only at member
        split_ifs at member
        · exact member
        · rw [restoreInputs_erased] at member
          exact member
        · exact member
    obtain before | here := mints afterSpends _ fromMints rfl
    · exact spends _ before (by rw [spent])
    · exact Or.inr here

theorem erasedFrom_mono (first second : List CTransaction) (erasure : Erasure)
    (subset : first ⊆ second) (erased : ErasedFrom services first erasure) :
    ErasedFrom services second erasure := by
  intro bnSerial isSpend
  obtain ⟨tx, member, rest⟩ := erased bnSerial isSpend
  exact ⟨tx, subset member, rest⟩

theorem disconnectTransactions_erased (list : List (CTransaction × Nat)) (acc : Disconnecting) (erasure : Erasure)
    (member : erasure ∈
      (disconnectTransactions services node nHeight vtxundo list acc).1.erased) :
    erasure ∈ acc.erased ∨ ErasedFrom services (list.map Prod.fst) erasure := by
  induction list generalizing acc with
  | nil => exact Or.inl member
  | cons first rest ih =>
    have one := disconnectTransaction_erased services node nHeight vtxundo first.2 first.1 acc
      erasure
    have widen : ErasedFrom services [first.1] erasure →
        ErasedFrom services ((first :: rest).map Prod.fst) erasure :=
      erasedFrom_mono services _ _ erasure (by simp)
    simp only [disconnectTransactions] at member
    split at member
    · rename_i next taken
      rw [taken] at one
      obtain before | later := ih next member
      · obtain old | here := one before
        · exact Or.inl old
        · exact Or.inr (widen here)
      · exact Or.inr (erasedFrom_mono services _ _ erasure (by simp) later)
    · obtain old | here := one member
      · exact Or.inl old
      · exact Or.inr (widen here)

/-- `DisconnectBlock` keeps the record of every serial number that no erased input of the block
spends. -/
theorem disconnectBlock_spends (block : CBlock) (pprev : CBlockIndex) (view : CCoinsView)
    (bnSerial : Int)
    (untouched : ∀ tx ∈ block.vtx, tx.hasZerocoinSpendInputs = true → ∀ txin ∈ tx.vin,
      erasesSpend txin = true → spentSerial services.lib txin ≠ some bnSerial) :
    (disconnectBlock services node block pprev view).1.spends bnSerial =
      node.zerocoinDB.spends bnSerial := by
  have kept : ∀ vtxundo, Erasure.spend bnSerial ∉
      (disconnectTransactions services node (pprev.nHeight + 1) vtxundo block.vtx.zipIdx.reverse
        { view := view, erased := [], fClean := true }).1.erased := by
    intro vtxundo member
    obtain old | erased := disconnectTransactions_erased services node _ vtxundo _ _ _ member
    · cases old
    · obtain ⟨tx, inBlock, zerocoin, txin, input, erases, serial⟩ := erased bnSerial rfl
      have present : tx ∈ block.vtx := by simpa using inBlock
      exact untouched tx present zerocoin txin input erases serial
  unfold disconnectBlock
  split
  · rfl
  · rename_i vtxundo _
    dsimp only
    split
    · exact eraseRecords_spends _ _ bnSerial (kept vtxundo)
    · dsimp only
      split_ifs
      · rw [eraseAccumulatorValues_spends]
        exact eraseRecords_spends _ _ bnSerial (kept vtxundo)
      · exact eraseRecords_spends _ _ bnSerial (kept vtxundo)

end Erased

end ZenonCore.Serials
