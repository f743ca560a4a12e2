import ZenonCore.CoinsRoundTrip
import ZenonCore.VerifyDB

/-!
# A block that cannot be disconnected

`DisconnectBlock` erases zerocoin records before it finds out whether the transactions can be
undone.
-/

namespace ZenonCore.DisconnectAtomicity

open Primitives Coins Chain Validation List
open Zerocoin Chainstate DisconnectBlock CoinsRoundTrip
open VerifyDB ChainTip ValueGate Script

/-- Whether `DisconnectBlock` returns false: without `pfClean` it returns
whether the undo data fitted. -/
def returnsFalse (pfClean : Bool) : Validated (CCoinsView × Bool) → Bool
  | .ok (_, fClean) => !pfClean && !fClean
  | .error (.rejected _) => true
  | .error _ => false

def readBefore : List (Validated Erasure) → List Erasure
  | .ok record :: rest => record :: readBefore rest
  | _ => []

def ReadIn (reads : List (Validated Erasure)) (record : Erasure) : Prop :=
  ∃ front rest, reads = front ++ .ok record :: rest ∧ ∀ read ∈ front, ∃ other, read = .ok other

theorem mem_readBefore (reads : List (Validated Erasure)) (record : Erasure) :
    record ∈ readBefore reads ↔ ReadIn reads record := by
  induction reads with
  | nil =>
    apply iff_of_false not_mem_nil
    rintro ⟨front, rest, whole, _⟩
    cases front <;> cases whole
  | cons first others ih =>
    cases first with
    | error failure =>
      apply iff_of_false not_mem_nil
      rintro ⟨front, rest, whole, each⟩
      cases front with
      | nil => cases whole
      | cons head tail =>
        obtain ⟨other, isOk⟩ := each head mem_cons_self
        rw [isOk] at whole
        cases whole
    | ok value =>
      simp only [readBefore, mem_cons, ih]
      constructor
      · intro member
        obtain same | ⟨front, rest, whole, each⟩ := member
        · exact ⟨[], others, by rw [same]; rfl, fun _ absent => by cases absent⟩
        · refine ⟨.ok value :: front, rest, by rw [whole]; rfl, fun read member => ?_⟩
          obtain isFirst | later := mem_cons.mp member
          · exact ⟨value, isFirst⟩
          · exact each read later
      · intro isRead
        obtain ⟨front, rest, whole, each⟩ := isRead
        cases front with
        | nil =>
          cases whole
          exact Or.inl rfl
        | cons head tail =>
          cases whole
          exact Or.inr ⟨tail, rest, rfl, fun read member =>
            each read (mem_cons_of_mem _ member)⟩

theorem readBefore_append (first second : List (Validated Erasure)) :
    ((∀ read ∈ first, ∃ record, read = .ok record) ∧
      readBefore (first ++ second) = readBefore first ++ readBefore second) ∨
    ((¬ ∀ read ∈ first, ∃ record, read = .ok record) ∧
      readBefore (first ++ second) = readBefore first) := by
  induction first with
  | nil => exact Or.inl ⟨fun _ absent => (by cases absent), rfl⟩
  | cons head tail ih =>
    cases head with
    | error failure =>
      right
      refine ⟨fun each => ?_, rfl⟩
      obtain ⟨record, isOk⟩ := each _ mem_cons_self
      cases isOk
    | ok value =>
      obtain ⟨each, both⟩ | ⟨stopped, same⟩ := ih
      · left
        refine ⟨fun read member => ?_, congrArg (cons value) both⟩
        obtain isFirst | later := mem_cons.mp member
        · exact ⟨value, isFirst⟩
        · exact each read later
      · right
        exact ⟨fun each => stopped fun read member => each read (mem_cons_of_mem _ member),
          congrArg (cons value) same⟩

section Loop

variable (services : Services) (node : NodeState)

def readSpendRecord (tx : CTransaction) (txin : CTxIn) : Validated Erasure :=
  (readSpend services node tx txin).map fun spend =>
    .spend spend.coinSpend.coinSerialNumber

def readMintRecord (txout : CTxOut) : Validated Erasure :=
  (readMint txout).map fun pubCoin => .mint pubCoin.value

def spendReads (tx : CTransaction) : List (Validated Erasure) :=
  if tx.hasZerocoinSpendInputs then
    (tx.vin.filter erasesSpend).map (readSpendRecord services node tx)
  else []

def mintReads (tx : CTransaction) : List (Validated Erasure) :=
  (tx.vout.filter CTxOut.isZerocoinMint).map readMintRecord

/-- The records of a transaction in the order in which they are read. -/
def recordReads (tx : CTransaction) : List (Validated Erasure) :=
  spendReads services node tx ++ mintReads tx

theorem map_eq_ok {α β : Type} (result : Validated α) (f : α → β) :
    (∃ value, result.map f = .ok value) ↔ ∃ value, result = .ok value := by
  cases result with
  | error failure =>
    constructor
    · rintro ⟨value, found⟩
      cases found
    · rintro ⟨value, found⟩
      cases found
  | ok value => exact iff_of_true ⟨f value, rfl⟩ ⟨value, rfl⟩

variable (tx : CTransaction)

theorem eraseSpends_erases (vin : List CTxIn) (acc : Disconnecting) :
    (eraseSpends services node tx vin acc).1.erased = acc.erased ++
      readBefore ((vin.filter erasesSpend).map (readSpendRecord services node tx)) := by
  induction vin generalizing acc with
  | nil => exact (append_nil _).symm
  | cons txin rest ih =>
    simp only [eraseSpends]
    by_cases erases : erasesSpend txin = true
    · rw [if_pos erases, filter_cons_of_pos erases, map_cons]
      cases found : readSpend services node tx txin with
      | error failure =>
        have unread : readSpendRecord services node tx txin = .error failure := by
          rw [readSpendRecord, found]
          rfl
        rw [unread]
        cases failure <;> exact (append_nil _).symm
      | ok spend =>
        have read : readSpendRecord services node tx txin =
            .ok (.spend spend.coinSpend.coinSerialNumber) := by
          rw [readSpendRecord, found]
          rfl
        rw [read]
        simp only [asRefusal, ih, readBefore, append_assoc, singleton_append]
    · rw [if_neg erases, filter_cons_of_neg erases]
      exact ih acc

theorem eraseMints_erases (vout : List CTxOut) (acc : Disconnecting) :
    (eraseMints vout acc).1.erased = acc.erased ++
      readBefore ((vout.filter CTxOut.isZerocoinMint).map readMintRecord) := by
  induction vout generalizing acc with
  | nil => exact (append_nil _).symm
  | cons txout rest ih =>
    simp only [eraseMints]
    by_cases mints : txout.isZerocoinMint = true
    · rw [if_pos mints, filter_cons_of_pos mints, map_cons]
      cases found : readMint txout with
      | error failure =>
        have unread : readMintRecord txout = .error failure := by
          rw [readMintRecord, found]
          rfl
        rw [unread]
        exact (append_nil _).symm
      | ok pubCoin =>
        have read : readMintRecord txout = .ok (.mint pubCoin.value) := by
          rw [readMintRecord, found]
          rfl
        rw [read]
        simp only [ih, readBefore, append_assoc, singleton_append]
    · rw [if_neg mints, filter_cons_of_neg mints]
      exact ih acc

def AllRead (reads : List (Validated Erasure)) : Prop := ∀ read ∈ reads, ∃ record, read = .ok record

theorem allRead_spends :
    AllRead (spendReads services node tx) ↔ (tx.hasZerocoinSpendInputs = true → ∀ txin ∈ tx.vin,
      erasesSpend txin = true → ∃ spend, readSpend services node tx txin = .ok spend) := by
  unfold AllRead spendReads
  split
  · rename_i zerocoin
    simp only [forall_mem_map, mem_filter, and_imp, readSpendRecord, map_eq_ok, zerocoin,
      true_implies]
  · rename_i plain
    exact iff_of_true (fun _ absent => by cases absent) fun zerocoin => absurd zerocoin plain

theorem allRead_mints :
    AllRead (mintReads tx) ↔ ∀ txout ∈ tx.vout, txout.isZerocoinMint = true →
      ∃ pubCoin, readMint txout = .ok pubCoin := by
  unfold AllRead mintReads
  simp only [forall_mem_map, mem_filter, and_imp, readMintRecord, map_eq_ok]

theorem erasesSpends (acc : Disconnecting) :
    ∃ after result, (if tx.hasZerocoinSpendInputs then eraseSpends services node tx tx.vin acc
        else (acc, .ok ())) = (after, result) ∧
      after.erased = acc.erased ++ readBefore (spendReads services node tx) ∧
      (result = .ok () ↔ AllRead (spendReads services node tx)) := by
  rw [allRead_spends]
  unfold spendReads
  split
  · rename_i zerocoin
    refine ⟨_, _, rfl, eraseSpends_erases services node tx tx.vin acc, ?_⟩
    rw [(eraseSpends_ok_iff services node tx tx.vin acc).2]
    exact ⟨fun all _ => all, fun all => all zerocoin⟩
  · rename_i plain
    exact ⟨_, _, rfl, (append_nil _).symm,
      iff_of_true rfl fun zerocoin => absurd zerocoin plain⟩

theorem erasesMints (acc : Disconnecting) :
    ∃ after result, (if tx.hasZerocoinMintOutputs then eraseMints tx.vout acc
        else (acc, .ok ())) = (after, result) ∧
      after.erased = acc.erased ++ readBefore (mintReads tx) ∧
      (result = .ok () ↔ AllRead (mintReads tx)) := by
  rw [allRead_mints]
  unfold mintReads
  split
  · exact ⟨_, _, rfl, eraseMints_erases tx.vout acc, (eraseMints_ok_iff tx.vout acc).2⟩
  · rename_i plain
    have none : tx.zerocoinOutputs = [] := (zerocoinOutputs_eq_nil tx).mpr (by simpa using plain)
    unfold CTransaction.zerocoinOutputs at none
    rw [none]
    refine ⟨_, _, rfl, (append_nil _).symm, iff_of_true rfl fun txout member mints => ?_⟩
    exact absurd (any_eq_true.mpr ⟨txout, member, mints⟩) plain

/-- The transaction can be undone: its records can be read, and the undo data
has an entry for each of its inputs. -/
structure Undoable (vtxundo : List (List CTxInUndo)) (one : CTransaction × Nat) : Prop where
  spends : AllRead (spendReads services node one.1)
  mints : AllRead (mintReads one.1)
  fits : hasOrdinaryInputs one.1 = true →
    (vtxundo.getD (one.2 - 1) []).length = one.1.vin.length

variable (nHeight : Int) (vtxundo : List (List CTxInUndo))

theorem readBefore_of_allRead {first second : List (Validated Erasure)} (all : AllRead first) :
    readBefore (first ++ second) = readBefore first ++ readBefore second := by
  obtain ⟨_, both⟩ | ⟨stopped, _⟩ := readBefore_append first second
  · exact both
  · exact absurd all stopped

theorem readBefore_of_not_allRead {first second : List (Validated Erasure)}
    (stops : ¬ AllRead first) : readBefore (first ++ second) = readBefore first := by
  obtain ⟨all, _⟩ | ⟨_, same⟩ := readBefore_append first second
  · exact absurd all stops
  · exact same

/-- A round erases what it reads before the first failure, and goes through
exactly if the transaction can be undone. -/
theorem disconnectTransaction_spec (i : Nat) (tx : CTransaction) (acc : Disconnecting) :
    ∃ next result, disconnectTransaction services node nHeight vtxundo i tx acc = (next, result) ∧
      next.erased = acc.erased ++ readBefore (recordReads services node tx) ∧
      (result = .ok () ↔ Undoable services node vtxundo (tx, i)) := by
  unfold disconnectTransaction recordReads
  rcases erasesSpends services node tx acc with
    ⟨afterSpends, spendsResult, foundSpends, spendsErased, spendsOk⟩
  rw [foundSpends]
  cases spendsResult with
  | error failure =>
    have stops : ¬ AllRead (spendReads services node tx) := by
      intro all
      cases spendsOk.mpr all
    refine ⟨_, _, rfl, ?_, iff_of_false (fun same => by cases same) fun undoable =>
      stops undoable.spends⟩
    rw [readBefore_of_not_allRead stops]
    exact spendsErased
  | ok done =>
    rw [readBefore_of_allRead (spendsOk.mp rfl)]
    rcases erasesMints tx afterSpends with
      ⟨afterMints, mintsResult, foundMints, mintsErased, mintsOk⟩
    simp only [foundMints]
    have erased : afterMints.erased = acc.erased ++
        (readBefore (spendReads services node tx) ++ readBefore (mintReads tx)) := by
      rw [mintsErased, spendsErased, append_assoc]
    cases mintsResult with
    | error failure =>
      refine ⟨_, _, rfl, erased, iff_of_false (fun same => by cases same) fun undoable => ?_⟩
      cases mintsOk.mpr undoable.mints
    | ok done =>
      simp only
      split
      · rename_i ordinary
        split
        · rename_i differs
          exact ⟨_, _, rfl, erased, iff_of_false (fun same => by cases same)
            fun undoable => differs (undoable.fits ordinary)⟩
        · rename_i same
          refine ⟨_, _, rfl, ?_, iff_of_true rfl ⟨spendsOk.mp rfl, mintsOk.mp rfl,
            fun _ => not_not.mp same⟩⟩
          rw [Serials.restoreInputs_erased]
          exact erased
      · rename_i special
        exact ⟨_, _, rfl, erased, iff_of_true rfl ⟨spendsOk.mp rfl, mintsOk.mp rfl,
          fun ordinary => absurd ordinary special⟩⟩

/-- The records the loop gets to, over the transactions from the last on. -/
def ReachedIn (list : List (CTransaction × Nat)) (record : Erasure) : Prop :=
  ∃ newer one older, list = newer ++ one :: older ∧
    (∀ other ∈ newer, Undoable services node vtxundo other) ∧
    ReadIn (recordReads services node one.1) record

theorem reachedIn_cons (one : CTransaction × Nat) (rest : List (CTransaction × Nat))
    (record : Erasure) :
    ReachedIn services node vtxundo (one :: rest) record ↔
      ReadIn (recordReads services node one.1) record ∨
        Undoable services node vtxundo one ∧ ReachedIn services node vtxundo rest record := by
  constructor
  · rintro ⟨newer, last, older, whole, undone, isRead⟩
    cases newer with
    | nil =>
      cases whole
      exact Or.inl isRead
    | cons head tail =>
      cases whole
      exact Or.inr ⟨undone _ mem_cons_self, tail, last, older, rfl,
        fun other member => undone other (mem_cons_of_mem _ member), isRead⟩
  · intro either
    obtain isRead | ⟨undoable, newer, last, older, whole, undone, isRead⟩ := either
    · exact ⟨[], one, rest, rfl, fun _ absent => (by cases absent), isRead⟩
    · refine ⟨one :: newer, last, older, by rw [whole]; rfl, fun other member => ?_, isRead⟩
      obtain isFirst | later := mem_cons.mp member
      · rw [isFirst]
        exact undoable
      · exact undone other later

theorem disconnectTransactions_reached (list : List (CTransaction × Nat)) (acc : Disconnecting)
    (record : Erasure) :
    record ∈ (disconnectTransactions services node nHeight vtxundo list acc).1.erased ↔
      record ∈ acc.erased ∨ ReachedIn services node vtxundo list record := by
  induction list generalizing acc with
  | nil =>
    have nothing : ¬ ReachedIn services node vtxundo [] record := by
      rintro ⟨newer, one, older, whole, _⟩
      cases newer <;> cases whole
    simp only [disconnectTransactions, nothing, or_false]
  | cons one rest ih =>
    rcases disconnectTransaction_spec services node nHeight vtxundo one.2 one.1 acc with
      ⟨next, result, found, erased, undoable⟩
    rw [reachedIn_cons, ← mem_readBefore, ← or_assoc, ← mem_append, ]
    simp only [disconnectTransactions, found]
    cases result with
    | error failure =>
      have stopped : ¬ Undoable services node vtxundo one := fun all => by
        cases undoable.mpr all
      simp only [erased, mem_append, stopped, false_and, or_false]
    | ok done =>
      simp only [ih, erased, mem_append, undoable.mp rfl, true_and, or_assoc]

end Loop

section Block

variable (services : Services) (node : NodeState) (block : CBlock) (pprev : CBlockIndex)
  (view : CCoinsView)

/-- The records that `DisconnectBlock` gets to: those read behind transactions that can all be
undone. -/
def Reached (record : Erasure) : Prop :=
  ∃ vtxundo, undoData node block view = .ok vtxundo ∧
    ReachedIn services node vtxundo block.vtx.zipIdx.reverse record

theorem mem_erasedRecords (record : Erasure) :
    record ∈ erasedRecords services node block pprev view ↔
      Reached services node block view record := by
  unfold erasedRecords Reached
  cases undoData node block view with
  | error failure =>
    apply iff_of_false not_mem_nil
    rintro ⟨vtxundo, impossible, _⟩
    cases impossible
  | ok vtxundo =>
    simp only [disconnectTransactions_reached, not_mem_nil, false_or, Except.ok.injEq,
      exists_eq_left']

theorem sameRecords_iff_unreached :
    SameRecords node.zerocoinDB (disconnectBlock services node block pprev view).1 ↔
      ∀ record, Reached services node block view record →
        recorded node.zerocoinDB record = false := by
  unfold SameRecords
  simp only [disconnectBlock_recorded, mem_erasedRecords, Bool.and_eq_left_iff_imp,
    decide_eq_true_eq]
  apply forall_congr'
  intro record
  cases recorded node.zerocoinDB record with
  | false => simp
  | true => simp

/-- If `DisconnectBlock` returns false, the zerocoin database keeps its records
exactly if none of those it reached was there. -/
theorem failed_disconnect_keeps_records_iff (pfClean : Bool) :
    returnsFalse pfClean (disconnectBlock services node block pprev view).2 = true →
      (SameRecords node.zerocoinDB (disconnectBlock services node block pprev view).1 ↔
        ∀ record, Reached services node block view record →
          recorded node.zerocoinDB record = false) :=
  fun _ => sameRecords_iff_unreached services node block pprev view

end Block

/-- A node whose tip is the block with the mint. The mint is recorded, but the
coins of its transaction are missing. -/
def damagedNode (undoThere : Bool) : NodeState :=
  { mintedNode with
    pcoinsTip := { hashBlock := 101, coins := fun _ => none }
    zerocoinDB :=
      { CZerocoinDB.empty with mints := fun bnPubcoin => if bnPubcoin = 5 then some 11 else none }
    blockUndo := fun hash =>
      if hash = 101 ∧ undoThere then
        some [[{ txout := { nValue := 10 * coin, scriptPubKey := [op1] }
                 fCoinBase := false
                 fCoinStake := false
                 nHeight := 1
                 nVersion := 1 }]]
      else none }

/-- The undo data does not fit, so the tip cannot be disconnected, and the mint
is gone. -/
theorem damaged_tip_loses_a_mint :
    ¬ ∀ (services : Services) (node : NodeState) (block : CBlock) (pprev : CBlockIndex)
        (view : CCoinsView) (pfClean : Bool),
      returnsFalse pfClean (disconnectBlock services node block pprev view).2 = true →
      SameRecords node.zerocoinDB (disconnectBlock services node block pprev view).1 := by
  intro atomic
  have same := atomic mainnetServices (damagedNode true) mintBlock [genesisBlock]
    (damagedNode true).pcoinsTip false (by decide +kernel) (.mint 5)
  exact absurd same (by decide +kernel)

theorem missing_undo_keeps_the_mint :
    SameRecords (damagedNode false).zerocoinDB
      (disconnectBlock mainnetServices (damagedNode false) mintBlock [genesisBlock]
        (damagedNode false).pcoinsTip).1 := by
  apply (failed_disconnect_keeps_records_iff mainnetServices (damagedNode false) mintBlock
    [genesisBlock] (damagedNode false).pcoinsTip false (by decide +kernel)).mpr
  rintro record ⟨vtxundo, found, _⟩
  have missing : (undoData (damagedNode false) mintBlock (damagedNode false).pcoinsTip).toOption =
      none := by
    decide +kernel
  rw [found] at missing
  cases missing

end ZenonCore.DisconnectAtomicity
