import ZenonCore.Library.OrderedStores
import ZenonCore.NetMessage
import ZenonCore.Primitives

/-!
# Wiping the coins of the zerocoin database

Records lie under a letter for their type and a hash. `WipeCoins` erases, for each record of a
type, the key made of the type and of the record's value.
-/

namespace ZenonCore.CoinWipe

open Script Primitives List
open NetMessage (writeLE writeLE_length)
open Library.OrderedStores

structure RawKey where
  bytes : Bytes
deriving DecidableEq

instance : LinearOrder RawKey :=
  LinearOrder.lift' (fun key => key.bytes.map UInt8.toNat) (by
    intro first second same
    have bytes : first.bytes = second.bytes :=
      List.map_injective_iff.mpr (fun _ _ => UInt8.toNat_inj.mp) same
    cases first
    cases second
    rw [RawKey.mk.injEq]
    exact bytes)

abbrev ZerocoinDB := OrderedStore RawKey Bytes

/-- What `WipeCoins` is asked to wipe. Other texts it refuses. -/
inductive CoinType
  | spends
  | mints
deriving DecidableEq, Repr

def CoinType.type : CoinType → UInt8
  | .spends => 0x73
  | .mints => 0x6d

def coinKey (strType : CoinType) (hash : Uint256) : RawKey :=
  ⟨strType.type :: writeLE 32 hash.toNat⟩

/-- `ssValue >> hash`, which throws where there are too few bytes. -/
def readHash (slValue : Bytes) : Option Uint256 :=
  if slValue.length < 32 then none else some (BitVec.ofNat 256 (readLE (slValue.take 32)))

def isOfType (strType : CoinType) (key : RawKey) : Bool :=
  decide (key.bytes.head? = some strType.type)

/-- `WriteCoinMintBatch` and `WriteCoinSpendBatch`, of hashed coins or serial
numbers and their transactions. -/
def writeCoins (strType : CoinType) (db : ZerocoinDB) (info : List (Uint256 × Uint256)) :
    ZerocoinDB :=
  info.foldl (fun db coin => db.write (coinKey strType coin.1) (writeLE 32 coin.2.toNat)) db

def eraseCoin (strType : CoinType) (db : ZerocoinDB) (hash : Uint256) : ZerocoinDB :=
  db.erase (coinKey strType hash)

/-- The loop over the records, up to the first of another type. -/
def collect (strType : CoinType) : List (RawKey × Bytes) → Option (List Uint256)
  | [] => some []
  | (slKey, slValue) :: rest =>
    match slKey.bytes with
    | [] => none
    | chType :: _ =>
      if chType = strType.type then do
        let hash ← readHash slValue
        let setDelete ← collect strType rest
        some (hash :: setDelete)
      else some []

def wipeCoins (strType : CoinType) (db : ZerocoinDB) : ZerocoinDB × Bool :=
  match collect strType (db.seek (coinKey strType 0)) with
  | none => (db, false)
  | some setDelete => (setDelete.foldl (eraseCoin strType) db, true)

/-- Of a type nothing is left, and what is not of the type is as it was. -/
structure WipesExactly (strType : CoinType) (db : ZerocoinDB) : Prop where
  wiped : ∀ record ∈ (wipeCoins strType db).1.records, isOfType strType record.1 = false
  others : ∀ record, isOfType strType record.1 = false →
    (record ∈ (wipeCoins strType db).1.records ↔ record ∈ db.records)

/-- Each record of the type has a transaction for its value, and some record has that value under
it. -/
def KeysAreValues (strType : CoinType) (db : ZerocoinDB) : Prop :=
  ∀ record ∈ db.records, isOfType strType record.1 = true →
    (readHash record.2).isSome ∧
      ∃ other ∈ db.records, isOfType strType other.1 = true ∧
        ∃ hash, readHash other.2 = some hash ∧ record.1 = coinKey strType hash

section Keys

theorem rawKey_lt (first second : RawKey) :
    first < second ↔ first.bytes.map UInt8.toNat < second.bytes.map UInt8.toNat := Iff.rfl

theorem rawKey_le (first second : RawKey) :
    first ≤ second ↔ ¬ second.bytes.map UInt8.toNat < first.bytes.map UInt8.toNat := not_lt.symm

variable (strType : CoinType)

theorem isOfType_coinKey (hash : Uint256) :
    isOfType strType (coinKey strType hash) = true := decide_eq_true rfl

theorem zeros_least (numbers : List Nat) (size : Nat) (long : size ≤ numbers.length) :
    ¬ numbers < replicate size 0 := by
  induction size generalizing numbers with
  | zero => exact not_lt_nil numbers
  | succ size ih =>
    cases numbers with
    | nil => cases long
    | cons first rest =>
      rw [replicate_succ, cons_lt_cons_iff]
      intro less
      obtain smaller | later := less
      · exact Nat.not_lt_zero first smaller
      · exact ih rest (Nat.le_of_succ_le_succ long) later.2

theorem writeLE_zero (size : Nat) : writeLE size 0 = replicate size 0 := by
  induction size with
  | zero => rfl
  | succ size ih =>
    rw [writeLE, Nat.zero_div, ih]
    rfl

theorem seek_before (hash : Uint256) :
    coinKey strType 0 ≤ coinKey strType hash := by
  rw [rawKey_le]
  unfold coinKey
  rw [map_cons, map_cons, cons_lt_cons_iff]
  intro less
  obtain smaller | later := less
  · exact Nat.lt_irrefl _ smaller
  · have zero : (0 : Uint256).toNat = 0 := rfl
    rw [zero, writeLE_zero, map_replicate] at later
    apply zeros_least _ _ _ later.2
    rw [length_map, writeLE_length]

/-- No key of another type comes between the start of the search and the type; each begins with a
letter. -/
theorem noGap (first second : RawKey) (begun : coinKey strType 0 ≤ first)
    (less : first < second) (ofType : isOfType strType second = true) :
    isOfType strType first = true := by
  unfold isOfType at ofType ⊢
  rw [decide_eq_true_eq] at ofType ⊢
  rw [rawKey_le] at begun
  rw [rawKey_lt] at less
  unfold coinKey at begun
  cases firstBytes : first.bytes with
  | nil =>
    rw [firstBytes] at begun
    exact absurd (nil_lt_cons _ _) begun
  | cons letter firstRest =>
    cases secondBytes : second.bytes with
    | nil =>
      rw [secondBytes] at ofType
      cases ofType
    | cons other secondRest =>
      rw [secondBytes] at ofType less
      rw [firstBytes] at begun less
      rw [map_cons, map_cons, cons_lt_cons_iff] at less
      rw [map_cons, map_cons, cons_lt_cons_iff, not_or] at begun
      have isType : other = strType.type := Option.some.inj ofType
      rw [isType] at less
      have above : ¬ letter.toNat < strType.type.toNat := begun.1
      have same : letter.toNat = strType.type.toNat := by
        obtain smaller | later := less
        · omega
        · exact later.1
      rw [head?_cons, UInt8.toNat_inj.mp same]

end Keys

section Reading

variable {α β : Type} {read : α → Option β}

theorem mapM_some (records : List α) (readable : ∀ record ∈ records, (read record).isSome) :
    ∃ values, records.mapM read = some values := by
  induction records with
  | nil => exact ⟨[], rfl⟩
  | cons record rest ih =>
    obtain ⟨value, isRead⟩ := Option.isSome_iff_exists.mp (readable record mem_cons_self)
    rcases ih fun other member => readable other (mem_cons_of_mem _ member) with
      ⟨values, areRead⟩
    refine ⟨value :: values, ?_⟩
    rw [mapM_cons, isRead, areRead]
    rfl

theorem mapM_reads {records : List α} {values : List β}
    (areRead : records.mapM read = some values) :
    (∀ record ∈ records, (read record).isSome) ∧
      ∀ value, value ∈ values ↔ ∃ record ∈ records, read record = some value := by
  induction records generalizing values with
  | nil =>
    cases areRead
    simp
  | cons record rest ih =>
    rw [mapM_cons] at areRead
    obtain ⟨first, isRead, others⟩ := Option.bind_eq_some_iff.mp areRead
    obtain ⟨later, laterRead, same⟩ := Option.bind_eq_some_iff.mp others
    rw [← Option.some.inj same]
    obtain ⟨readable, members⟩ := ih laterRead
    constructor
    · intro other member
      obtain here | isLater := mem_cons.mp member
      · rw [here, isRead]
        rfl
      · exact readable other isLater
    · intro value
      rw [mem_cons, members, exists_mem_cons_iff, isRead, Option.some_inj]
      exact or_congr eq_comm Iff.rfl

end Reading

section Wiping

variable (strType : CoinType)

/-- The records of the type from the beginning of the search on. -/
def scanned (db : ZerocoinDB) : List (RawKey × Bytes) :=
  (db.seek (coinKey strType 0)).takeWhile fun record => isOfType strType record.1

variable (db : ZerocoinDB)

variable (record : RawKey × Bytes)

theorem mem_scanned :
    record ∈ scanned strType db ↔ record ∈ db.records ∧ coinKey strType 0 ≤ record.1 ∧
      isOfType strType record.1 = true := by
  unfold scanned
  rw [OrderedStore.mem_takeWhile _ _ (OrderedStore.seek_ordered db _), OrderedStore.mem_seek,
    and_assoc]
  intro first firstIn second _ less ofType
  exact noGap strType first.1 second.1 ((OrderedStore.mem_seek db _ first).mp firstIn).2 less ofType

theorem scanned_key (found : record ∈ db.seek (coinKey strType 0)) : record.1.bytes ≠ [] := by
  intro none
  have begun := ((OrderedStore.mem_seek db _ record).mp found).2
  rw [rawKey_le, none] at begun
  exact begun (nil_lt_cons _ _)

theorem collect_cons (rest : List (RawKey × Bytes))
    (hasLetter : record.1.bytes ≠ []) :
    collect strType (record :: rest) =
      if isOfType strType record.1 then do
        let hash ← readHash record.2
        let setDelete ← collect strType rest
        some (hash :: setDelete)
      else some [] := by
  obtain ⟨⟨bytes⟩, value⟩ := record
  cases bytes with
  | nil => exact absurd rfl hasLetter
  | cons chType others =>
    have letter : isOfType strType ⟨chType :: others⟩ = decide (chType = strType.type) := by
      unfold isOfType
      rw [head?_cons]
      exact decide_eq_decide.mpr Option.some_inj
    rw [letter, collect]
    dsimp only
    by_cases same : chType = strType.type
    · rw [if_pos same, decide_eq_true same, if_pos rfl]
    · rw [if_neg same, decide_eq_false same, if_neg Bool.false_ne_true]

theorem collect_eq (records : List (RawKey × Bytes))
    (hasLetters : ∀ record ∈ records, record.1.bytes ≠ []) :
    collect strType records =
      (records.takeWhile fun record => isOfType strType record.1).mapM
        fun record => readHash record.2 := by
  induction records with
  | nil => rfl
  | cons record rest ih =>
    rw [collect_cons strType record rest (hasLetters record mem_cons_self),
      ih fun other member => hasLetters other (mem_cons_of_mem _ member),
      takeWhile_cons]
    cases isOfType strType record.1 with
    | false => rfl
    | true =>
      rw [if_pos rfl, if_pos rfl, mapM_cons]
      rfl

theorem collect_seek :
    collect strType (db.seek (coinKey strType 0)) =
      (scanned strType db).mapM fun record => readHash record.2 :=
  collect_eq strType _ (scanned_key strType db)

/-- The records that are left are those whose keys are not made of a value that was
collected. -/
theorem mem_wiped (setDelete : List Uint256) (db : ZerocoinDB) (record : RawKey × Bytes) :
    record ∈ (setDelete.foldl (eraseCoin strType) db).records ↔
      record ∈ db.records ∧ ∀ hash ∈ setDelete, record.1 ≠ coinKey strType hash := by
  have folded : setDelete.foldl (eraseCoin strType) db =
      (setDelete.map (coinKey strType)).foldl OrderedStore.erase db := by
    rw [foldl_map]
    rfl
  rw [folded, OrderedStore.mem_eraseAll, mem_map, not_exists]
  apply and_congr_right
  intro _
  constructor
  · intro none hash member same
    exact none hash ⟨member, same.symm⟩
  · intro none hash both
    exact none hash both.1 both.2.symm

theorem collects (keys : KeysAreValues strType db) :
    ∃ setDelete, collect strType (db.seek (coinKey strType 0)) = some setDelete := by
  rw [collect_seek]
  apply mapM_some
  intro record isScanned
  obtain ⟨member, _, ofType⟩ := (mem_scanned strType db record).mp isScanned
  exact (keys record member ofType).1

theorem wipeCoins_collected (setDelete : List Uint256)
    (collected : collect strType (db.seek (coinKey strType 0)) = some setDelete) :
    (wipeCoins strType db).1 = setDelete.foldl (eraseCoin strType) db := by
  rw [wipeCoins, collected]

theorem scanned_of_coinKey (member : record ∈ db.records) (hash : Uint256) (isCoin : record.1 = coinKey strType hash) :
    record ∈ scanned strType db := by
  rw [mem_scanned, isCoin]
  exact ⟨member, seek_before strType hash, isOfType_coinKey strType hash⟩

theorem keysAreValues_of_wipes (wipes : WipesExactly strType db) :
    KeysAreValues strType db := by
  intro record member ofType
  cases collected : collect strType (db.seek (coinKey strType 0)) with
  | none =>
    have left := wipes.wiped record (by
      rw [wipeCoins, collected]
      exact member)
    rw [ofType] at left
    cases left
  | some setDelete =>
    have filed : ∃ hash ∈ setDelete, record.1 = coinKey strType hash := by
      by_contra none
      have left := wipes.wiped record (by
        rw [wipeCoins_collected strType db setDelete collected, mem_wiped]
        exact ⟨member, fun hash isDeleted same => none ⟨hash, isDeleted, same⟩⟩)
      rw [ofType] at left
      cases left
    rw [collect_seek] at collected
    obtain ⟨readable, members⟩ := mapM_reads collected
    obtain ⟨hash, isDeleted, isCoin⟩ := filed
    refine ⟨readable record (scanned_of_coinKey strType db record member hash isCoin), ?_⟩
    obtain ⟨other, isScanned, value⟩ := (members hash).mp isDeleted
    obtain ⟨otherMember, _, otherType⟩ := (mem_scanned strType db other).mp isScanned
    exact ⟨other, otherMember, otherType, hash, value, isCoin⟩

theorem wipes_of_keysAreValues (keys : KeysAreValues strType db) :
    WipesExactly strType db := by
  obtain ⟨setDelete, collected⟩ := collects strType db keys
  have wiped := wipeCoins_collected strType db setDelete collected
  rw [collect_seek] at collected
  have members := (mapM_reads collected).2
  constructor
  · intro record left
    rw [wiped, mem_wiped] at left
    rw [Bool.eq_false_iff]
    intro ofType
    obtain ⟨other, member, otherType, hash, value, isCoin⟩ := (keys record left.1 ofType).2
    obtain ⟨_, _, _, otherHash, _, otherCoin⟩ := (keys other member otherType).2
    have isScanned := scanned_of_coinKey strType db other member otherHash otherCoin
    exact left.2 hash ((members hash).mpr ⟨other, isScanned, value⟩) isCoin
  · intro record otherType
    rw [wiped, mem_wiped]
    constructor
    · exact And.left
    · intro member
      refine ⟨member, fun hash _ isCoin => ?_⟩
      rw [isCoin, isOfType_coinKey] at otherType
      cases otherType

end Wiping

/-- `WipeCoins` wipes a type exactly if and only if every record of the type is
filed under a value of one. -/
theorem wipes_exactly_iff (strType : CoinType) (db : ZerocoinDB) :
    WipesExactly strType db ↔ KeysAreValues strType db :=
  ⟨keysAreValues_of_wipes strType db, wipes_of_keysAreValues strType db⟩

/-- A database with one mint, of the coin with the hash seven in the transaction
nine. -/
def oneMint : ZerocoinDB := writeCoins .mints .empty [(7, 9)]

/-- The mint is still there after the mints were wiped. -/
theorem mint_survives : ¬ ∀ (strType : CoinType) (db : ZerocoinDB), WipesExactly strType db := by
  intro exact
  have wiped := (exact .mints oneMint).wiped (coinKey .mints 7, writeLE 32 9) (by decide +kernel)
  rw [isOfType_coinKey] at wiped
  cases wiped

end ZenonCore.CoinWipe
