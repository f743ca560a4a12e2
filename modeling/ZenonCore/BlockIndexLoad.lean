import ZenonCore.BlockIndexDisk

/-!
# Loading the block index

`LoadBlockIndexGuts`: an entry is there from the first record that mentions its hash, and is
filled by its own.
-/

namespace ZenonCore.BlockIndexLoad

open BlockIndexDisk Primitives Script Serialize List
open ChainParams (CChainParams)
open MoneySupply (SupplyServices)

abbrev BlockIndex := Uint256 → Option BlockIndexEntry

structure IndexServices extends SupplyServices where
  hashes : HeaderHashes

section Loading

variable (services : IndexServices)

def insertBlockIndex (hash : Uint256) (index : BlockIndex) : Option Uint256 × BlockIndex :=
  if hash = 0 then (none, index)
  else if (index hash).isSome then (some hash, index)
  else (some hash, Function.update index hash (some BlockIndexEntry.null))

def fill (params : CChainParams) (diskindex : CDiskBlockIndex) (pprev : Option Uint256)
    (pindexNew : BlockIndexEntry) : BlockIndexEntry :=
  { pindexNew with
    pprev := pprev
    nHeight := diskindex.nHeight
    nFile := diskindex.nFile
    nDataPos := diskindex.nDataPos
    nUndoPos := diskindex.nUndoPos
    nVersion := diskindex.nVersion
    hashMerkleRoot := diskindex.hashMerkleRoot
    nTime := diskindex.nTime
    nBits := diskindex.nBits
    nNonce := diskindex.nNonce
    nStatus := diskindex.nStatus
    nTx := diskindex.nTx
    nAccumulatorCheckpoint := diskindex.nAccumulatorCheckpoint
    mapZerocoinSupply := diskindex.mapZerocoinSupply
    vMintDenominationsInBlock := diskindex.vMintDenominationsInBlock
    nMint := diskindex.nMint
    nMoneySupply := diskindex.nMoneySupply
    nFlags := diskindex.nFlags
    nStakeModifier :=
      if !params.isStakeModifierV2 diskindex.nHeight then diskindex.nStakeModifier
      else pindexNew.nStakeModifier
    nStakeModifierV2 :=
      if params.isStakeModifierV2 diskindex.nHeight then diskindex.nStakeModifierV2
      else pindexNew.nStakeModifierV2
    prevoutStake := diskindex.prevoutStake
    nStakeTime := diskindex.nStakeTime
    hashProofOfStake := diskindex.hashProofOfStake }

/-- Why loading ends: a record cannot be read, a header hashes to zero, or a
proof-of-work block does not meet its target. -/
inductive LoadError
  | deserialize
  | nullPointer
  | checkProofOfWork (hash : Uint256)
deriving DecidableEq, Repr

/-- One round of the loop, behind the reading of the record. -/
def loadEntry (diskindex : CDiskBlockIndex) (index : BlockIndex) : Except LoadError BlockIndex :=
  match insertBlockIndex (diskindex.getBlockHash services.hashes) index with
  | (none, _) => .error .nullPointer
  | (some pindexNew, inserted) =>
    let previous := insertBlockIndex diskindex.hashPrev inserted
    let withNext := (insertBlockIndex diskindex.hashNext previous.2).2
    let entry := fill services.params diskindex previous.1
      ((withNext pindexNew).getD BlockIndexEntry.null)
    if (entry.nHeight : Int) ≤ services.params.nLastPOWBlock ∧
        services.checkProofOfWork pindexNew entry.nBits = false then
      .error (.checkProofOfWork pindexNew)
    else .ok (Function.update withNext pindexNew (some entry))

def loadRecord (index : BlockIndex) (ssValue : Bytes) : Except LoadError BlockIndex :=
  match (CDiskBlockIndex.read services.params).run ssValue with
  | none => .error .deserialize
  | some (diskindex, _) => loadEntry services diskindex index

def loadBlockIndexGuts (records : List Bytes) : Except LoadError BlockIndex :=
  records.foldlM (loadRecord services) fun _ => none

def recordOf (entry : BlockIndexEntry) : Bytes :=
  (CDiskBlockIndex.ofEntry entry).write services.params

end Loading

section Restored

variable (services : IndexServices)

def keyOf (entry : BlockIndexEntry) : Uint256 :=
  services.hashes.getHash entry.nVersion (entry.pprev.getD 0) entry.hashMerkleRoot entry.nTime
    entry.nBits entry.nNonce entry.nAccumulatorCheckpoint

/-- An entry can be written and found again, under the key of its header and with its predecessor.
-/
structure Findable (index : BlockIndex) (hash : Uint256) (entry : BlockIndexEntry) : Prop where
  storable : Storable entry
  key : keyOf services entry = hash
  nonzero : hash ≠ 0
  parent : ∀ prev ∈ entry.pprev, prev ≠ 0 ∧ (index prev).isSome = true

/-- Every block up to the last one of proof of work meets its target. -/
def MeetsTarget (hash : Uint256) (entry : BlockIndexEntry) : Prop :=
  (entry.nHeight : Int) ≤ services.params.nLastPOWBlock →
    services.checkProofOfWork hash entry.nBits = true

/-- A state of loading: the entries whose records have been read are restored,
the others are missing or new. -/
def Partly (index loaded : BlockIndex) (done : List Uint256) : Prop :=
  ∀ hash,
    if hash ∈ done then loaded hash = (index hash).map (stored services.params)
    else loaded hash = none ∨ loaded hash = some BlockIndexEntry.null ∧ (index hash).isSome = true

theorem insertBlockIndex_spec (hash : Uint256) (index : BlockIndex) (nonzero : hash ≠ 0) :
    ∃ after, insertBlockIndex hash index = (some hash, after) ∧
      after hash = some ((index hash).getD BlockIndexEntry.null) ∧
      ∀ other, other ≠ hash → after other = index other := by
  unfold insertBlockIndex
  rw [if_neg nonzero]
  cases found : index hash with
  | some entry =>
    refine ⟨index, ?_, ?_, fun other _ => rfl⟩
    · rw [Option.isSome_some, if_pos rfl]
    · exact found
  | none =>
    refine ⟨Function.update index hash (some BlockIndexEntry.null), ?_, ?_, ?_⟩
    · rw [Option.isSome_none, if_neg Bool.false_ne_true]
    · rw [Function.update_self]
      rfl
    · intro other different
      exact Function.update_of_ne different _ _

theorem stored_key (entry : BlockIndexEntry) (prev : Uint256) :
    services.hashes.getHash entry.nVersion prev entry.hashMerkleRoot entry.nTime entry.nBits
        entry.nNonce (stored services.params entry).nAccumulatorCheckpoint =
      services.hashes.getHash entry.nVersion prev entry.hashMerkleRoot entry.nTime entry.nBits
        entry.nNonce entry.nAccumulatorCheckpoint := by
  by_cases zerocoin : entry.hasZerocoin = true
  · have same : (stored services.params entry).nAccumulatorCheckpoint =
        entry.nAccumulatorCheckpoint := if_pos zerocoin
    rw [same]
  · apply services.hashes.getHash_checkpoint
    simpa [BlockIndexEntry.hasZerocoin] using zerocoin

theorem fill_null (entry : BlockIndexEntry) (prev next : Uint256) :
    fill services.params
        { stored services.params entry with pprev := none, hashPrev := prev, hashNext := next }
        entry.pprev BlockIndexEntry.null =
      stored services.params entry := by
  unfold fill stored
  cases version : services.params.isStakeModifierV2 entry.nHeight with
  | true => simp [BlockIndexEntry.null]
  | false => simp [BlockIndexEntry.null]

theorem Partly.mention {services : IndexServices} {index loaded after : BlockIndex}
    {done : List Uint256} (partly : Partly services index loaded done) (hash : Uint256)
    (present : (index hash).isSome = true)
    (here : after hash = some ((loaded hash).getD BlockIndexEntry.null))
    (others : ∀ other, other ≠ hash → after other = loaded other) :
    Partly services index after done := by
  intro other
  by_cases same : other = hash
  · rw [same, here]
    have before := partly hash
    split_ifs at before ⊢ with isDone
    · rw [before]
      obtain ⟨entry, found⟩ := Option.isSome_iff_exists.mp present
      rw [found]
      rfl
    · obtain none | ⟨null, _⟩ := before
      · rw [none]
        exact Or.inr ⟨rfl, present⟩
      · rw [null]
        exact Or.inr ⟨rfl, present⟩
  · rw [others other same]
    exact partly other

variable (index loaded : BlockIndex) (done : List Uint256)

theorem insert_previous (partly : Partly services index loaded done) (pprev : Option Uint256)
    (parent : ∀ prev ∈ pprev, prev ≠ 0 ∧ (index prev).isSome = true) :
    (insertBlockIndex (pprev.getD 0) loaded).1 = pprev ∧
      Partly services index (insertBlockIndex (pprev.getD 0) loaded).2 done ∧
      ∀ hash entry, loaded hash = some entry →
        (insertBlockIndex (pprev.getD 0) loaded).2 hash = some entry := by
  cases pprev with
  | none =>
    have null : insertBlockIndex ((none : Option Uint256).getD 0) loaded = (none, loaded) :=
      if_pos rfl
    rw [null]
    exact ⟨rfl, partly, fun _ _ found => found⟩
  | some prev =>
    obtain ⟨nonzero, present⟩ := parent prev rfl
    obtain ⟨after, inserted, here, others⟩ := insertBlockIndex_spec prev loaded nonzero
    rw [Option.getD_some, inserted]
    refine ⟨rfl, partly.mention prev present here others, ?_⟩
    intro hash entry found
    dsimp only
    by_cases same : hash = prev
    · rw [same] at found ⊢
      rw [here, found]
      rfl
    · rw [others hash same, found]

theorem loadRecord_restores (hash : Uint256)
    (entry : BlockIndexEntry) (partly : Partly services index loaded done)
    (found : index hash = some entry) (new : hash ∉ done)
    (findable : Findable services index hash entry) (meets : MeetsTarget services hash entry) :
    ∃ after, loadRecord services loaded (recordOf services entry) = .ok after ∧
      Partly services index after (hash :: done) := by
  have read := read_write services.params entry findable.storable []
  rw [append_nil] at read
  unfold loadRecord recordOf
  rw [read]
  dsimp only
  unfold loadEntry
  have key : CDiskBlockIndex.getBlockHash services.hashes
      { stored services.params entry with
        pprev := none
        hashPrev := entry.pprev.getD 0
        hashNext := 0 } = hash :=
    (stored_key services entry (entry.pprev.getD 0)).trans findable.key
  rw [key]
  obtain ⟨inserted, own, here, others⟩ := insertBlockIndex_spec hash loaded findable.nonzero
  rw [own]
  dsimp only
  have present : (index hash).isSome = true := by
    rw [found]
    rfl
  have first := partly.mention hash present here others
  rcases insert_previous services index inserted done first entry.pprev findable.parent with
    ⟨pointer, second, kept⟩
  have withNext : insertBlockIndex 0 (insertBlockIndex (entry.pprev.getD 0) inserted).2 =
      (none, (insertBlockIndex (entry.pprev.getD 0) inserted).2) := if_pos rfl
  have blank : inserted hash = some BlockIndexEntry.null := by
    have before := partly hash
    rw [if_neg new] at before
    obtain none | ⟨null, _⟩ := before
    · rw [here, none]
      rfl
    · rw [here, null]
      rfl
  rw [withNext, pointer, kept hash BlockIndexEntry.null blank, Option.getD_some, fill_null]
  have passes : ¬ (((stored services.params entry).nHeight : Int) ≤ services.params.nLastPOWBlock ∧
      services.checkProofOfWork hash (stored services.params entry).nBits = false) := by
    intro fails
    have target := meets fails.1
    rw [show services.checkProofOfWork hash entry.nBits = false from fails.2] at target
    cases target
  rw [if_neg passes]
  refine ⟨_, rfl, ?_⟩
  intro other
  by_cases same : other = hash
  · rw [same, if_pos mem_cons_self, Function.update_self, found]
    rfl
  · rw [Function.update_of_ne same]
    have before := second other
    by_cases isDone : other ∈ done
    · rw [if_pos isDone] at before
      rw [if_pos (mem_cons_of_mem _ isDone)]
      exact before
    · rw [if_neg isDone] at before
      rw [if_neg (by simp [same, isDone])]
      exact before

theorem load_restores (index : BlockIndex) (keys : List Uint256)
    (listed : ∀ hash, hash ∈ keys ↔ (index hash).isSome = true) (distinct : keys.Nodup)
    (findable : ∀ hash entry, index hash = some entry → Findable services index hash entry)
    (meets : ∀ hash entry, index hash = some entry → MeetsTarget services hash entry) :
    ∃ loaded, loadBlockIndexGuts services
        (keys.filterMap fun hash => (index hash).map (recordOf services)) = .ok loaded ∧
      ∀ hash, loaded hash = (index hash).map (stored services.params) := by
  have loop : ∀ (rest done : List Uint256) (loaded : BlockIndex),
      Partly services index loaded done → rest.Nodup → (∀ hash ∈ rest, hash ∉ done) →
      (∀ hash ∈ rest, (index hash).isSome = true) →
      ∃ after, (rest.filterMap fun hash => (index hash).map (recordOf services)).foldlM
          (loadRecord services) loaded = .ok after ∧
        Partly services index after (rest.reverse ++ done) := by
    intro rest
    induction rest with
    | nil => exact fun done loaded partly _ _ _ => ⟨loaded, rfl, partly⟩
    | cons hash rest ih =>
      intro done loaded partly nodup new present
      obtain ⟨notLater, later⟩ := nodup_cons.mp nodup
      obtain ⟨entry, found⟩ := Option.isSome_iff_exists.mp (present hash mem_cons_self)
      rcases loadRecord_restores services index loaded done hash entry partly found
          (new hash mem_cons_self) (findable hash entry found) (meets hash entry found) with
        ⟨next, taken, further⟩
      have others : ∀ other ∈ rest, other ∉ hash :: done := by
        intro other member isDone
        obtain same | before := mem_cons.mp isDone
        · exact notLater (same ▸ member)
        · exact new other (mem_cons_of_mem _ member) before
      rcases ih (hash :: done) next further later others
          (fun other member => present other (mem_cons_of_mem _ member)) with
        ⟨after, folded, all⟩
      refine ⟨after, ?_, ?_⟩
      · rw [filterMap_cons, found]
        show (recordOf services entry :: _).foldlM (loadRecord services) loaded = .ok after
        rw [foldlM_cons, taken]
        exact folded
      · rw [reverse_cons, append_assoc]
        exact all
  have start : Partly services index (fun _ => none) [] := fun hash => Or.inl rfl
  rcases loop keys [] _ start distinct (fun hash _ => not_mem_nil)
      (fun hash member => (listed hash).mp member) with ⟨loaded, done, all⟩
  refine ⟨loaded, done, ?_⟩
  intro hash
  have entry := all hash
  simp only [append_nil, mem_reverse] at entry
  by_cases member : hash ∈ keys
  · rw [if_pos member] at entry
    exact entry
  · rw [if_neg member] at entry
    have absent : index hash = none := by
      by_contra present
      exact member ((listed hash).mpr (Option.isSome_iff_ne_none.mpr present))
    rw [absent] at entry ⊢
    obtain none | ⟨_, present⟩ := entry
    · exact none
    · cases present

end Restored

end ZenonCore.BlockIndexLoad
