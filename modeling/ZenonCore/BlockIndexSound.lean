import ZenonCore.BlockIndexRuns

/-!
# The invariant of the block index

Each entry has the key and place of its header, and what is not written of it has its initial
value.
-/

namespace ZenonCore.BlockIndexSound

open AcceptBlock BlockIndexDisk BlockIndexLoad Function
open BlockIndexRuns BlockReads BoundedReads Chain
open ChainParams (CChainParams)
open MoneySupply Primitives StakeInput
open Library.Runs

theorem and_of_or (flags set mask : UInt32) (outside : set &&& mask = 0) :
    (flags ||| set) &&& mask = flags &&& mask := by
  have none : set.toBitVec &&& mask.toBitVec = 0 := congrArg UInt32.toBitVec outside
  apply UInt32.toBitVec_inj.mp
  show (flags.toBitVec ||| set.toBitVec) &&& mask.toBitVec = flags.toBitVec &&& mask.toBitVec
  ext i inside
  have bit : (set.toBitVec[i] && mask.toBitVec[i]) = false := by
    rw [← BitVec.getElem_and, none]
    exact BitVec.getElem_zero inside
  rw [BitVec.getElem_and, BitVec.getElem_or, BitVec.getElem_and, Bool.and_or_distrib_right, bit,
    Bool.or_false]

theorem and_of_and (flags kept mask : UInt32) (inside : kept &&& mask = mask) :
    (flags &&& kept) &&& mask = flags &&& mask := by
  rw [UInt32.and_assoc, inside]

theorem and_of_set (flags set : UInt32) : (flags ||| set) &&& set = set := by
  apply UInt32.toBitVec_inj.mp
  show (flags.toBitVec ||| set.toBitVec) &&& set.toBitVec = set.toBitVec
  ext i inside
  rw [BitVec.getElem_and, BitVec.getElem_or]
  cases set.toBitVec[i] with
  | false => exact Bool.and_false _
  | true => exact (Bool.and_true _).trans (Bool.or_true _)

theorem raiseValidity_and (entry : BlockIndexEntry) (nUpTo : ValidityLevel) (mask : UInt32)
    (kept : ~~~blockValidMask &&& mask = mask) (outside : nUpTo.code &&& mask = 0) :
    (raiseValidity entry nUpTo).nStatus &&& mask = entry.nStatus &&& mask := by
  unfold raiseValidity
  dsimp only
  split_ifs
  · rfl
  · rw [and_of_or _ _ _ outside, and_of_and _ _ _ kept]
  · rfl

theorem statusChange_and (nStatus mask : UInt32) (change : StatusChange)
    (valid : 32 &&& mask = 0) (child : 64 &&& mask = 0)
    (kept : ~~~blockFailedMask &&& mask = mask) :
    change.apply nStatus &&& mask = nStatus &&& mask := by
  cases change with
  | failedValid => exact and_of_or _ _ _ valid
  | failedChild => exact and_of_or _ _ _ child
  | clearFailed => exact and_of_and _ _ _ kept

section Kept

variable (params : CChainParams)

structure Kept (entry : BlockIndexEntry) : Prop where
  nFile : entry.haveData = false → entry.haveUndo = false → entry.nFile = 0
  nDataPos : entry.haveData = false → entry.nDataPos = 0
  nUndoPos : entry.haveUndo = false → entry.nUndoPos = 0
  nStakeModifier : params.isStakeModifierV2 entry.nHeight = true → entry.nStakeModifier = 0
  nStakeModifierV2 : params.isStakeModifierV2 entry.nHeight = false → entry.nStakeModifierV2 = 0
  prevoutStake : entry.isProofOfStake = false → entry.prevoutStake = COutPoint.null
  nStakeTime : entry.isProofOfStake = false → entry.nStakeTime = 0
  nAccumulatorCheckpoint : entry.hasZerocoin = false → entry.nAccumulatorCheckpoint = 0

end Kept

section Changes

variable (services : RunServices)

structure SamePlace (entry changed : BlockIndexEntry) : Prop where
  pprev : changed.pprev = entry.pprev
  nHeight : changed.nHeight = entry.nHeight
  nVersion : changed.nVersion = entry.nVersion
  hashMerkleRoot : changed.hashMerkleRoot = entry.hashMerkleRoot
  nTime : changed.nTime = entry.nTime
  nBits : changed.nBits = entry.nBits
  nNonce : changed.nNonce = entry.nNonce
  nAccumulatorCheckpoint : changed.nAccumulatorCheckpoint = entry.nAccumulatorCheckpoint

inductive Changed (entry : BlockIndexEntry) : BlockIndexEntry → Prop
  | received (block : CBlock) (nFile : Nat) (nPos : UInt32) :
      Changed entry (receivedBlockTransactions block nFile nPos entry)
  | undo (nPos : UInt32) : Changed entry (writeUndo nPos entry)
  | money (prev nValueIn nValueOut nFees : CAmount) :
      Changed entry (setMoneySupply prev nValueIn nValueOut nFees entry)
  | supply (supply : SupplyEntry) : Changed entry (setSupply entry supply)
  | raised (nUpTo : ValidityLevel) : Changed entry (raiseValidity entry nUpTo)
  | status (change : StatusChange) :
      Changed entry { entry with nStatus := change.apply entry.nStatus }

theorem Changed.place {entry changed : BlockIndexEntry}
    (change : Changed entry changed) : SamePlace entry changed := by
  cases change with
  | undo nPos =>
    unfold writeUndo raiseValidity
    split_ifs <;> exact ⟨rfl, rfl, rfl, rfl, rfl, rfl, rfl, rfl⟩
  | _ => exact ⟨rfl, rfl, rfl, rfl, rfl, rfl, rfl, rfl⟩

theorem isProofOfStake_of_set (flags : UInt32) :
    (flags ||| blockProofOfStake) &&& blockProofOfStake != 0 := by
  rw [and_of_set]
  decide

theorem haveData_of_set (nStatus : UInt32) :
    (nStatus ||| blockHaveData) &&& blockHaveData != 0 := by
  rw [and_of_set]
  decide

theorem haveUndo_of_set (nStatus : UInt32) :
    (nStatus ||| blockHaveUndo) &&& blockHaveUndo != 0 := by
  rw [and_of_set]
  decide

variable (params : CChainParams) (entry : BlockIndexEntry)

/-- A change that touches no stored field but the status and what the status
says is stored. -/
theorem Kept.of_status (nStatus : UInt32)
    (kept : Kept params entry) (data : nStatus &&& blockHaveData = entry.nStatus &&& blockHaveData)
    (undo : nStatus &&& blockHaveUndo = entry.nStatus &&& blockHaveUndo) :
    Kept params { entry with nStatus := nStatus } := by
  have sameData : ({ entry with nStatus := nStatus } : BlockIndexEntry).haveData =
      entry.haveData := by
    unfold BlockIndexEntry.haveData
    rw [data]
  have sameUndo : ({ entry with nStatus := nStatus } : BlockIndexEntry).haveUndo =
      entry.haveUndo := by
    unfold BlockIndexEntry.haveUndo
    rw [undo]
  exact
    { kept with
      nFile := fun noData noUndo => kept.nFile (sameData ▸ noData) (sameUndo ▸ noUndo)
      nDataPos := fun noData => kept.nDataPos (sameData ▸ noData)
      nUndoPos := fun noUndo => kept.nUndoPos (sameUndo ▸ noUndo) }

theorem Kept.raise (nUpTo : ValidityLevel)
    (kept : Kept params entry) : Kept params (raiseValidity entry nUpTo) :=
  kept.of_status params entry _
    (raiseValidity_and entry nUpTo blockHaveData (by decide) (by cases nUpTo <;> decide))
    (raiseValidity_and entry nUpTo blockHaveUndo (by decide) (by cases nUpTo <;> decide))

theorem received_kept (block : CBlock)
    (nFile : Nat) (nPos : UInt32) (kept : Kept params entry) :
    Kept params (receivedBlockTransactions block nFile nPos entry) := by
  apply Kept.raise
  have data : (entry.nStatus ||| blockHaveData) &&& blockHaveData != 0 :=
    haveData_of_set entry.nStatus
  have staked : ((if block.isProofOfStake then entry.nFlags ||| blockProofOfStake
      else entry.nFlags) &&& blockProofOfStake != 0) = false → entry.isProofOfStake = false := by
    intro absent
    split_ifs at absent
    · rw [isProofOfStake_of_set] at absent
      exact nomatch absent
    · exact absent
  exact
    { nFile := fun noData => absurd data (ne_true_of_eq_false noData)
      nDataPos := fun noData => absurd data (ne_true_of_eq_false noData)
      nUndoPos := fun _ => rfl
      nStakeModifier := kept.nStakeModifier
      nStakeModifierV2 := kept.nStakeModifierV2
      prevoutStake := fun absent => kept.prevoutStake (staked absent)
      nStakeTime := fun absent => kept.nStakeTime (staked absent)
      nAccumulatorCheckpoint := kept.nAccumulatorCheckpoint }

theorem writeUndo_kept (nPos : UInt32)
    (kept : Kept params entry) : Kept params (writeUndo nPos entry) := by
  apply Kept.raise
  by_cases there : entry.haveUndo = true
  · rw [if_pos there]
    exact kept
  · rw [if_neg there]
    have undo : (entry.nStatus ||| blockHaveUndo) &&& blockHaveUndo != 0 :=
      haveUndo_of_set entry.nStatus
    have data : (entry.nStatus ||| blockHaveUndo) &&& blockHaveData =
        entry.nStatus &&& blockHaveData := and_of_or _ _ _ (by decide)
    exact
      { kept with
        nFile := fun _ noUndo => absurd undo (ne_true_of_eq_false noUndo)
        nDataPos := fun noData => kept.nDataPos (by
          unfold BlockIndexEntry.haveData at noData ⊢
          rw [← data]
          exact noData)
        nUndoPos := fun noUndo => absurd undo (ne_true_of_eq_false noUndo) }

theorem Changed.kept {entry changed : BlockIndexEntry}
    (change : Changed entry changed) (params : CChainParams) (kept : Kept params entry) :
    Kept params changed := by
  cases change with
  | received block nFile nPos => exact received_kept params entry block nFile nPos kept
  | undo nPos => exact writeUndo_kept params entry nPos kept
  | money prev nValueIn nValueOut nFees => exact { kept with }
  | supply supply => exact { kept with }
  | raised nUpTo => exact kept.raise params entry nUpTo
  | status change =>
    exact kept.of_status params entry _
      (statusChange_and _ _ change (by decide) (by decide) (by decide))
      (statusChange_and _ _ change (by decide) (by decide) (by decide))

theorem toOption_eq_some {ε α : Type} (result : Except ε α) (value : α) :
    result.toOption = some value ↔ result = .ok value := by
  cases result with
  | error failure =>
    constructor
    · intro none
      exact nomatch none
    · intro none
      exact nomatch none
  | ok other => exact ⟨fun same => congrArg Except.ok (Option.some.inj same),
      fun same => congrArg some (Except.ok.inj same)⟩

variable (index next : BlockIndex)

theorem modify_cases (hash : Uint256)
    (change : BlockIndexEntry → Option BlockIndexEntry)
    (each : ∀ entry changed, change entry = some changed → Changed entry changed)
    (done : BlockIndexRuns.modify index hash change = some next) :
    ∃ hash entry changed, index hash = some entry ∧ Changed entry changed ∧
      next = update index hash (some changed) := by
  unfold BlockIndexRuns.modify at done
  cases found : index hash with
  | none =>
    rw [found] at done
    exact nomatch done
  | some entry =>
    rw [found] at done
    obtain ⟨changed, made, same⟩ := Option.map_eq_some_iff.mp done
    exact ⟨hash, entry, changed, found, each entry changed made, same.symm⟩

theorem modify_total_cases (hash : Uint256)
    (change : BlockIndexEntry → BlockIndexEntry) (each : ∀ entry, Changed entry (change entry))
    (done : BlockIndexRuns.modify index hash (fun entry => some (change entry)) = some next) :
    ∃ hash entry changed, index hash = some entry ∧ Changed entry changed ∧
      next = update index hash (some changed) := by
  apply modify_cases index next hash _ _ done
  intro entry changed made
  cases made
  exact each entry

theorem step_cases (event : IndexEvent)
    (taken : step services index event = some next) :
    (∃ block proof, event = .addToBlockIndex block proof ∧
      addToBlockIndex services block proof index = .ok next) ∨
    ∃ hash entry changed, index hash = some entry ∧ Changed entry changed ∧
      next = update index hash (some changed) := by
  cases event with
  | addToBlockIndex block proof =>
    exact Or.inl ⟨block, proof, rfl, (toOption_eq_some _ next).mp taken⟩
  | receivedBlockTransactions hash block nFile nPos =>
    exact Or.inr (modify_total_cases index next hash _ (fun _ => .received block nFile nPos) taken)
  | writeUndo hash nPos =>
    exact Or.inr (modify_total_cases index next hash _ (fun _ => .undo nPos) taken)
  | setMoneySupply hash nValueIn nValueOut nFees =>
    exact Or.inr (modify_total_cases index next hash _
      (fun _ => .money _ nValueIn nValueOut nFees) taken)
  | updateZZNNSupply hash block result =>
    apply Or.inr
    apply modify_cases index next hash _ _ taken
    intro entry changed made
    dsimp only at made
    split_ifs at made
    cases made
    exact .supply _
  | raiseValidity hash nUpTo =>
    exact Or.inr (modify_total_cases index next hash _ (fun _ => .raised nUpTo) taken)
  | setStatus hash change =>
    exact Or.inr (modify_total_cases index next hash _ (fun _ => .status change) taken)
  | rewriteSupply hash supply =>
    exact Or.inr (modify_total_cases index next hash _ (fun _ => .supply supply) taken)

end Changes

section Added

variable (services : RunServices)

structure Blank (block : CBlock) (entry : BlockIndexEntry) : Prop where
  pprev : entry.pprev = none
  nHeight : entry.nHeight = 0
  nFile : entry.nFile = 0
  nDataPos : entry.nDataPos = 0
  nUndoPos : entry.nUndoPos = 0
  nStakeModifier : entry.nStakeModifier = 0
  nStakeModifierV2 : entry.nStakeModifierV2 = 0
  nVersion : entry.nVersion = block.nVersion
  hashMerkleRoot : entry.hashMerkleRoot = block.hashMerkleRoot
  nTime : entry.nTime = block.nTime
  nBits : entry.nBits = block.nBits
  nNonce : entry.nNonce = block.nNonce
  checkpoint : 3 < block.nVersion → entry.nAccumulatorCheckpoint = block.nAccumulatorCheckpoint
  noCheckpoint : ¬ 3 < block.nVersion → entry.nAccumulatorCheckpoint = 0
  prevoutStake : entry.isProofOfStake = false → entry.prevoutStake = COutPoint.null
  nStakeTime : entry.isProofOfStake = false → entry.nStakeTime = 0

theorem ofBlock_blank (block : CBlock) (entry : BlockIndexEntry) (made : ofBlock block = .ok entry) :
    Blank block entry := by
  unfold ofBlock at made
  simp only [ZenonCore.Validation.bind_eq_ok] at made
  obtain ⟨isPoS, _, made⟩ := made
  cases isPoS with
  | false =>
    rw [if_neg Bool.false_ne_true] at made
    cases made
    exact ⟨rfl, rfl, rfl, rfl, rfl, rfl, rfl, rfl, rfl, rfl, rfl, rfl, fun new => if_pos new,
      fun old => if_neg old, fun _ => rfl, fun _ => rfl⟩
  | true =>
    rw [if_pos rfl] at made
    simp only [ZenonCore.Validation.bind_eq_ok] at made
    obtain ⟨tx, _, txin, _, made⟩ := made
    cases made
    have staked : blockProofOfStake &&& blockProofOfStake != 0 := by decide
    exact ⟨rfl, rfl, rfl, rfl, rfl, rfl, rfl, rfl, rfl, rfl, rfl, rfl, fun new => if_pos new,
      fun old => if_neg old, fun absent => absurd staked (ne_true_of_eq_false absent),
      fun absent => absurd staked (ne_true_of_eq_false absent)⟩

structure Rooted (index : BlockIndex) (entry : BlockIndexEntry) : Prop where
  root : entry.pprev = none → entry.nHeight = 0
  height : ∀ prev ∈ entry.pprev, ∀ parent, index prev = some parent →
    entry.nHeight = parent.nHeight + 1

structure Sound (index : BlockIndex) : Prop where
  findable : ∀ hash entry, index hash = some entry →
    Findable services.toIndexServices index hash entry
  meets : ∀ hash entry, index hash = some entry →
    MeetsTarget services.toIndexServices hash entry
  kept : ∀ hash entry, index hash = some entry → Kept services.params entry
  rooted : ∀ hash entry, index hash = some entry → Rooted index entry

theorem chainFrom_length (index : BlockIndex) (sound : Sound services index) (fuel : Nat)
    (hash : Uint256) (entry : BlockIndexEntry) (found : index hash = some entry)
    (enough : entry.nHeight < fuel) :
    (chainFrom services index fuel (some hash)).length = entry.nHeight + 1 := by
  induction fuel generalizing hash entry with
  | zero => exact absurd enough (Nat.not_lt_zero _)
  | succ fuel ih =>
    rw [chainFrom, found]
    dsimp only
    rw [List.length_cons]
    cases before : entry.pprev with
    | none =>
      rw [(sound.rooted hash entry found).root before]
      cases fuel <;> rfl
    | some prev =>
      obtain ⟨_, there⟩ := (sound.findable hash entry found).parent prev before
      obtain ⟨parent, parentFound⟩ := Option.isSome_iff_exists.mp there
      have height := (sound.rooted hash entry found).height prev before parent parentFound
      rw [ih prev parent parentFound (by omega), height]

theorem chainOf_nHeight (index : BlockIndex) (sound : Sound services index) (hash : Uint256)
    (entry : BlockIndexEntry) (found : index hash = some entry) :
    (chainOf services index hash).nHeight = entry.nHeight := by
  unfold chainOf CBlockIndex.nHeight
  rw [found]
  dsimp only
  rw [chainFrom_length services index sound (entry.nHeight + 1) hash entry found
    (Nat.lt_succ_self _)]
  omega

theorem newStakeEntry_modifier (stakeEntry : CBlockIndex → StakeEntry) (block : CBlock)
    (pprev : CBlockIndex) (stake : StakeEntry)
    (made : newStakeEntry services.toAcceptServices stakeEntry block pprev = .ok stake) :
    (services.params.isStakeModifierV2 (pprev.nHeight + 1) = true → stake.nStakeModifier = 0) ∧
      (services.params.isStakeModifierV2 (pprev.nHeight + 1) = false →
        stake.nStakeModifierV2 = 0) := by
  unfold newStakeEntry at made
  split_ifs at made with null first
  · cases made
    exact ⟨fun _ => rfl, fun _ => rfl⟩
  · cases made
    refine ⟨fun second => ?_, fun _ => rfl⟩
    rw [second] at first
    exact absurd first Bool.false_ne_true
  · simp only [ZenonCore.Validation.bind_eq_ok] at made
    obtain ⟨_, _, _, _, made⟩ := made
    cases made
    refine ⟨fun _ => rfl, fun old => ?_⟩
    rw [old] at first
    exact absurd rfl first

end Added

section Invariant

variable (services : RunServices)

/-- What the callers of `AddToBlockIndex` see to: a predecessor, a target that is met, no hash of
zero. -/
structure Addable (index : BlockIndex) (block : CBlock) : Prop where
  hash : hashOf services block ≠ 0
  parent : block.hashPrevBlock = 0 ∨ (index block.hashPrevBlock).isSome = true
  meets : (chainOf services index block.hashPrevBlock).nHeight + 1 ≤ services.params.nLastPOWBlock →
    services.checkProofOfWork (hashOf services block) block.nBits = true

def NoZerocoins (block : CBlock) : Prop :=
  ∀ fFilterInvalid, denominationLists services.toSupplyServices block fFilterInvalid = .ok ([], [])

/-- What an event writes is in the range of its type, and zerocoins come behind headers of a version
above three only. -/
structure Covered (index : BlockIndex) (event : IndexEvent) : Prop where
  storable : ∀ next, step services index event = some next →
    ∀ hash entry, next hash = some entry → Storable entry
  addable : ∀ block proof, event = .addToBlockIndex block proof → Addable services index block
  zerocoin : ∀ hash block result, event = .updateZZNNSupply hash block result →
    ∀ entry, index hash = some entry → entry.hasZerocoin = true ∨ NoZerocoins services block

theorem Sound.change {services : RunServices} {index : BlockIndex} (sound : Sound services index)
    (hash : Uint256) (entry changed : BlockIndexEntry) (found : index hash = some entry)
    (change : Changed entry changed)
    (storable : ∀ other item, update index hash (some changed) other = some item →
      Storable item) :
    Sound services (update index hash (some changed)) := by
  have place := change.place
  have there : ∀ other, (index other).isSome = true →
      (update index hash (some changed) other).isSome = true := by
    intro other present
    by_cases same : other = hash
    · rw [same, update_self]
      rfl
    · rw [update_of_ne same]
      exact present
  have before : ∀ other item, update index hash (some changed) other = some item →
      ∃ old, index other = some old ∧ SamePlace old item := by
    intro other item present
    by_cases same : other = hash
    · rw [same, update_self] at present
      cases present
      exact ⟨entry, same ▸ found, place⟩
    · rw [update_of_ne same] at present
      exact ⟨item, present, ⟨rfl, rfl, rfl, rfl, rfl, rfl, rfl, rfl⟩⟩
  constructor
  · intro other item present
    obtain ⟨old, oldFound, samePlace⟩ := before other item present
    have findable := sound.findable other old oldFound
    refine ⟨storable other item present, ?_, findable.nonzero, ?_⟩
    · rw [← findable.key]
      unfold keyOf
      rw [samePlace.pprev, samePlace.nVersion, samePlace.hashMerkleRoot, samePlace.nTime,
        samePlace.nBits, samePlace.nNonce, samePlace.nAccumulatorCheckpoint]
    · intro prev isParent
      rw [samePlace.pprev] at isParent
      exact ⟨(findable.parent prev isParent).1, there prev (findable.parent prev isParent).2⟩
  · intro other item present
    obtain ⟨old, oldFound, samePlace⟩ := before other item present
    have meets := sound.meets other old oldFound
    unfold MeetsTarget at meets ⊢
    rw [samePlace.nHeight, samePlace.nBits]
    exact meets
  · intro other item present
    by_cases same : other = hash
    · rw [same, update_self] at present
      cases present
      exact change.kept services.params (sound.kept hash entry found)
    · rw [update_of_ne same] at present
      exact sound.kept other item present
  · intro other item present
    obtain ⟨old, oldFound, samePlace⟩ := before other item present
    have rooted := sound.rooted other old oldFound
    constructor
    · rw [samePlace.pprev, samePlace.nHeight]
      exact rooted.root
    · intro prev isParent parent parentFound
      rw [samePlace.pprev] at isParent
      obtain ⟨oldParent, oldParentFound, sameParent⟩ := before prev parent parentFound
      rw [samePlace.nHeight, sameParent.nHeight]
      exact rooted.height prev isParent oldParent oldParentFound

structure Fresh (index : BlockIndex) (hash : Uint256) (entry : BlockIndexEntry) : Prop where
  key : keyOf services.toIndexServices entry = hash
  nonzero : hash ≠ 0
  parent : ∀ prev ∈ entry.pprev, prev ≠ 0 ∧ (index prev).isSome = true
  meets : MeetsTarget services.toIndexServices hash entry
  kept : Kept services.params entry
  rooted : Rooted index entry

theorem Sound.insert {services : RunServices} {index : BlockIndex} (sound : Sound services index)
    (hash : Uint256) (entry : BlockIndexEntry) (absent : index hash = none)
    (fresh : Fresh services index hash entry)
    (storable : ∀ other item, update index hash (some entry) other = some item →
      Storable item) :
    Sound services (update index hash (some entry)) := by
  have kept : ∀ other, (index other).isSome = true →
      update index hash (some entry) other = index other := by
    intro other present
    apply update_of_ne
    intro same
    rw [same, absent] at present
    exact nomatch present
  have there : ∀ other, (index other).isSome = true →
      (update index hash (some entry) other).isSome = true := by
    intro other present
    rw [kept other present]
    exact present
  have moved : ∀ item, (∀ prev ∈ item.pprev, prev ≠ 0 ∧ (index prev).isSome = true) →
      Rooted index item → Rooted (update index hash (some entry)) item := by
    intro item parents rooted
    refine ⟨rooted.root, ?_⟩
    intro prev isParent parent parentFound
    rw [kept prev (parents prev isParent).2] at parentFound
    exact rooted.height prev isParent parent parentFound
  have eitherWay : ∀ other item, update index hash (some entry) other = some item →
      (other = hash ∧ item = entry) ∨ index other = some item := by
    intro other item present
    by_cases same : other = hash
    · rw [same, update_self] at present
      exact Or.inl ⟨same, (Option.some.inj present).symm⟩
    · rw [update_of_ne same] at present
      exact Or.inr present
  constructor
  · intro other item present
    have range := storable other item present
    obtain ⟨sameHash, sameItem⟩ | old := eitherWay other item present
    · rw [sameHash]
      rw [sameItem] at range ⊢
      exact ⟨range, fresh.key, fresh.nonzero, fun prev isParent =>
        ⟨(fresh.parent prev isParent).1, there prev (fresh.parent prev isParent).2⟩⟩
    · have findable := sound.findable other item old
      exact ⟨range, findable.key, findable.nonzero, fun prev isParent =>
        ⟨(findable.parent prev isParent).1, there prev (findable.parent prev isParent).2⟩⟩
  · intro other item present
    obtain ⟨sameHash, sameItem⟩ | old := eitherWay other item present
    · rw [sameHash, sameItem]
      exact fresh.meets
    · exact sound.meets other item old
  · intro other item present
    obtain ⟨_, sameItem⟩ | old := eitherWay other item present
    · rw [sameItem]
      exact fresh.kept
    · exact sound.kept other item old
  · intro other item present
    obtain ⟨_, sameItem⟩ | old := eitherWay other item present
    · rw [sameItem]
      exact moved entry fresh.parent fresh.rooted
    · exact moved item (sound.findable other item old).parent (sound.rooted other item old)

end Invariant

section Steps

variable (services : RunServices)

variable (block : CBlock) (entry blank : BlockIndexEntry)

theorem keyOf_fresh (blankOf : Blank block blank)
    (place : entry.nVersion = blank.nVersion ∧ entry.hashMerkleRoot = blank.hashMerkleRoot ∧
      entry.nTime = blank.nTime ∧ entry.nBits = blank.nBits ∧ entry.nNonce = blank.nNonce ∧
      entry.nAccumulatorCheckpoint = blank.nAccumulatorCheckpoint)
    (prev : entry.pprev.getD 0 = block.hashPrevBlock) :
    keyOf services.toIndexServices entry = hashOf services block := by
  obtain ⟨version, root, time, bits, nonce, checkpoint⟩ := place
  unfold keyOf hashOf
  rw [prev, version, root, time, bits, nonce, checkpoint, blankOf.nVersion, blankOf.hashMerkleRoot,
    blankOf.nTime, blankOf.nBits, blankOf.nNonce]
  by_cases new : 3 < block.nVersion
  · rw [blankOf.checkpoint new]
  · exact services.hashes.getHash_checkpoint _ _ _ _ _ _ _ _ (Int.not_lt.mp new)

theorem proofOfStake_of_or (flags set : UInt32) (outside : set &&& blockProofOfStake = 0)
    (condition : Prop) [Decidable condition] :
    (if condition then flags ||| set else flags) &&& blockProofOfStake =
      flags &&& blockProofOfStake := by
  split_ifs
  · exact and_of_or _ _ _ outside
  · rfl

structure Behind (prev : Uint256) (parent blank : BlockIndexEntry) (stake : StakeEntry)
    (entry : BlockIndexEntry) : Prop where
  pprev : entry.pprev = some prev
  nHeight : entry.nHeight = parent.nHeight + 1
  nFile : entry.nFile = blank.nFile
  nDataPos : entry.nDataPos = blank.nDataPos
  nUndoPos : entry.nUndoPos = blank.nUndoPos
  nStakeModifier : entry.nStakeModifier = stake.nStakeModifier
  nStakeModifierV2 : entry.nStakeModifierV2 = stake.nStakeModifierV2
  header : entry.nVersion = blank.nVersion ∧ entry.hashMerkleRoot = blank.hashMerkleRoot ∧
    entry.nTime = blank.nTime ∧ entry.nBits = blank.nBits ∧ entry.nNonce = blank.nNonce ∧
    entry.nAccumulatorCheckpoint = blank.nAccumulatorCheckpoint
  isProofOfStake : entry.isProofOfStake = blank.isProofOfStake
  prevoutStake : entry.prevoutStake = blank.prevoutStake
  nStakeTime : entry.nStakeTime = blank.nStakeTime

theorem behind_fields (prev hash : Uint256) (parent blank : BlockIndexEntry) (proof : Uint256)
    (stake : StakeEntry) :
    Behind prev parent blank stake (behind services prev hash parent proof stake blank) := by
  have flags : (if stake.fGeneratedStakeModifier then
        (if hash.toNat % 2 = 1 then blank.nFlags ||| blockStakeEntropy else blank.nFlags) |||
          blockStakeModifier
      else if hash.toNat % 2 = 1 then blank.nFlags ||| blockStakeEntropy else blank.nFlags) &&&
        blockProofOfStake = blank.nFlags &&& blockProofOfStake := by
    rw [proofOfStake_of_or _ _ (by decide), proofOfStake_of_or _ _ (by decide)]
  have staked := congrArg (fun bits => bits != 0) flags
  unfold behind setStake
  dsimp only
  by_cases second : services.params.isStakeModifierV2 (parent.nHeight + 1 : Nat) = true
  · rw [if_pos second]
    exact ⟨rfl, rfl, rfl, rfl, rfl, rfl, rfl, ⟨rfl, rfl, rfl, rfl, rfl, rfl⟩, staked, rfl, rfl⟩
  · rw [if_neg second]
    exact ⟨rfl, rfl, rfl, rfl, rfl, rfl, rfl, ⟨rfl, rfl, rfl, rfl, rfl, rfl⟩, staked, rfl, rfl⟩

theorem checkpoint_of_version (blankOf : Blank block blank) (version : entry.nVersion = blank.nVersion)
    (checkpoint : entry.nAccumulatorCheckpoint = blank.nAccumulatorCheckpoint)
    (old : entry.hasZerocoin = false) : entry.nAccumulatorCheckpoint = 0 := by
  rw [checkpoint]
  apply blankOf.noCheckpoint
  unfold BlockIndexEntry.hasZerocoin at old
  rw [version, blankOf.nVersion] at old
  exact of_decide_eq_false old

theorem fresh_root (index : BlockIndex) (block : CBlock) (blank : BlockIndexEntry)
    (blankOf : Blank block blank) (addable : Addable services index block)
    (orphan : index block.hashPrevBlock = none) :
    Fresh services index (hashOf services block) (raiseValidity blank .tree) := by
  have noParent : block.hashPrevBlock = 0 := by
    obtain null | there := addable.parent
    · exact null
    · rw [orphan] at there
      exact nomatch there
  have height : (chainOf services index block.hashPrevBlock).nHeight + 1 = 0 := by
    unfold chainOf
    rw [orphan]
    rfl
  constructor
  · apply keyOf_fresh services block _ blank blankOf ⟨rfl, rfl, rfl, rfl, rfl, rfl⟩
    show blank.pprev.getD 0 = _
    rw [blankOf.pprev, noParent]
    rfl
  · exact addable.hash
  · intro prev isParent
    rw [show (raiseValidity blank .tree).pprev = none from blankOf.pprev] at isParent
    exact nomatch isParent
  · intro early
    have meets := addable.meets
    rw [height] at meets
    rw [show (raiseValidity blank .tree).nHeight = 0 from blankOf.nHeight] at early
    rw [show (raiseValidity blank .tree).nBits = block.nBits from blankOf.nBits]
    exact meets early
  · apply Kept.raise
    exact
      { nFile := fun _ _ => blankOf.nFile
        nDataPos := fun _ => blankOf.nDataPos
        nUndoPos := fun _ => blankOf.nUndoPos
        nStakeModifier := fun _ => blankOf.nStakeModifier
        nStakeModifierV2 := fun _ => blankOf.nStakeModifierV2
        prevoutStake := blankOf.prevoutStake
        nStakeTime := blankOf.nStakeTime
        nAccumulatorCheckpoint := checkpoint_of_version block blank blank blankOf rfl rfl }
  · refine ⟨fun _ => blankOf.nHeight, ?_⟩
    intro prev isParent
    rw [show (raiseValidity blank .tree).pprev = none from blankOf.pprev] at isParent
    exact nomatch isParent

theorem fresh_behind (index : BlockIndex) (sound : Sound services index) (block : CBlock)
    (blank parent entry : BlockIndexEntry) (stake : StakeEntry) (blankOf : Blank block blank)
    (addable : Addable services index block)
    (parentFound : index block.hashPrevBlock = some parent)
    (fields : Behind block.hashPrevBlock parent blank stake entry)
    (made : newStakeEntry services.toAcceptServices (stakeEntries index) block
      (chainOf services index block.hashPrevBlock) = .ok stake) :
    Fresh services index (hashOf services block) (raiseValidity entry .tree) := by
  have modifiers := newStakeEntry_modifier services _ block _ stake made
  have height := chainOf_nHeight services index sound block.hashPrevBlock parent parentFound
  have nonzero := (sound.findable _ parent parentFound).nonzero
  have new : ((parent.nHeight : Int) + 1) = ((parent.nHeight + 1 : Nat) : Int) := by
    push_cast
    rfl
  rw [height, new, ← fields.nHeight] at modifiers
  constructor
  · apply keyOf_fresh services block _ blank blankOf fields.header
    show entry.pprev.getD 0 = _
    rw [fields.pprev]
    rfl
  · exact addable.hash
  · intro prev isParent
    rw [show (raiseValidity entry .tree).pprev = _ from fields.pprev] at isParent
    cases isParent
    rw [parentFound]
    exact ⟨nonzero, rfl⟩
  · intro early
    have meets := addable.meets
    rw [height, new, ← fields.nHeight] at meets
    rw [show (raiseValidity entry .tree).nBits = block.nBits from
      fields.header.2.2.2.1.trans blankOf.nBits]
    exact meets early
  · apply Kept.raise
    exact
      { nFile := fun _ _ => fields.nFile.trans blankOf.nFile
        nDataPos := fun _ => fields.nDataPos.trans blankOf.nDataPos
        nUndoPos := fun _ => fields.nUndoPos.trans blankOf.nUndoPos
        nStakeModifier := fun second => fields.nStakeModifier.trans (modifiers.1 second)
        nStakeModifierV2 := fun first => fields.nStakeModifierV2.trans (modifiers.2 first)
        prevoutStake := by
          rw [fields.isProofOfStake, fields.prevoutStake]
          exact blankOf.prevoutStake
        nStakeTime := by
          rw [fields.isProofOfStake, fields.nStakeTime]
          exact blankOf.nStakeTime
        nAccumulatorCheckpoint :=
          checkpoint_of_version block entry blank blankOf fields.header.1 fields.header.2.2.2.2.2 }
  · constructor
    · intro none
      rw [show (raiseValidity entry .tree).pprev = _ from fields.pprev] at none
      exact nomatch none
    · intro prev isParent other otherFound
      rw [show (raiseValidity entry .tree).pprev = _ from fields.pprev] at isParent
      cases isParent
      rw [parentFound] at otherFound
      cases otherFound
      exact fields.nHeight

theorem addToBlockIndex_ok (index next : BlockIndex) (block : CBlock) (proof : Uint256)
    (added : addToBlockIndex services block proof index = .ok next) :
    next = index ∨
      ∃ blank, index (hashOf services block) = none ∧ ofBlock block = .ok blank ∧
        ((index block.hashPrevBlock = none ∧
          next = update index (hashOf services block)
            (some (raiseValidity blank .tree))) ∨
        ∃ parent stake, index block.hashPrevBlock = some parent ∧
          newStakeEntry services.toAcceptServices (stakeEntries index) block
            (chainOf services index block.hashPrevBlock) = .ok stake ∧
          next = update index (hashOf services block)
            (some (raiseValidity (behind services block.hashPrevBlock (hashOf services block) parent
              proof stake blank) .tree))) := by
  unfold BlockIndexRuns.addToBlockIndex at added
  dsimp only at added
  cases known : index (hashOf services block) with
  | some entry =>
    rw [known] at added
    exact Or.inl (Except.ok.inj added).symm
  | none =>
    rw [known] at added
    dsimp only at added
    rw [ZenonCore.Validation.bind_eq_ok] at added
    obtain ⟨blank, made, rest⟩ := added
    refine Or.inr ⟨blank, rfl, made, ?_⟩
    cases parentFound : index block.hashPrevBlock with
    | none =>
      rw [parentFound] at rest
      exact Or.inl ⟨rfl, (Except.ok.inj rest).symm⟩
    | some parent =>
      rw [parentFound] at rest
      dsimp only at rest
      rw [ZenonCore.Validation.bind_eq_ok] at rest
      obtain ⟨stake, staked, rest⟩ := rest
      exact Or.inr ⟨parent, stake, rfl, staked, (Except.ok.inj rest).symm⟩

theorem step_sound (index next : BlockIndex) (event : IndexEvent) (sound : Sound services index)
    (covered : Covered services index event) (taken : step services index event = some next) :
    Sound services next := by
  have storable := covered.storable next taken
  rcases step_cases services index next event taken with
    ⟨block, proof, same, added⟩ | ⟨hash, entry, changed, found, change, same⟩
  · have addable := covered.addable block proof same
    rcases addToBlockIndex_ok services index next block proof added with
      unchanged | ⟨blank, absent, made, ⟨orphan, result⟩ | ⟨parent, stake, parentFound, staked, result⟩⟩
    · rw [unchanged]
      exact sound
    · rw [result] at storable ⊢
      apply sound.insert _ _ absent _ storable
      exact fresh_root services index block blank (ofBlock_blank block blank made) addable orphan
    · rw [result] at storable ⊢
      apply sound.insert _ _ absent _ storable
      exact fresh_behind services index sound block blank parent _ stake
        (ofBlock_blank block blank made) addable parentFound
        (behind_fields services _ _ parent blank proof stake) staked
  · rw [same] at storable ⊢
    exact sound.change hash entry changed found change storable

theorem empty_sound : Sound services fun _ => none where
  findable := fun _ _ found => nomatch found
  meets := fun _ _ found => nomatch found
  kept := fun _ _ found => nomatch found
  rooted := fun _ _ found => nomatch found

end Steps

end ZenonCore.BlockIndexSound
