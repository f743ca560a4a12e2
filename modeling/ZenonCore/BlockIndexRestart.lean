import ZenonCore.BlockIndexSound
import ZenonCore.JustCheck

/-!
# Restarting behind the block index

An index and what is loaded of its records go the same way under all later
events, and validation reads the same of both.
-/

namespace ZenonCore.BlockIndexRestart

open AcceptBlock BlockIndexDisk BlockIndexLoad Option Function
open BlockIndexRuns BlockIndexSound BlockReads
open BoundedReads Chain MoneySupply Primitives
open StakeInput
open ChainParams (CChainParams)
open Library.Runs

section Persistent

variable (params : CChainParams)

/-- The part of an entry that lasts: without checksum, proof, and the supply of an old header. -/
def persistent (entry : BlockIndexEntry) : BlockIndexEntry :=
  { entry with
    nStakeModifierChecksum := 0
    hashProofOfStake := 0
    mapZerocoinSupply := if entry.hasZerocoin then entry.mapZerocoinSupply else fun _ => 0
    vMintDenominationsInBlock :=
      if entry.hasZerocoin then entry.vMintDenominationsInBlock else [] }

theorem restored_if {α : Type} (flag : Bool) (value initial : α)
    (kept : flag = false → value = initial) : (if flag then value else initial) = value := by
  cases flag with
  | true => rfl
  | false => exact (kept rfl).symm

theorem persistent_stored (entry : BlockIndexEntry) (kept : Kept params entry) :
    persistent (stored params entry) = persistent entry := by
  have file := restored_if (entry.haveData || entry.haveUndo) entry.nFile 0 fun absent =>
    kept.nFile (Bool.or_eq_false_iff.mp absent).1 (Bool.or_eq_false_iff.mp absent).2
  have first := restored_if (!params.isStakeModifierV2 entry.nHeight) entry.nStakeModifier 0
    fun absent => kept.nStakeModifier ((Bool.not_eq_false' _).mp absent)
  unfold persistent stored
  rw [file, first, restored_if _ entry.nDataPos 0 kept.nDataPos,
    restored_if _ entry.nUndoPos 0 kept.nUndoPos,
    restored_if _ entry.nStakeModifierV2 0 kept.nStakeModifierV2,
    restored_if _ entry.prevoutStake COutPoint.null kept.prevoutStake,
    restored_if _ entry.nStakeTime 0 kept.nStakeTime,
    restored_if _ entry.nAccumulatorCheckpoint 0 kept.nAccumulatorCheckpoint]
  unfold BlockIndexEntry.hasZerocoin
  cases decide (3 < entry.nVersion) with
  | true => rfl
  | false => rfl

end Persistent

section Alike

variable (services : RunServices)

/-- Two indexes have the same entries, but for what does not last. -/
def Alike (index loaded : BlockIndex) : Prop :=
  ∀ hash, (loaded hash).map persistent = (index hash).map persistent

variable {index loaded : BlockIndex}

theorem Alike.either (alike : Alike index loaded) (hash : Uint256) :
    (index hash = none ∧ loaded hash = none) ∨
      ∃ entry other, index hash = some entry ∧ loaded hash = some other ∧
        persistent other = persistent entry := by
  have same := alike hash
  cases found : index hash with
  | none =>
    rw [found] at same
    exact Or.inl ⟨rfl, map_eq_none_iff.mp same⟩
  | some entry =>
    rw [found] at same
    obtain ⟨other, otherFound, equal⟩ := map_eq_some_iff.mp same
    exact Or.inr ⟨entry, other, rfl, otherFound, equal⟩

theorem same_field {α : Type} (field : BlockIndexEntry → α)
    (through : ∀ entry, field (persistent entry) = field entry) (entry other : BlockIndexEntry)
    (same : persistent other = persistent entry) : field other = field entry := by
  rw [← through other, same, through]

theorem Alike.reads (alike : Alike index loaded) {α : Type}
    (field : BlockIndexEntry → α) (through : ∀ entry, field (persistent entry) = field entry)
    (hash : Uint256) : (loaded hash).map field = (index hash).map field := by
  obtain ⟨absent, alsoAbsent⟩ | ⟨entry, other, found, otherFound, same⟩ := alike.either hash
  · rw [absent, alsoAbsent]
  · rw [found, otherFound, map_some, map_some,
      same_field field through entry other same]

theorem Alike.update (alike : Alike index loaded) (hash : Uint256)
    (entry other : BlockIndexEntry) (same : persistent other = persistent entry) :
    Alike (update index hash (some entry)) (update loaded hash (some other)) := by
  intro key
  by_cases here : key = hash
  · rw [here, update_self, update_self, map_some, map_some, same]
  · rw [update_of_ne here, update_of_ne here]
    exact alike key

theorem chainFrom_alike (alike : Alike index loaded) (fuel : Nat)
    (hash : Option Uint256) :
    chainFrom services loaded fuel hash = chainFrom services index fuel hash := by
  induction fuel generalizing hash with
  | zero => rfl
  | succ fuel ih =>
    cases hash with
    | none => rfl
    | some hash =>
      rw [chainFrom, chainFrom]
      rcases alike.either hash with
        ⟨absent, alsoAbsent⟩ | ⟨entry, other, found, otherFound, same⟩
      · rw [absent, alsoAbsent]
      · rw [found, otherFound]
        dsimp only
        rw [ih, same_field (blockOf services hash) (fun _ => rfl) entry other same,
          same_field BlockIndexEntry.pprev (fun _ => rfl) entry other same]

theorem chainOf_alike (alike : Alike index loaded) (hash : Uint256) :
    chainOf services loaded hash = chainOf services index hash := by
  unfold chainOf
  obtain ⟨absent, alsoAbsent⟩ | ⟨entry, other, found, otherFound, same⟩ := alike.either hash
  · rw [absent, alsoAbsent]
  · rw [found, otherFound]
    dsimp only
    rw [same_field BlockIndexEntry.nHeight (fun _ => rfl) entry other same,
      chainFrom_alike services alike]

theorem entryAt_alike (alike : Alike index loaded) {α : Type}
    (field : BlockIndexEntry → α) (through : ∀ entry, field (persistent entry) = field entry)
    (pindex : CBlockIndex) : (entryAt loaded pindex).map field = (entryAt index pindex).map field := by
  cases pindex with
  | nil => rfl
  | cons block rest => exact alike.reads field through block.hash

theorem stakeEntries_alike (alike : Alike index loaded) :
    stakeEntries loaded = stakeEntries index := by
  funext pindex
  unfold stakeEntries
  rw [entryAt_alike alike stakeEntryOf (fun _ => rfl)]

theorem storeOf_alike (alike : Alike index loaded) (base : BlockStore) :
    storeOf services base loaded = storeOf services base index := by
  have chains : (fun hash => (loaded hash).map fun _ => chainOf services loaded hash) =
      fun hash => (index hash).map fun _ => chainOf services index hash := by
    funext hash
    rw [chainOf_alike services alike]
    exact alike.reads (fun _ => chainOf services index hash) (fun _ => rfl) hash
  have statuses : (fun pindex => ((entryAt loaded pindex).map fun entry =>
        ({ fFailed := entry.failed, fHaveData := entry.haveData } : EntryStatus)).getD
          { fFailed := false, fHaveData := false }) =
      fun pindex => ((entryAt index pindex).map fun entry =>
        ({ fFailed := entry.failed, fHaveData := entry.haveData } : EntryStatus)).getD
          { fFailed := false, fHaveData := false } := by
    funext pindex
    rw [entryAt_alike alike _ (fun _ => rfl)]
  unfold storeOf
  rw [stakeEntries_alike alike, chains, statuses]

theorem persistent_idem (entry : BlockIndexEntry) : persistent (persistent entry) = persistent entry := by
  unfold persistent BlockIndexEntry.hasZerocoin
  cases decide (3 < entry.nVersion) with
  | true => rfl
  | false => rfl

theorem persistent_of_through (change : BlockIndexEntry → BlockIndexEntry)
    (through : ∀ entry, persistent (change (persistent entry)) = persistent (change entry))
    (entry other : BlockIndexEntry) (same : persistent other = persistent entry) :
    persistent (change other) = persistent (change entry) := by
  rw [← through other, same, through]

theorem raiseValidity_through (nUpTo : ValidityLevel) (entry : BlockIndexEntry) :
    persistent (raiseValidity (persistent entry) nUpTo) = persistent (raiseValidity entry nUpTo) := by
  unfold persistent raiseValidity BlockIndexEntry.hasZerocoin
  cases decide (3 < entry.nVersion) with
  | true => rfl
  | false => rfl

theorem received_through (block : CBlock) (nFile : Nat) (nPos : UInt32) (entry : BlockIndexEntry) :
    persistent (receivedBlockTransactions block nFile nPos (persistent entry)) =
      persistent (receivedBlockTransactions block nFile nPos entry) := by
  unfold receivedBlockTransactions persistent raiseValidity BlockIndexEntry.hasZerocoin
  cases decide (3 < entry.nVersion) with
  | true => rfl
  | false => rfl

theorem writeUndo_through (nPos : UInt32) (entry : BlockIndexEntry) :
    persistent (writeUndo nPos (persistent entry)) = persistent (writeUndo nPos entry) := by
  unfold writeUndo
  apply persistent_of_through (fun raised => raiseValidity raised .scripts)
    (raiseValidity_through .scripts)
  have undo : (persistent entry).haveUndo = entry.haveUndo := rfl
  rw [undo]
  cases entry.haveUndo with
  | true => exact persistent_idem entry
  | false =>
    rw [if_neg Bool.false_ne_true, if_neg Bool.false_ne_true]
    unfold persistent BlockIndexEntry.hasZerocoin
    cases decide (3 < entry.nVersion) with
    | true => rfl
    | false => rfl

theorem setMoneySupply_through (prev nValueIn nValueOut nFees : CAmount) (entry : BlockIndexEntry) :
    persistent (setMoneySupply prev nValueIn nValueOut nFees (persistent entry)) =
      persistent (setMoneySupply prev nValueIn nValueOut nFees entry) := by
  unfold setMoneySupply persistent BlockIndexEntry.hasZerocoin
  cases decide (3 < entry.nVersion) with
  | true => rfl
  | false => rfl

theorem status_through (change : StatusChange) (entry : BlockIndexEntry) :
    persistent { persistent entry with nStatus := change.apply (persistent entry).nStatus } =
      persistent { entry with nStatus := change.apply entry.nStatus } := by
  unfold persistent BlockIndexEntry.hasZerocoin
  cases decide (3 < entry.nVersion) with
  | true => rfl
  | false => rfl

end Alike

section Supply

variable (services : RunServices)

variable (block : CBlock) (pprev : CBlockIndex)

theorem updateZZNNSupply_parent (parent other own : SupplyEntry) (same : 3 < headerVersion pprev → other = parent) :
    updateZZNNSupply services.toSupplyServices block pprev other own =
      updateZZNNSupply services.toSupplyServices block pprev parent own := by
  have start : initialSupply pprev other own = initialSupply pprev parent own := by
    by_cases new : 3 < headerVersion pprev
    · rw [same new]
    · unfold initialSupply
      rw [if_neg new, if_neg new]
  unfold updateZZNNSupply
  rw [start]

theorem addWrappedInflation_money (nHeight : Int) (entry : SupplyEntry) :
    (addWrappedInflation services.toSupplyServices nHeight entry).nMoneySupply =
        entry.nMoneySupply ∧
      (addWrappedInflation services.toSupplyServices nHeight entry).nMint = entry.nMint := by
  unfold addWrappedInflation
  split_ifs
  · exact ⟨rfl, rfl⟩
  · exact ⟨rfl, rfl⟩

theorem update_of_noZerocoins (parent own : SupplyEntry)
    (nothing : NoZerocoins services block) :
    (updateZZNNSupply services.toSupplyServices block pprev parent own).2 = .ok true ∧
      (updateZZNNSupply services.toSupplyServices block pprev parent own).1.nMoneySupply =
        own.nMoneySupply ∧
      (updateZZNNSupply services.toSupplyServices block pprev parent own).1.nMint = own.nMint := by
  have started : (initialSupply pprev parent own).nMoneySupply = own.nMoneySupply ∧
      (initialSupply pprev parent own).nMint = own.nMint := by
    unfold initialSupply
    split_ifs
    · exact ⟨rfl, rfl⟩
    · exact ⟨rfl, rfl⟩
  unfold updateZZNNSupply
  dsimp only
  rw [nothing]
  dsimp only
  cases pprev.isEmpty with
  | true =>
    rw [if_pos rfl]
    have money := addWrappedInflation_money services (pprev.nHeight + 1)
      { initialSupply pprev parent own with vMintDenominationsInBlock := [] }
    exact ⟨rfl, money.1.trans started.1, money.2.trans started.2⟩
  | false =>
    rw [if_neg Bool.false_ne_true]
    have money := addWrappedInflation_money services (pprev.nHeight + 1)
      { initialSupply pprev parent own with vMintDenominationsInBlock := [] }
    exact ⟨rfl, money.1.trans started.1, money.2.trans started.2⟩

theorem supplyEntry_alike (entry other : BlockIndexEntry)
    (same : persistent other = persistent entry) (zerocoin : entry.hasZerocoin = true) :
    supplyEntry other = supplyEntry entry := by
  have through : ∀ item : BlockIndexEntry, item.hasZerocoin = true →
      supplyEntry (persistent item) = supplyEntry item := by
    intro item new
    unfold persistent supplyEntry
    rw [new]
    rfl
  have version : other.hasZerocoin = entry.hasZerocoin :=
    same_field BlockIndexEntry.hasZerocoin (fun _ => rfl) entry other same
  rw [← through other (version.trans zerocoin), same, through entry zerocoin]

theorem parentSupply_alike {index loaded : BlockIndex} (alike : Alike index loaded)
    (sound : Sound services index) (hash : Uint256) (entry other : BlockIndexEntry)
    (found : index hash = some entry) (same : persistent other = persistent entry)
    (new : 3 < headerVersion (chainBehind services index entry)) :
    parentSupply loaded other = parentSupply index entry := by
  have before : other.pprev = entry.pprev :=
    same_field BlockIndexEntry.pprev (fun _ => rfl) entry other same
  unfold parentSupply
  rw [before]
  cases prevIs : entry.pprev with
  | none => rfl
  | some prev =>
    rw [bind_some, bind_some]
    rcases alike.either prev with
      ⟨absent, alsoAbsent⟩ | ⟨parent, otherParent, parentFound, otherFound, sameParent⟩
    · rw [absent, alsoAbsent]
    · have height := (sound.rooted hash entry found).height prev prevIs parent parentFound
      have zerocoin : parent.hasZerocoin = true := by
        unfold chainBehind at new
        rw [prevIs, height, chainFrom, parentFound] at new
        exact decide_eq_true new
      rw [parentFound, otherFound, map_some, map_some,
        supplyEntry_alike parent otherParent sameParent zerocoin]

theorem parentMoney_alike {index loaded : BlockIndex} (alike : Alike index loaded)
    (entry other : BlockIndexEntry) (same : persistent other = persistent entry) :
    (parentSupply loaded other).nMoneySupply = (parentSupply index entry).nMoneySupply := by
  have before : other.pprev = entry.pprev :=
    same_field BlockIndexEntry.pprev (fun _ => rfl) entry other same
  unfold parentSupply
  rw [before]
  cases entry.pprev with
  | none => rfl
  | some prev =>
    rw [bind_some, bind_some]
    rcases alike.either prev with
      ⟨absent, alsoAbsent⟩ | ⟨parent, otherParent, parentFound, otherFound, sameParent⟩
    · rw [absent, alsoAbsent]
    · rw [parentFound, otherFound]
      exact same_field BlockIndexEntry.nMoneySupply (fun _ => rfl) parent otherParent sameParent

theorem updateEntrySupply_alike {index loaded : BlockIndex} (alike : Alike index loaded)
    (sound : Sound services index) (hash : Uint256) (block : CBlock)
    (entry other : BlockIndexEntry) (found : index hash = some entry)
    (same : persistent other = persistent entry)
    (zerocoin : entry.hasZerocoin = true ∨ NoZerocoins services block) :
    (updateEntrySupply services block loaded other).2 =
        (updateEntrySupply services block index entry).2 ∧
      persistent (setSupply other (updateEntrySupply services block loaded other).1) =
        persistent (setSupply entry (updateEntrySupply services block index entry).1) := by
  have behind : chainBehind services loaded other = chainBehind services index entry := by
    unfold chainBehind
    rw [same_field BlockIndexEntry.pprev (fun _ => rfl) entry other same,
      same_field BlockIndexEntry.nHeight (fun _ => rfl) entry other same,
      chainFrom_alike services alike]
  have forgotten : ∀ supply : SupplyEntry,
      persistent (setSupply other supply) = persistent (setSupply entry supply) :=
    fun supply => persistent_of_through (fun item => setSupply item supply) (fun _ => rfl) entry
      other same
  by_cases new : entry.hasZerocoin = true
  · have equal : updateEntrySupply services block loaded other =
        updateEntrySupply services block index entry := by
      unfold updateEntrySupply
      rw [behind, supplyEntry_alike entry other same new]
      exact updateZZNNSupply_parent services block _ _ _ _
        (parentSupply_alike services alike sound hash entry other found same)
    rw [equal]
    exact ⟨rfl, forgotten _⟩
  · have nothing : NoZerocoins services block := by
      obtain zerocoin | nothing := zerocoin
      · exact absurd zerocoin new
      · exact nothing
    have ours := update_of_noZerocoins services block (chainBehind services index entry)
      (parentSupply index entry) (supplyEntry entry) nothing
    have theirs := update_of_noZerocoins services block (chainBehind services loaded other)
      (parentSupply loaded other) (supplyEntry other) nothing
    refine ⟨theirs.1.trans ours.1.symm, ?_⟩
    rw [forgotten]
    have version : entry.hasZerocoin = false := Bool.eq_false_iff.mpr new
    have money : (updateEntrySupply services block loaded other).1.nMoneySupply =
        (updateEntrySupply services block index entry).1.nMoneySupply :=
      theirs.2.1.trans ((same_field BlockIndexEntry.nMoneySupply (fun _ => rfl) entry other
        same).trans ours.2.1.symm)
    have mint : (updateEntrySupply services block loaded other).1.nMint =
        (updateEntrySupply services block index entry).1.nMint :=
      theirs.2.2.trans ((same_field BlockIndexEntry.nMint (fun _ => rfl) entry other
        same).trans ours.2.2.symm)
    have hidden : ∀ supply : SupplyEntry, (setSupply entry supply).hasZerocoin = false :=
      fun _ => version
    unfold persistent
    rw [hidden, hidden]
    unfold setSupply
    rw [money, mint]
    rfl

end Supply

section Lockstep

variable (services : RunServices)

variable {index loaded next : BlockIndex}

theorem modify_alike (alike : Alike index loaded) (hash : Uint256)
    (change other : BlockIndexEntry → Option BlockIndexEntry)
    (each : ∀ entry mirror changed, index hash = some entry →
      persistent mirror = persistent entry → change entry = some changed →
      ∃ mirrored, other mirror = some mirrored ∧ persistent mirrored = persistent changed)
    (taken : BlockIndexRuns.modify index hash change = some next) :
    ∃ after, BlockIndexRuns.modify loaded hash other = some after ∧ Alike next after := by
  unfold BlockIndexRuns.modify at taken ⊢
  obtain ⟨absent, _⟩ | ⟨entry, mirror, found, mirrorFound, same⟩ := alike.either hash
  · rw [absent] at taken
    exact nomatch taken
  · rw [found] at taken
    obtain ⟨changed, made, result⟩ := map_eq_some_iff.mp taken
    obtain ⟨mirrored, alsoMade, still⟩ := each entry mirror changed found same made
    rw [mirrorFound]
    dsimp only
    rw [alsoMade, ← result]
    exact ⟨_, rfl, alike.update hash changed mirrored still⟩

theorem modify_alike_of_through (alike : Alike index loaded)
    (hash : Uint256) (change : BlockIndexEntry → BlockIndexEntry)
    (through : ∀ entry, persistent (change (persistent entry)) = persistent (change entry))
    (taken : BlockIndexRuns.modify index hash (fun entry => some (change entry)) = some next) :
    ∃ after, BlockIndexRuns.modify loaded hash (fun entry => some (change entry)) = some after ∧
      Alike next after := by
  apply modify_alike alike hash _ _ _ taken
  intro entry mirror changed _ same made
  cases made
  exact ⟨change mirror, rfl, persistent_of_through change through entry mirror same⟩

theorem behind_alike (prev hash : Uint256) (parent otherParent blank : BlockIndexEntry)
    (proof : Uint256) (stake : StakeEntry)
    (same : persistent otherParent = persistent parent) :
    persistent (behind services prev hash otherParent proof stake blank) =
      persistent (behind services prev hash parent proof stake blank) := by
  have height : otherParent.nHeight = parent.nHeight :=
    same_field BlockIndexEntry.nHeight (fun _ => rfl) parent otherParent same
  unfold behind
  rw [height]
  dsimp only
  by_cases second : services.params.isStakeModifierV2 (parent.nHeight + 1 : Nat) = true
  · rw [if_pos second, if_pos second]
  · rw [if_neg second, if_neg second]
    rfl

theorem addToBlockIndex_alike (alike : Alike index loaded)
    (block : CBlock) (proof : Uint256)
    (added : BlockIndexRuns.addToBlockIndex services block proof index = .ok next) :
    ∃ after, BlockIndexRuns.addToBlockIndex services block proof loaded = .ok after ∧
      Alike next after := by
  unfold BlockIndexRuns.addToBlockIndex at added ⊢
  dsimp only at added ⊢
  rcases alike.either (hashOf services block) with
    ⟨absent, alsoAbsent⟩ | ⟨entry, mirror, found, mirrorFound, _⟩
  · rw [absent] at added
    rw [alsoAbsent]
    dsimp only at added ⊢
    rw [ZenonCore.Validation.bind_eq_ok] at added
    obtain ⟨blank, made, rest⟩ := added
    rcases alike.either block.hashPrevBlock with
      ⟨orphan, alsoOrphan⟩ | ⟨parent, otherParent, parentFound, otherFound, same⟩
    · rw [orphan] at rest
      cases rest
      refine ⟨update loaded (hashOf services block) (some (raiseValidity blank .tree)),
        ?_, alike.update _ _ _ rfl⟩
      rw [ZenonCore.Validation.bind_eq_ok]
      refine ⟨blank, made, ?_⟩
      rw [alsoOrphan]
    · rw [parentFound] at rest
      dsimp only at rest
      rw [ZenonCore.Validation.bind_eq_ok] at rest
      obtain ⟨stake, staked, rest⟩ := rest
      cases rest
      refine ⟨update loaded (hashOf services block) (some (raiseValidity
        (behind services block.hashPrevBlock (hashOf services block) otherParent proof stake blank)
        .tree)), ?_, alike.update _ _ _ ?_⟩
      · rw [ZenonCore.Validation.bind_eq_ok]
        refine ⟨blank, made, ?_⟩
        rw [otherFound]
        dsimp only
        rw [stakeEntries_alike alike, chainOf_alike services alike, ZenonCore.Validation.bind_eq_ok]
        exact ⟨stake, staked, rfl⟩
      · apply persistent_of_through (fun item => raiseValidity item .tree)
          (raiseValidity_through .tree)
        exact behind_alike services _ _ parent otherParent blank proof stake same
  · rw [found] at added
    cases added
    rw [mirrorFound]
    exact ⟨loaded, rfl, alike⟩

theorem step_alike (event : IndexEvent)
    (sound : Sound services index) (alike : Alike index loaded)
    (covered : Covered services index event) (taken : step services index event = some next) :
    ∃ after, step services loaded event = some after ∧ Alike next after := by
  cases event with
  | addToBlockIndex block proof =>
    rcases addToBlockIndex_alike services alike block proof
      ((toOption_eq_some _ next).mp taken) with ⟨after, added, still⟩
    exact ⟨after, (toOption_eq_some _ after).mpr added, still⟩
  | receivedBlockTransactions hash block nFile nPos =>
    exact modify_alike_of_through alike hash _ (received_through block nFile nPos) taken
  | writeUndo hash nPos =>
    exact modify_alike_of_through alike hash _ (writeUndo_through nPos) taken
  | setMoneySupply hash nValueIn nValueOut nFees =>
    apply modify_alike alike hash _ _ _ taken
    intro entry mirror changed _ same made
    cases made
    refine ⟨_, rfl, ?_⟩
    rw [parentMoney_alike alike entry mirror same]
    exact persistent_of_through _ (setMoneySupply_through _ nValueIn nValueOut nFees) entry
      mirror same
  | updateZZNNSupply hash block result =>
    apply modify_alike alike hash _ _ _ taken
    intro entry mirror changed found same made
    have updated := updateEntrySupply_alike services alike sound hash block entry mirror found
      same (covered.zerocoin hash block result rfl entry found)
    dsimp only at made ⊢
    split_ifs at made with outcome
    cases made
    rw [updated.1, if_pos outcome]
    exact ⟨_, rfl, updated.2⟩
  | raiseValidity hash nUpTo =>
    exact modify_alike_of_through alike hash _ (raiseValidity_through nUpTo) taken
  | setStatus hash change =>
    exact modify_alike_of_through alike hash _ (status_through change) taken
  | rewriteSupply hash supply =>
    exact modify_alike_of_through alike hash (fun entry => setSupply entry supply)
      (fun _ => rfl) taken

end Lockstep

section Restart

variable (services : RunServices)

def recordsOf (index : BlockIndex) (keys : List Uint256) : List Script.Bytes :=
  keys.filterMap fun hash => (index hash).map (recordOf services.toIndexServices)

end Restart

section Example

open ValueGate (exampleBlock coinbaseTx mintTx)
open ForkSerials (emptyCoinbaseTx stakingTx)
open JustCheck (mainnetSupply)

/-- A hash that tells headers apart by a byte of their nonce. -/
def nonceHash (header : Script.Bytes) : Uint256 := BitVec.ofNat 256 (header.getD 76 0).toNat

def rootBlock : CBlock := { exampleBlock 101 0 1553068993 [coinbaseTx 10] with nNonce := 101 }

def mintingBlock : CBlock :=
  { exampleBlock 102 101 1600000000 [emptyCoinbaseTx 20, stakingTx 21 [], mintTx] with
    nNonce := 102 }

def earlyStake : CBlock :=
  { exampleBlock 104 101 1600000000 [emptyCoinbaseTx 20, stakingTx 21 []] with nNonce := 104 }

def exampleServices : RunServices :=
  { mainnetSupply with
    checkProofOfWork := fun hash _ => hash != 104
    hashes := { hashQuark := nonceHash, hash := nonceHash }
    getStakeModifierChecksum := fun _ _ _ _ => 7
    files := fun nFile nPos => if nFile = 0 ∧ nPos = 8 then some rootBlock else none }

def mintingHistory : List IndexEvent :=
  [.addToBlockIndex rootBlock 0, .addToBlockIndex mintingBlock 77,
    .updateZZNNSupply 102 mintingBlock (some true)]

def earlyHistory : List IndexEvent :=
  [.addToBlockIndex rootBlock 0, .addToBlockIndex earlyStake 77]

/-- The proof, the checksum and the coins of ten of an entry. -/
def forgettable (entry : BlockIndexEntry) : Uint256 × UInt32 × Int :=
  (entry.hashProofOfStake, entry.nStakeModifierChecksum, entry.mapZerocoinSupply .zqTen)

def rootEntry : BlockIndexEntry :=
  { BlockIndexEntry.null with
    nVersion := 3
    hashMerkleRoot := 55
    nTime := 1553068993
    nBits := 0x1e0ffff0
    nNonce := 101 }

def addedRoot : BlockIndex :=
  Function.update (fun _ => none) 101 (some (raiseValidity rootEntry .tree))

def rootIndex : BlockIndex :=
  Function.update addedRoot 101
    (some (receivedBlockTransactions rootBlock 0 8 (raiseValidity rootEntry .tree)))

theorem hashOf_rootBlock : hashOf exampleServices rootBlock = 101 := by decide +kernel

theorem root_added : step exampleServices (fun _ => none) (.addToBlockIndex rootBlock 0) =
    some addedRoot := by
  show (BlockIndexRuns.addToBlockIndex exampleServices rootBlock 0 fun _ => none).toOption = _
  unfold BlockIndexRuns.addToBlockIndex
  rw [hashOf_rootBlock]
  rfl

theorem root_received : step exampleServices addedRoot (.receivedBlockTransactions 101 rootBlock 0 8) =
    some rootIndex := rfl

theorem zero_isInt64 : Serialize.IsInt64 0 := by constructor <;> decide

theorem storable_of_null (entry : BlockIndexEntry) (version : entry.nVersion = 3)
    (height : entry.nHeight = 0) (file : entry.nFile = 0)
    (supply : supplyEntry entry = SupplyEntry.null) : Storable entry where
  nHeight := by
    rw [height]
    decide
  nFile := by
    rw [file]
    decide
  nMint := by
    rw [show entry.nMint = 0 from congrArg SupplyEntry.nMint supply]
    exact zero_isInt64
  nMoneySupply := by
    rw [show entry.nMoneySupply = 0 from congrArg SupplyEntry.nMoneySupply supply]
    exact zero_isInt64
  nVersion := by
    rw [version]
    constructor <;> decide
  mapZerocoinSupply := by
    rw [show entry.mapZerocoinSupply = fun _ => 0 from
      congrArg SupplyEntry.mapZerocoinSupply supply]
    exact ⟨rfl, fun _ => zero_isInt64⟩
  vMintDenominationsInBlock := by
    rw [show entry.vMintDenominationsInBlock = [] from
      congrArg SupplyEntry.vMintDenominationsInBlock supply]
    exact Nat.zero_le _

theorem rootIndex_covered :
    AllSteps (step exampleServices) (Covered exampleServices) (fun _ => none)
      [.addToBlockIndex rootBlock 0, .receivedBlockTransactions 101 rootBlock 0 8] := by
  have only : ∀ entry : BlockIndexEntry, Storable entry → ∀ hash other,
      update (fun _ => none : BlockIndex) 101 (some entry) hash = some other →
        Storable other := by
    intro entry storable hash other found
    by_cases same : hash = 101
    · rw [same, update_self] at found
      cases found
      exact storable
    · rw [update_of_ne same] at found
      exact nomatch found
  refine ⟨⟨?_, ?_, ?_⟩, ?_⟩
  · intro next taken
    rw [root_added] at taken
    cases taken
    exact only _ (storable_of_null _ rfl rfl rfl rfl)
  · intro block proof same
    cases same
    refine ⟨?_, Or.inl rfl, ?_⟩
    · rw [hashOf_rootBlock]
      decide
    · intro _
      rw [hashOf_rootBlock]
      decide
  · intro hash block result same
    exact nomatch same
  · intro next taken
    rw [root_added] at taken
    cases taken
    refine ⟨⟨?_, ?_, ?_⟩, fun _ _ => trivial⟩
    · intro next taken
      rw [root_received] at taken
      cases taken
      unfold rootIndex addedRoot
      rw [update_idem]
      exact only _ (storable_of_null _ rfl rfl rfl rfl)
    · intro block proof same
      exact nomatch same
    · intro hash block result same
      exact nomatch same

end Example

end ZenonCore.BlockIndexRestart
