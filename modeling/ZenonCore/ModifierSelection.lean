import ZenonCore.AcceptBlock
import ZenonCore.ValueGate

/-!
# The blocks that make a stake modifier

`ComputeNextStakeModifier` takes a bit from each of up to 64 blocks. The growing bound on the
time ends a search only once it has a block.
-/

namespace ZenonCore.ModifierSelection

open Primitives Chain ChainParams Chainstate List
open StakeInput (StakeEntry)
open Validation (bind_eq_ok)
open ValueGate (exampleBlock genesisBlock)

/-- Every entry of the index is filed under its hash, and so are its ancestors. -/
def Indexed (mapBlockIndex : Uint256 → Option CBlockIndex) : Prop :=
  ∀ hash pindex, mapBlockIndex hash = some pindex →
    pindex ≠ [] ∧ hash = pindex.getBlockHash ∧
      ∀ ancestor : CBlockIndex, ancestor ≠ [] → ancestor <:+ pindex →
        mapBlockIndex ancestor.getBlockHash = some ancestor

structure ModifierView where
  params : CChainParams
  mapBlockIndex : Uint256 → Option CBlockIndex
  indexed : Indexed mapBlockIndex
  stakeEntry : CBlockIndex → StakeEntry
  /-- The hash of the proof and the previous modifier. -/
  hashSelection : Uint256 → UInt64 → Uint256
  /-- `uint64_t("stakemodifier")`, which is an address. -/
  stakemodifier : UInt64

def modifierInterval : Int := 60

def oldModifierInterval : Int := 2087

def getStakeModifierSelectionIntervalSection (nSection : Nat) : Int :=
  (60 * 63 / (63 + (63 - nSection) * (3 - 1)) : Nat)

inductive ModifierError
  | unableToGetLastModifier
  | unableToSelectBlock (nRound : Nat)
deriving DecidableEq, Repr

structure Selecting where
  nStakeModifierNew : UInt64
  nSelectionIntervalStop : Int
  mapSelectedBlocks : List CBlockIndex

/-- What is computed, with the blocks that were selected for it. -/
structure Computed where
  nStakeModifier : UInt64
  fGeneratedStakeModifier : Bool
  mapSelectedBlocks : List CBlockIndex

def notAfter (first second : Int × Uint256) : Prop :=
  first.1 < second.1 ∨ (first.1 = second.1 ∧ first.2.toNat ≤ second.2.toNat)

instance (first second : Int × Uint256) : Decidable (notAfter first second) :=
  inferInstanceAs (Decidable (_ ∨ _))

def isSelected (mapSelectedBlocks : List CBlockIndex) (hash : Uint256) : Bool :=
  mapSelectedBlocks.any fun pindex => pindex.getBlockHash == hash

def insertSelected (mapSelectedBlocks : List CBlockIndex) (pindex : CBlockIndex) :
    List CBlockIndex :=
  if isSelected mapSelectedBlocks pindex.getBlockHash then mapSelectedBlocks
  else mapSelectedBlocks ++ [pindex]

def isProofOfStake (pindex : CBlockIndex) : Bool := pindex.head?.any CBlock.isProofOfStake

def getStakeEntropyBit (pindex : CBlockIndex) : UInt64 :=
  UInt64.ofNat (pindex.getBlockHash.toNat % 2)

section Definitions

variable (view : ModifierView)

def getLastStakeModifier : CBlockIndex → Option (UInt64 × Int)
  | [] => none
  | block :: pprev =>
    let entry := view.stakeEntry (block :: pprev)
    if entry.fGeneratedStakeModifier then some (entry.nStakeModifier, block.getBlockTime)
    else getLastStakeModifier pprev

/-- The hash a candidate is compared by; that of a stake is made smaller. -/
def selectionHash (fModifierV2 : Bool) (nStakeModifierPrev : UInt64) (pindex : CBlockIndex) :
    Uint256 :=
  let hashProof :=
    if fModifierV2 then pindex.getBlockHash
    else if isProofOfStake pindex then 0 else pindex.getBlockHash
  let hashSelection := view.hashSelection hashProof nStakeModifierPrev
  if isProofOfStake pindex then hashSelection >>> 32 else hashSelection

/-- The loop of `SelectBlockFromCandidates`; it fails at a candidate that is not in the index. -/
def selectFrom (mapSelectedBlocks : List CBlockIndex) (nSelectionIntervalStop : Int)
    (nStakeModifierPrev : UInt64) :
    Option Bool → Option (Uint256 × CBlockIndex) → List (Int × Uint256) → Option CBlockIndex
  | _, best, [] => best.map Prod.snd
  | firstRun, best, item :: rest =>
    match view.mapBlockIndex item.2 with
    | none => none
    | some pindex =>
      if best.isSome && decide (nSelectionIntervalStop < pindex.getBlockTime) then
        best.map Prod.snd
      else
        let fModifierV2 :=
          firstRun.getD (decide (view.params.nModifierUpdateBlock ≤ pindex.nHeight))
        if isSelected mapSelectedBlocks pindex.getBlockHash then
          selectFrom mapSelectedBlocks nSelectionIntervalStop nStakeModifierPrev
            (some fModifierV2) best rest
        else
          let hashSelection := selectionHash view fModifierV2 nStakeModifierPrev pindex
          let smaller := best.all fun chosen => decide (hashSelection < chosen.1)
          selectFrom mapSelectedBlocks nSelectionIntervalStop nStakeModifierPrev
            (some fModifierV2) (if smaller then some (hashSelection, pindex) else best) rest

/-- `SelectBlockFromCandidates`, and the block it selects if it succeeds. -/
def selectBlockFromCandidates (vSortedByTimestamp : List (Int × Uint256))
    (mapSelectedBlocks : List CBlockIndex) (nSelectionIntervalStop : Int)
    (nStakeModifierPrev : UInt64) : Option CBlockIndex :=
  selectFrom view mapSelectedBlocks nSelectionIntervalStop nStakeModifierPrev none none
    vSortedByTimestamp

def selectRounds (vSortedByTimestamp : List (Int × Uint256)) (nStakeModifierPrev : UInt64) :
    Nat → Nat → Selecting → Except ModifierError Selecting
  | 0, _, selecting => .ok selecting
  | left + 1, nRound, selecting =>
    let nSelectionIntervalStop :=
      selecting.nSelectionIntervalStop + getStakeModifierSelectionIntervalSection nRound
    match selectBlockFromCandidates view vSortedByTimestamp selecting.mapSelectedBlocks
        nSelectionIntervalStop nStakeModifierPrev with
    | none => .error (.unableToSelectBlock nRound)
    | some pindex =>
      selectRounds vSortedByTimestamp nStakeModifierPrev left (nRound + 1)
        { nStakeModifierNew :=
            selecting.nStakeModifierNew ||| getStakeEntropyBit pindex <<< UInt64.ofNat nRound
          nSelectionIntervalStop := nSelectionIntervalStop
          mapSelectedBlocks := insertSelected selecting.mapSelectedBlocks pindex }

def nSelectionIntervalStart (pindexPrev : CBlockIndex) : Int :=
  pindexPrev.getBlockTime / modifierInterval * modifierInterval - oldModifierInterval

/-- The candidates: the last blocks of the chain up to the first that is too old. -/
def candidates (pindexPrev : CBlockIndex) : List CBlockIndex :=
  pindexPrev.tails.takeWhile fun pindex =>
    !pindex.isEmpty && decide (nSelectionIntervalStart pindexPrev ≤ pindex.getBlockTime)

def vSortedByTimestamp (pindexPrev : CBlockIndex) : List (Int × Uint256) :=
  (((candidates pindexPrev).map fun pindex =>
    (pindex.getBlockTime, pindex.getBlockHash)).reverse).insertionSort notAfter

/-- The modifier is older than the interval that the block is in. -/
def isOldEnough (nModifierTime : Int) (pindexPrev : CBlockIndex) : Bool :=
  !decide (pindexPrev.getBlockTime / modifierInterval ≤ nModifierTime / modifierInterval)

def selectModifier (nStakeModifier : UInt64) (pindexPrev : CBlockIndex) :
    Except ModifierError Computed :=
  let sorted := vSortedByTimestamp pindexPrev
  match selectRounds view sorted nStakeModifier (min 64 sorted.length) 0
      { nStakeModifierNew := 0
        nSelectionIntervalStop := nSelectionIntervalStart pindexPrev
        mapSelectedBlocks := [] } with
  | .error failure => .error failure
  | .ok selected =>
    .ok
      { nStakeModifier := selected.nStakeModifierNew
        fGeneratedStakeModifier := true
        mapSelectedBlocks := selected.mapSelectedBlocks }

def computeNextStakeModifier (pindexPrev : CBlockIndex) : Except ModifierError Computed :=
  if pindexPrev.isEmpty then
    .ok { nStakeModifier := 0, fGeneratedStakeModifier := true, mapSelectedBlocks := [] }
  else if pindexPrev.nHeight = 0 then
    .ok
      { nStakeModifier := view.stakemodifier
        fGeneratedStakeModifier := true
        mapSelectedBlocks := [] }
  else
    match getLastStakeModifier view pindexPrev with
    | none => .error .unableToGetLastModifier
    | some (nStakeModifier, nModifierTime) =>
      if !isOldEnough nModifierTime pindexPrev then
        .ok
          { nStakeModifier := nStakeModifier
            fGeneratedStakeModifier := false
            mapSelectedBlocks := [] }
      else selectModifier view nStakeModifier pindexPrev

def Selects (pindexPrev : CBlockIndex) : Prop :=
  pindexPrev.nHeight ≠ 0 ∧ ∃ nStakeModifier nModifierTime,
    getLastStakeModifier view pindexPrev = some (nStakeModifier, nModifierTime) ∧
      isOldEnough nModifierTime pindexPrev = true

end Definitions

section Candidates

variable (view : ModifierView)

def OnChain (pindexPrev : CBlockIndex) : Prop :=
  ∀ pindex : CBlockIndex, pindex ≠ [] → pindex <:+ pindexPrev →
    view.mapBlockIndex pindex.getBlockHash = some pindex

theorem mem_candidates (pindexPrev pindex : CBlockIndex)
    (candidate : pindex ∈ candidates pindexPrev) : pindex ≠ [] ∧ pindex <:+ pindexPrev := by
  have passes := mem_takeWhile_imp candidate
  have tail := (takeWhile_subset _) candidate
  rw [Bool.and_eq_true, Bool.not_eq_true', isEmpty_eq_false_iff] at passes
  exact ⟨passes.1, (mem_tails _ _).mp tail⟩

variable (pindexPrev : CBlockIndex)

theorem tails_nodup : pindexPrev.tails.Nodup := by
  induction pindexPrev with
  | nil => exact nodup_singleton []
  | cons block pprev ih =>
    rw [tails_cons]
    refine nodup_cons.mpr ⟨fun member => ?_, ih⟩
    have shorter := ((mem_tails _ _).mp member).length_le
    rw [length_cons] at shorter
    omega

theorem candidates_nodup : (candidates pindexPrev).Nodup :=
  (tails_nodup pindexPrev).sublist (takeWhile_sublist _)

theorem sorted_perm :
    (vSortedByTimestamp pindexPrev).Perm ((candidates pindexPrev).map fun pindex =>
      (pindex.getBlockTime, pindex.getBlockHash)) :=
  (perm_insertionSort _ _).trans (reverse_perm _)

theorem sorted_length :
    (vSortedByTimestamp pindexPrev).length = (candidates pindexPrev).length := by
  rw [(sorted_perm pindexPrev).length_eq, length_map]

theorem sorted_indexed (onChain : OnChain view pindexPrev)
    (item : Int × Uint256) (member : item ∈ vSortedByTimestamp pindexPrev) :
    ∃ pindex ∈ candidates pindexPrev, item.2 = pindex.getBlockHash ∧
      view.mapBlockIndex item.2 = some pindex := by
  rcases mem_map.mp ((sorted_perm pindexPrev).mem_iff.mp member) with
    ⟨pindex, candidate, isItem⟩
  obtain ⟨some, suffix⟩ := mem_candidates pindexPrev pindex candidate
  refine ⟨pindex, candidate, ?_, ?_⟩
  · rw [← isItem]
  · rw [← isItem]
    exact onChain pindex some suffix

theorem sorted_hashes_nodup (onChain : OnChain view pindexPrev) :
    ((vSortedByTimestamp pindexPrev).map Prod.snd).Nodup := by
  rw [((sorted_perm pindexPrev).map Prod.snd).nodup_iff, map_map]
  apply List.Nodup.map_on _ (candidates_nodup pindexPrev)
  intro first isFirst second isSecond same
  obtain ⟨firstSome, firstSuffix⟩ := mem_candidates pindexPrev first isFirst
  obtain ⟨secondSome, secondSuffix⟩ := mem_candidates pindexPrev second isSecond
  have found := onChain first firstSome firstSuffix
  have sameHash : first.getBlockHash = second.getBlockHash := same
  rw [sameHash, onChain second secondSome secondSuffix] at found
  exact (Option.some.inj found).symm

end Candidates

section Rounds

variable (view : ModifierView) (pindexPrev : CBlockIndex) (nStakeModifierPrev : UInt64)

variable (mapSelectedBlocks : List CBlockIndex)

/-- The search returns what it had or an unselected candidate, if there is one. -/
theorem selectFrom_spec (nSelectionIntervalStop : Int)
    (items : List (Int × Uint256))
    (known : ∀ item ∈ items, ∃ pindex ∈ candidates pindexPrev,
      item.2 = pindex.getBlockHash ∧ view.mapBlockIndex item.2 = some pindex)
    (firstRun : Option Bool) (best : Option (Uint256 × CBlockIndex))
    (fits : ∀ chosen, best = some chosen → chosen.2 ∈ candidates pindexPrev ∧
      isSelected mapSelectedBlocks chosen.2.getBlockHash = false)
    (available : best.isSome ∨ ∃ item ∈ items, isSelected mapSelectedBlocks item.2 = false) :
    ∃ pindex ∈ candidates pindexPrev,
      isSelected mapSelectedBlocks pindex.getBlockHash = false ∧
        selectFrom view mapSelectedBlocks nSelectionIntervalStop nStakeModifierPrev firstRun best
          items = some pindex := by
  induction items generalizing firstRun best with
  | nil =>
    obtain chosen | ⟨item, none, _⟩ := available
    · obtain ⟨pair, isPair⟩ := Option.isSome_iff_exists.mp chosen
      obtain ⟨candidate, unselected⟩ := fits pair isPair
      refine ⟨pair.2, candidate, unselected, ?_⟩
      rw [selectFrom, isPair]
      rfl
    · cases none
  | cons item rest ih =>
    have later := ih fun other member => known other (mem_cons_of_mem _ member)
    obtain ⟨pindex, candidate, isHash, found⟩ := known item mem_cons_self
    rw [selectFrom, found]
    dsimp only
    split
    · rename_i stops
      rw [Bool.and_eq_true] at stops
      obtain ⟨pair, isPair⟩ := Option.isSome_iff_exists.mp stops.1
      obtain ⟨chosen, unselected⟩ := fits pair isPair
      refine ⟨pair.2, chosen, unselected, ?_⟩
      rw [isPair]
      rfl
    split
    · rename_i selected
      apply later _ _ fits
      obtain chosen | ⟨other, member, unselected⟩ := available
      · exact Or.inl chosen
      · obtain here | isLater := mem_cons.mp member
        · rw [here, isHash, selected] at unselected
          cases unselected
        · exact Or.inr ⟨other, isLater, unselected⟩
    · rename_i unselected
      have isFree := Bool.eq_false_iff.mpr unselected
      apply later
      · intro chosen isChosen
        split at isChosen
        · cases isChosen
          exact ⟨candidate, isFree⟩
        · exact fits chosen isChosen
      · left
        split
        · rfl
        · rename_i larger
          cases best with
          | none => exact absurd rfl larger
          | some chosen => rfl

/-- As long as fewer blocks are selected than there are candidates, one of these is
not selected. -/
theorem unselected_exists (onChain : OnChain view pindexPrev) (mapSelectedBlocks : List CBlockIndex)
    (fewer : mapSelectedBlocks.length < (candidates pindexPrev).length) :
    ∃ item ∈ vSortedByTimestamp pindexPrev, isSelected mapSelectedBlocks item.2 = false := by
  by_contra none
  have all : ((vSortedByTimestamp pindexPrev).map Prod.snd) ⊆
      mapSelectedBlocks.map CBlockIndex.getBlockHash := by
    intro hash member
    obtain ⟨item, isItem, isHash⟩ := mem_map.mp member
    have selected : isSelected mapSelectedBlocks item.2 = true := by
      by_contra free
      exact none ⟨item, isItem, Bool.eq_false_iff.mpr free⟩
    obtain ⟨pindex, inMap, same⟩ := any_eq_true.mp selected
    rw [← isHash]
    exact mem_map.mpr ⟨pindex, inMap, beq_iff_eq.mp same⟩
  have shorter := (subperm_of_subset
    (sorted_hashes_nodup view pindexPrev onChain) all).length_le
  rw [length_map, length_map, sorted_length] at shorter
  omega

/-- What the rounds keep: the blocks selected are candidates, and different. -/
structure Chosen (mapSelectedBlocks : List CBlockIndex) : Prop where
  fromCandidates : ∀ pindex ∈ mapSelectedBlocks, pindex ∈ candidates pindexPrev
  once : (mapSelectedBlocks.map CBlockIndex.getBlockHash).Nodup

theorem Chosen.insert (pindex : CBlockIndex)
    (chosen : Chosen pindexPrev mapSelectedBlocks) (candidate : pindex ∈ candidates pindexPrev)
    (unselected : isSelected mapSelectedBlocks pindex.getBlockHash = false) :
    Chosen pindexPrev (insertSelected mapSelectedBlocks pindex) ∧
      (insertSelected mapSelectedBlocks pindex).length = mapSelectedBlocks.length + 1 := by
  unfold insertSelected
  rw [unselected, if_neg Bool.false_ne_true]
  refine ⟨⟨?_, ?_⟩, length_append⟩
  · intro other member
    obtain old | new := mem_append.mp member
    · exact chosen.fromCandidates other old
    · rw [mem_singleton.mp new]
      exact candidate
  · rw [map_append, map_singleton]
    apply nodup_append'.mpr
    refine ⟨chosen.once, nodup_singleton _, ?_⟩
    intro hash old new
    rw [mem_singleton.mp new] at old
    obtain ⟨other, member, same⟩ := mem_map.mp old
    have selected : isSelected mapSelectedBlocks pindex.getBlockHash = true :=
      any_eq_true.mpr ⟨other, member, beq_iff_eq.mpr same⟩
    rw [unselected] at selected
    cases selected

theorem selectRounds_spec (onChain : OnChain view pindexPrev) (left nRound : Nat)
    (selecting : Selecting) (chosen : Chosen pindexPrev selecting.mapSelectedBlocks)
    (enough : selecting.mapSelectedBlocks.length + left ≤ (candidates pindexPrev).length) :
    ∃ selected, selectRounds view (vSortedByTimestamp pindexPrev) nStakeModifierPrev left nRound
        selecting = .ok selected ∧ Chosen pindexPrev selected.mapSelectedBlocks ∧
      selected.mapSelectedBlocks.length = selecting.mapSelectedBlocks.length + left := by
  induction left generalizing nRound selecting with
  | zero => exact ⟨selecting, rfl, chosen, rfl⟩
  | succ left ih =>
    have free := unselected_exists view pindexPrev onChain selecting.mapSelectedBlocks (by omega)
    rcases selectFrom_spec view pindexPrev nStakeModifierPrev selecting.mapSelectedBlocks
      (selecting.nSelectionIntervalStop + getStakeModifierSelectionIntervalSection nRound)
      (vSortedByTimestamp pindexPrev) (sorted_indexed view pindexPrev onChain) none none
      (fun _ none => by cases none) (Or.inr free) with ⟨pindex, candidate, unselected, isBest⟩
    rcases chosen.insert pindexPrev selecting.mapSelectedBlocks pindex candidate unselected with
      ⟨next, longer⟩
    rw [selectRounds, selectBlockFromCandidates, isBest]
    dsimp only
    rcases ih (nRound + 1)
      { nStakeModifierNew :=
          selecting.nStakeModifierNew ||| getStakeEntropyBit pindex <<< UInt64.ofNat nRound
        nSelectionIntervalStop :=
          selecting.nSelectionIntervalStop + getStakeModifierSelectionIntervalSection nRound
        mapSelectedBlocks := insertSelected selecting.mapSelectedBlocks pindex }
      next (by rw [longer]; omega) with ⟨selected, done, kept, length⟩
    refine ⟨selected, done, kept, length.trans ?_⟩
    rw [longer]
    omega

end Rounds

/-- The selection never fails, and takes as many blocks as there are candidates, but at most 64, one
in each round, and no block twice. -/
theorem every_round_selects (view : ModifierView) (hash : Uint256) (pindexPrev : CBlockIndex)
    (known : view.mapBlockIndex hash = some pindexPrev) :
    (∀ nRound, computeNextStakeModifier view pindexPrev ≠ .error (.unableToSelectBlock nRound)) ∧
    (Selects view pindexPrev → ∃ computed,
      computeNextStakeModifier view pindexPrev = .ok computed ∧
        computed.fGeneratedStakeModifier = true ∧
        computed.mapSelectedBlocks.length = min 64 (candidates pindexPrev).length ∧
        computed.mapSelectedBlocks.Nodup ∧
        ∀ pindex ∈ computed.mapSelectedBlocks, pindex ∈ candidates pindexPrev) := by
  obtain ⟨some, _, onChain⟩ := view.indexed hash pindexPrev known
  have selects : ∀ nStakeModifier, ∃ computed,
      selectModifier view nStakeModifier pindexPrev = .ok computed ∧
        computed.fGeneratedStakeModifier = true ∧
        computed.mapSelectedBlocks.length = min 64 (candidates pindexPrev).length ∧
        computed.mapSelectedBlocks.Nodup ∧
        ∀ pindex ∈ computed.mapSelectedBlocks, pindex ∈ candidates pindexPrev := by
    intro nStakeModifier
    rcases selectRounds_spec view pindexPrev nStakeModifier onChain
      (min 64 (vSortedByTimestamp pindexPrev).length) 0
      { nStakeModifierNew := 0
        nSelectionIntervalStop := nSelectionIntervalStart pindexPrev
        mapSelectedBlocks := [] }
      { fromCandidates := fun _ none => by cases none
        once := nodup_nil }
      (by rw [sorted_length, length_nil]; omega) with ⟨selected, done, chosen, length⟩
    rw [selectModifier, done]
    refine ⟨_, rfl, rfl, ?_, chosen.once.of_map _, chosen.fromCandidates⟩
    rw [length, sorted_length, length_nil, Nat.zero_add]
  have notEmpty : pindexPrev.isEmpty = false := isEmpty_eq_false_iff.mpr some
  constructor
  · intro nRound failed
    unfold computeNextStakeModifier at failed
    rw [notEmpty, if_neg Bool.false_ne_true] at failed
    split at failed
    · cases failed
    cases last : getLastStakeModifier view pindexPrev with
    | none =>
      rw [last] at failed
      cases failed
    | some modifier =>
      rw [last] at failed
      dsimp only at failed
      split at failed
      · cases failed
      · obtain ⟨computed, done, _⟩ := selects modifier.1
        rw [done] at failed
        cases failed
  · intro condition
    obtain ⟨notGenesis, nStakeModifier, nModifierTime, last, old⟩ := condition
    obtain ⟨computed, done, facts⟩ := selects nStakeModifier
    refine ⟨computed, ?_, facts⟩
    rw [computeNextStakeModifier, notEmpty, if_neg Bool.false_ne_true, if_neg notGenesis, last]
    dsimp only
    rw [old]
    exact done

def laterBlocks : CBlockIndex :=
  [exampleBlock 102 101 1600000030 [], exampleBlock 101 mainParams.hashGenesisBlock 1600000020 [],
    genesisBlock]

def laterIndex (hash : Uint256) : Option CBlockIndex :=
  if hash = 102 then some laterBlocks
  else if hash = 101 then some laterBlocks.tail
  else if hash = mainParams.hashGenesisBlock then some laterBlocks.tail.tail
  else none

theorem laterIndex_indexed : Indexed laterIndex := by
  have filed : ∀ pindex ∈ laterBlocks.tails, pindex ≠ [] →
      laterIndex (CBlockIndex.getBlockHash pindex) = some pindex := by
    decide +kernel
  intro hash pindex found
  have entry : pindex ≠ [] ∧ hash = pindex.getBlockHash ∧ pindex <:+ laterBlocks := by
    unfold laterIndex at found
    split at found
    · rename_i isHash
      cases found
      exact ⟨cons_ne_nil _ _, isHash, suffix_refl _⟩
    split at found
    · rename_i isHash
      cases found
      exact ⟨cons_ne_nil _ _, isHash, tail_suffix _⟩
    split at found
    · rename_i isHash
      cases found
      exact ⟨cons_ne_nil _ _, isHash, (tail_suffix _).trans (tail_suffix _)⟩
    · cases found
  refine ⟨entry.1, entry.2.1, fun ancestor some suffix => ?_⟩
  exact filed ancestor ((mem_tails _ _).mpr (suffix.trans entry.2.2)) some

def laterView : ModifierView where
  params := mainParams
  mapBlockIndex := laterIndex
  indexed := laterIndex_indexed
  stakeEntry := fun pindex =>
    { nStakeModifier := 5
      fGeneratedStakeModifier := pindex.length = 1
      nStakeModifierV2 := 0 }
  hashSelection := fun hashProof nStakeModifier =>
    hashProof ^^^ BitVec.ofNat 256 nStakeModifier.toNat
  stakemodifier := 7

/-- Both blocks are selected. -/
theorem later_blocks_selected :
    (∀ nRound, computeNextStakeModifier laterView laterBlocks ≠
      .error (.unableToSelectBlock nRound)) ∧
    ∃ computed, computeNextStakeModifier laterView laterBlocks = .ok computed ∧
      computed.mapSelectedBlocks.length = 2 := by
  have rounds := every_round_selects laterView 102 laterBlocks (by decide +kernel)
  have selects : Selects laterView laterBlocks := by
    refine ⟨by decide, 5, 1553068993, ?_, ?_⟩ <;> decide +kernel
  have count : min 64 (candidates laterBlocks).length = 2 := by decide +kernel
  obtain ⟨computed, done, _, length, _⟩ := rounds.2 selects
  exact ⟨rounds.1, computed, done, length.trans count⟩

end ZenonCore.ModifierSelection
