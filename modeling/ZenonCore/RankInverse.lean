import Mathlib.Data.List.Nodup
import ZenonCore.CollateralOwnership
import ZenonCore.WinnerRanks

/-!
# The masternode of a rank

`GetMasternodeByRank` neither asks for the block nor passes over young masternodes, so it
counts entries that have no rank.
-/

namespace ZenonCore.RankInverse

open Primitives Chainstate Masternode BlockHashCache List Option
open ValueGate (mainnetServices)
open CollateralOwnership (syncedNode)
open MasternodeRanks WinnerRanks Library.Rankings

section Definitions

variable (view : RankView) (getBlockHash : Int → Option Uint256) (nBlockHeight minProtocol : Int)
variable (fOnlyActive : Bool)

/-- A node that checks the entries of its list with `CMasternode::Check`. -/
def checkingView (services : Services) (env : Environment) : RankView :=
  { view with check := fun mn => mn.check services env (.list mn.vin) false }

structure Inverts : Prop where
  found : ∀ vin nRank, 1 ≤ nRank →
    rankOf view getBlockHash nBlockHeight minProtocol vin fOnlyActive = nRank →
      ∃ mn, getMasternodeByRank view getBlockHash nBlockHeight minProtocol nRank fOnlyActive =
        some mn ∧ mn.vin.prevout = vin.prevout
  ranked : ∀ nRank mn,
    getMasternodeByRank view getBlockHash nBlockHeight minProtocol nRank fOnlyActive = some mn →
      rankOf view getBlockHash nBlockHeight minProtocol mn.vin fOnlyActive = nRank

/-- The block is known, and the masternodes that are counted are old enough and
have different outpoints. -/
structure AllRanked : Prop where
  known : (getBlockHash (toInt nBlockHeight)).isSome = true
  aged : ∀ mn ∈ scoredBy view minProtocol fOnlyActive, view.isPaymentEnforced = true →
    minimumAge ≤ view.adjustedTime - mn.sigTime
  distinct : ((scoredBy view minProtocol fOnlyActive).map fun mn => mn.vin.prevout).Nodup

/-- The outpoints of some masternodes, from the highest score to the lowest. -/
def sortedOutPoints (masternodes : List CMasternode) : List COutPoint :=
  (view.sortScores (scoresOf view getBlockHash nBlockHeight masternodes)).map fun score =>
    score.2.prevout

end Definitions

section Filters

variable (view : RankView) (minProtocol : Int) (fOnlyActive : Bool)

variable (mn : CMasternode)

theorem skips_eq :
    view.skips minProtocol fOnlyActive mn =
      (isPassedOver view minProtocol fOnlyActive mn ||
        (view.isPaymentEnforced && decide (view.adjustedTime - mn.sigTime < minimumAge))) := by
  unfold RankView.skips isPassedOver
  rw [Bool.or_assoc, Bool.or_assoc]
  congr 1
  exact Bool.or_comm _ _

theorem ranked_scored (ranked : mn ∈ rankedBy view minProtocol fOnlyActive) :
    mn ∈ scoredBy view minProtocol fOnlyActive := by
  obtain ⟨listed, passes⟩ := mem_filter.mp ranked
  rw [skips_eq, Bool.not_or, Bool.and_eq_true] at passes
  exact mem_filter.mpr ⟨listed, passes.1⟩

theorem ranked_eq_scored (aged : ∀ mn ∈ scoredBy view minProtocol fOnlyActive,
    view.isPaymentEnforced = true → minimumAge ≤ view.adjustedTime - mn.sigTime) :
    rankedBy view minProtocol fOnlyActive = scoredBy view minProtocol fOnlyActive := by
  apply filter_congr
  intro mn listed
  rw [skips_eq]
  cases passed : isPassedOver view minProtocol fOnlyActive mn with
  | true => rfl
  | false =>
    have scored : mn ∈ scoredBy view minProtocol fOnlyActive :=
      mem_filter.mpr ⟨listed, by rw [passed]; rfl⟩
    cases enforced : view.isPaymentEnforced with
    | false => rfl
    | true =>
      have old := aged mn scored enforced
      rw [decide_eq_false (by omega)]
      rfl

theorem ranked_aged (ranked : mn ∈ rankedBy view minProtocol fOnlyActive)
    (enforced : view.isPaymentEnforced = true) : minimumAge ≤ view.adjustedTime - mn.sigTime := by
  obtain ⟨_, passes⟩ := mem_filter.mp ranked
  rw [skips_eq, enforced, Bool.not_or, Bool.and_eq_true, Bool.true_and] at passes
  have old := of_decide_eq_false ((Bool.not_eq_true' _).mp passes.2)
  omega

end Filters

section Positions

variable (view : RankView) (getBlockHash : Int → Option Uint256) (nBlockHeight minProtocol : Int)
variable (fOnlyActive : Bool)

theorem rank_iff (hash : Uint256) (known : getBlockHash (toInt nBlockHeight) = some hash)
    (vin : CTxIn) (position : Nat) :
    rankOf view getBlockHash nBlockHeight minProtocol vin fOnlyActive = position + 1 ↔
      (sortedOutPoints view getBlockHash nBlockHeight
        (rankedBy view minProtocol fOnlyActive)).findIdx? (· == vin.prevout) = some position := by
  rw [rankOf_known view getBlockHash nBlockHeight minProtocol vin fOnlyActive hash known]
  unfold sortedOutPoints
  rw [findIdx?_map]
  have sorted : ((fun outpoint : COutPoint => outpoint == vin.prevout) ∘
      fun score : UInt32 × CTxIn => score.2.prevout) = fun score => score.2.prevout == vin.prevout :=
    rfl
  rw [sorted]
  cases (view.sortScores (scoresOf view getBlockHash nBlockHeight
      (rankedBy view minProtocol fOnlyActive))).findIdx? fun score =>
        score.2.prevout == vin.prevout with
  | none =>
    constructor
    · intro same
      have negative : (-1 : Int) = position + 1 := same
      omega
    · intro same
      cases same
  | some found =>
    rw [rankAt_some, some.injEq]
    omega

variable (keepsVin : ∀ mn, (view.check mn).vin = mn.vin)
include keepsVin

theorem checkedBy_outpoints :
    (checkedBy view minProtocol fOnlyActive).map (fun mn => mn.vin.prevout) =
      view.vMasternodes.map fun mn => mn.vin.prevout := by
  unfold checkedBy
  rw [List.map_map]
  apply List.map_congr_left
  intro mn _
  rw [Function.comp_apply]
  split
  · rw [keepsVin]
  · rfl

/-- A position among the sorted outpoints is the rank of an entry with the
outpoint. -/
theorem byRank_at (perm : ∀ scores, (view.sortScores scores).Perm scores) (position : Nat)
    (outpoint : COutPoint)
    (there : (sortedOutPoints view getBlockHash nBlockHeight
      (scoredBy view minProtocol fOnlyActive))[position]? = some outpoint) :
    ∃ mn, getMasternodeByRank view getBlockHash nBlockHeight minProtocol (position + 1)
      fOnlyActive = some mn ∧ mn.vin.prevout = outpoint := by
  unfold sortedOutPoints at there
  rw [getElem?_map] at there
  obtain ⟨score, atPosition, isOutPoint⟩ := map_eq_some_iff.mp there
  have listed := (perm _).mem_iff.mp (mem_of_getElem? atPosition)
  obtain ⟨mn, scored, isScore⟩ := mem_map.mp listed
  have ofList : outpoint ∈ (checkedBy view minProtocol fOnlyActive).map fun mn =>
      mn.vin.prevout := by
    rw [checkedBy_outpoints view minProtocol fOnlyActive keepsVin, ← isOutPoint, ← isScore]
    exact mem_map_of_mem (mem_filter.mp scored).1
  obtain ⟨checked, member, isSame⟩ := mem_map.mp ofList
  have present : ((checkedBy view minProtocol fOnlyActive).find? fun mn =>
      mn.vin.prevout == outpoint).isSome = true := by
    rw [find?_isSome]
    exact ⟨checked, member, by rw [isSame]; exact beq_self_eq_true _⟩
  obtain ⟨result, found⟩ := isSome_iff_exists.mp present
  have isMatch := find?_some found
  refine ⟨result, ?_, beq_iff_eq.mp isMatch⟩
  unfold getMasternodeByRank
  have index : ((position : Int) + 1 - 1).toNat = position := by omega
  dsimp only
  rw [if_neg (by omega), index, atPosition]
  dsimp only
  rw [isOutPoint]
  exact found

omit keepsVin in
theorem byRank_some (nRank : Int) (mn : CMasternode)
    (found : getMasternodeByRank view getBlockHash nBlockHeight minProtocol nRank fOnlyActive =
      some mn) :
    ∃ position : Nat, nRank = position + 1 ∧
      (sortedOutPoints view getBlockHash nBlockHeight
        (scoredBy view minProtocol fOnlyActive))[position]? = some mn.vin.prevout := by
  unfold getMasternodeByRank at found
  dsimp only at found
  split at found
  · cases found
  · rename_i positive
    split at found
    · cases found
    · rename_i score atPosition
      have isMatch := find?_some found
      refine ⟨(nRank - 1).toNat, by omega, ?_⟩
      unfold sortedOutPoints
      rw [getElem?_map, atPosition, map_some, beq_iff_eq.mp isMatch]

end Positions

section Inverse

variable (view : RankView) (getBlockHash : Int → Option Uint256) (nBlockHeight minProtocol : Int)
variable (fOnlyActive : Bool) (perm : ∀ scores, (view.sortScores scores).Perm scores)
include perm

theorem sortedOutPoints_perm (masternodes : List CMasternode) :
    (sortedOutPoints view getBlockHash nBlockHeight masternodes).Perm
      (masternodes.map fun mn => mn.vin.prevout) := by
  have sorted := (perm (scoresOf view getBlockHash nBlockHeight masternodes)).map
    fun score => score.2.prevout
  unfold scoresOf at sorted
  rw [List.map_map] at sorted
  exact sorted

variable (keepsVin : ∀ mn, (view.check mn).vin = mn.vin)
include keepsVin

theorem inverse_of_allRanked
    (all : AllRanked view getBlockHash nBlockHeight minProtocol fOnlyActive) :
    Inverts view getBlockHash nBlockHeight minProtocol fOnlyActive := by
  obtain ⟨hash, known⟩ := isSome_iff_exists.mp all.known
  have same := ranked_eq_scored view minProtocol fOnlyActive all.aged
  have distinct : (sortedOutPoints view getBlockHash nBlockHeight
      (scoredBy view minProtocol fOnlyActive)).Nodup :=
    (sortedOutPoints_perm view getBlockHash nBlockHeight perm _).nodup_iff.mpr all.distinct
  constructor
  · intro vin nRank positive isRank
    have natural : nRank = (nRank - 1).toNat + 1 := by omega
    rw [natural] at isRank ⊢
    have position := (rank_iff view getBlockHash nBlockHeight minProtocol fOnlyActive hash known vin
      (nRank - 1).toNat).mp isRank
    rw [same] at position
    obtain ⟨bound, isVin, _⟩ := findIdx?_eq_some_iff_getElem.mp position
    apply byRank_at view getBlockHash nBlockHeight minProtocol fOnlyActive keepsVin perm
    rw [getElem?_eq_getElem bound, beq_iff_eq.mp isVin]
  · intro nRank mn found
    rcases byRank_some view getBlockHash nBlockHeight minProtocol fOnlyActive nRank mn found with
      ⟨position, isRank, there⟩
    rw [isRank]
    apply (rank_iff view getBlockHash nBlockHeight minProtocol fOnlyActive hash known mn.vin
      position).mpr
    rw [same]
    obtain ⟨bound, isOwn⟩ := List.getElem?_eq_some_iff.mp there
    apply findIdx?_eq_some_iff_getElem.mpr
    refine ⟨bound, beq_iff_eq.mpr isOwn, fun earlier before sameOutPoint => ?_⟩
    have equal := beq_iff_eq.mp sameOutPoint
    rw [← isOwn] at equal
    have index := (distinct.getElem_inj_iff).mp equal
    omega

theorem allRanked_of_inverse
    (inverse : Inverts view getBlockHash nBlockHeight minProtocol fOnlyActive)
    (counted : scoredBy view minProtocol fOnlyActive ≠ []) :
    AllRanked view getBlockHash nBlockHeight minProtocol fOnlyActive := by
  have sorted := sortedOutPoints_perm view getBlockHash nBlockHeight perm
    (scoredBy view minProtocol fOnlyActive)
  have ranked : ∀ (position : Nat) (outpoint : COutPoint), (sortedOutPoints view getBlockHash nBlockHeight
      (scoredBy view minProtocol fOnlyActive))[position]? = some outpoint →
        ∃ mn : CMasternode, mn.vin.prevout = outpoint ∧
          rankOf view getBlockHash nBlockHeight minProtocol mn.vin fOnlyActive = position + 1 := by
    intro position outpoint there
    rcases byRank_at view getBlockHash nBlockHeight minProtocol fOnlyActive keepsVin perm position
      outpoint there with ⟨mn, found, isOutPoint⟩
    exact ⟨mn, isOutPoint, inverse.ranked _ mn found⟩
  have blockKnown : (getBlockHash (toInt nBlockHeight)).isSome = true := by
    have inFront : ∃ outpoint, (sortedOutPoints view getBlockHash nBlockHeight
        (scoredBy view minProtocol fOnlyActive))[0]? = some outpoint := by
      apply isSome_iff_exists.mp
      rw [isSome_getElem?, sorted.length_eq, length_map]
      exact length_pos_iff.mpr counted
    obtain ⟨outpoint, there⟩ := inFront
    obtain ⟨mn, _, isRank⟩ := ranked 0 outpoint there
    cases unknown : getBlockHash (toInt nBlockHeight) with
    | some hash => rfl
    | none =>
      rw [rankOf_unknown view getBlockHash nBlockHeight minProtocol mn.vin fOnlyActive unknown]
        at isRank
      cases isRank
  obtain ⟨hash, known⟩ := isSome_iff_exists.mp blockKnown
  have position_of : ∀ (position : Nat) (outpoint : COutPoint), (sortedOutPoints view getBlockHash nBlockHeight
      (scoredBy view minProtocol fOnlyActive))[position]? = some outpoint →
        (sortedOutPoints view getBlockHash nBlockHeight
          (rankedBy view minProtocol fOnlyActive)).findIdx? (· == outpoint) = some position := by
    intro position outpoint there
    obtain ⟨mn, isOutPoint, isRank⟩ := ranked position outpoint there
    rw [← isOutPoint]
    exact (rank_iff view getBlockHash nBlockHeight minProtocol fOnlyActive hash known mn.vin
      position).mp isRank
  have distinct : ((scoredBy view minProtocol fOnlyActive).map fun mn => mn.vin.prevout).Nodup := by
    apply sorted.nodup_iff.mp
    apply nodup_iff_getElem?_ne_getElem?.mpr
    intro first second before bound same
    have there := getElem?_eq_getElem bound
    have later := position_of second _ there
    have earlier := position_of first _ (same.trans there)
    rw [later] at earlier
    exact absurd (some.inj earlier) (by omega)
  refine ⟨blockKnown, fun mn scored enforced => ?_, distinct⟩
  have listed := sorted.mem_iff.mpr
    (mem_map_of_mem (f := fun entry : CMasternode => entry.vin.prevout) scored)
  obtain ⟨position, there⟩ := mem_iff_getElem?.mp listed
  rcases findIdx?_eq_some_iff_getElem.mp (position_of position _ there) with
    ⟨bound, isOutPoint, _⟩
  have inRanks := (sortedOutPoints_perm view getBlockHash nBlockHeight perm
    (rankedBy view minProtocol fOnlyActive)).mem_iff.mp (getElem_mem bound)
  obtain ⟨other, isRanked, sameOutPoint⟩ := mem_map.mp inRanks
  rw [beq_iff_eq.mp isOutPoint] at sameOutPoint
  have same := inj_on_of_nodup_map distinct
    (ranked_scored view minProtocol fOnlyActive other isRanked) scored sameOutPoint
  rw [← same]
  exact ranked_aged view minProtocol fOnlyActive other isRanked enforced

end Inverse

/-- The two functions undo each other if and only if no masternode is counted, or the block is known
and those counted are old enough and have different outpoints. -/
theorem byRank_inverts_rank_iff (services : Services) (env : Environment) (view : RankView)
    (perm : ∀ scores, (view.sortScores scores).Perm scores) (getBlockHash : Int → Option Uint256)
    (nBlockHeight minProtocol : Int) (fOnlyActive : Bool) :
    Inverts (checkingView view services env) getBlockHash nBlockHeight minProtocol fOnlyActive ↔
      scoredBy (checkingView view services env) minProtocol fOnlyActive = [] ∨
        AllRanked (checkingView view services env) getBlockHash nBlockHeight minProtocol
          fOnlyActive := by
  have keepsVin : ∀ mn, ((checkingView view services env).check mn).vin = mn.vin := by
    intro mn
    exact congrArg CMasternodeBroadcast.vin (mn.check_toCMasternodeBroadcast services env _ false)
  constructor
  · intro inverse
    by_cases none : scoredBy (checkingView view services env) minProtocol fOnlyActive = []
    · exact Or.inl none
    · right
      exact allRanked_of_inverse _ getBlockHash nBlockHeight minProtocol fOnlyActive perm keepsVin
        inverse none
  · intro condition
    obtain none | all := condition
    · constructor
      · intro vin nRank positive isRank
        rcases rankOf_cases (checkingView view services env) getBlockHash nBlockHeight minProtocol
          perm vin fOnlyActive with ⟨ranked, _⟩ | ⟨_, unranked⟩
        · obtain ⟨mn, isRanked, _⟩ := ranked.2
          have scored := ranked_scored _ minProtocol fOnlyActive mn isRanked
          rw [none] at scored
          cases scored
        · rw [isRank] at unranked
          omega
      · intro nRank mn found
        rcases byRank_some _ getBlockHash nBlockHeight minProtocol fOnlyActive nRank mn found with
          ⟨position, _, there⟩
        have listed := (sortedOutPoints_perm _ getBlockHash nBlockHeight perm _).mem_iff.mp
          (mem_of_getElem? there)
        rw [none] at listed
        cases listed
    · exact inverse_of_allRanked _ getBlockHash nBlockHeight minProtocol fOnlyActive perm keepsVin
        all

/-- Two masternodes that have announced themselves ten minutes ago. -/
def youngRanks (isPaymentEnforced : Bool) : RankView :=
  { exampleRanks .enabled with
    isPaymentEnforced := isPaymentEnforced
    vMasternodes := (exampleRanks .enabled).vMasternodes.map fun mn =>
      { mn with lastTimeChecked := syncedNode.here.getTime } }

/-- While payments are enforced they are too young for a rank, and one of them is
the masternode of the first rank. -/
theorem young_masternode_has_no_rank :
    ¬ ∀ (services : Services) (env : Environment) (view : RankView),
      SortsDown scoreKey view.sortScores →
      ∀ (getBlockHash : Int → Option Uint256) (nBlockHeight minProtocol : Int) (fOnlyActive : Bool),
        Inverts (checkingView view services env) getBlockHash nBlockHeight minProtocol
          fOnlyActive := by
  intro inverse
  have ranked := (inverse mainnetServices syncedNode (youngRanks true) (sortDown_sorts scoreKey)
    (fun _ => some 7) 210 0 true).ranked
  have found : (getMasternodeByRank (checkingView (youngRanks true) mainnetServices syncedNode)
      (fun _ => some 7) 210 0 1 true).map (fun mn =>
        rankOf (checkingView (youngRanks true) mainnetServices syncedNode) (fun _ => some 7) 210 0
          mn.vin true) = some (-1) := by
    decide +kernel
  obtain ⟨mn, isFirst, unranked⟩ := map_eq_some_iff.mp found
  have first := ranked 1 mn isFirst
  rw [unranked] at first
  cases first

/-- Otherwise the first rank and the second are theirs. -/
theorem young_masternodes_ranked :
    Inverts (checkingView (youngRanks false) mainnetServices syncedNode) (fun _ => some 7) 210 0
      true := by
  apply (byRank_inverts_rank_iff mainnetServices syncedNode (youngRanks false)
    (sortDown_sorts scoreKey).perm (fun _ => some 7) 210 0 true).mpr
  right
  constructor
  · rfl
  · intro mn _ enforced
    cases enforced
  · decide +kernel

end ZenonCore.RankInverse
