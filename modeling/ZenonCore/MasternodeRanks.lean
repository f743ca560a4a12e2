import ZenonCore.BlockHashCache
import ZenonCore.Library.Rankings
import ZenonCore.MasternodeMan

/-!
# The ranks of masternodes

`GetMasternodeRank`, `GetMasternodeRanks` and `GetMasternodeByRank` sort what passes their
filters by score; they differ in the filter.
-/

namespace ZenonCore.MasternodeRanks

open Primitives ProofOfWork Masternode MasternodeMan
open BlockHashCache Library.Lookups Library.Rankings

section Definitions

variable (view : RankView) (getBlockHash : Int → Option Uint256) (nBlockHeight minProtocol : Int)

def scoreOf (vin : CTxIn) : UInt32 :=
  getCompact ((calculateScore view.hashOf vin nBlockHeight).eval getBlockHash)

def scoresOf (masternodes : List CMasternode) : List (UInt32 × CTxIn) :=
  masternodes.map fun mn => (scoreOf view getBlockHash nBlockHeight mn.vin, mn.vin)

def scoreKey {α : Type} (score : UInt32 × α) : Nat := score.1.toNat

def rankedBy (fOnlyActive : Bool) : List CMasternode :=
  view.vMasternodes.filter fun mn => !view.skips minProtocol fOnlyActive mn

def rankOf (vin : CTxIn) (fOnlyActive : Bool) : Int :=
  (getMasternodeRank view vin nBlockHeight minProtocol fOnlyActive).eval getBlockHash

def rankAt : Option Nat → Int
  | none => -1
  | some position => position + 1

/-- The block is known, and an entry with the outpoint passes the filters. -/
def IsRanked (vin : CTxIn) (fOnlyActive : Bool) : Prop :=
  (getBlockHash (toInt nBlockHeight)).isSome = true ∧
    ∃ mn ∈ rankedBy view minProtocol fOnlyActive, mn.vin.prevout = vin.prevout

instance (vin : CTxIn) (fOnlyActive : Bool) :
    Decidable (IsRanked view getBlockHash nBlockHeight minProtocol vin fOnlyActive) :=
  inferInstanceAs (Decidable (_ ∧ ∃ mn ∈ rankedBy view minProtocol fOnlyActive, _))

/-- What the loop of `GetMasternodeRanks` puts down for an entry. -/
def rankedScore (listed : CMasternode) : Option (UInt32 × CMasternode) :=
  let mn := view.check listed
  if mn.protocolVersion < minProtocol then none
  else if !mn.isEnabled then some (9999, mn)
  else some (scoreOf view getBlockHash nBlockHeight mn.vin, mn)

def getMasternodeRanks
    (sortMasternodes : List (UInt32 × CMasternode) → List (UInt32 × CMasternode)) :
    List (Nat × CMasternode) :=
  match getBlockHash (toInt nBlockHeight) with
  | none => []
  | some _ =>
    let vecMasternodeScores :=
      view.vMasternodes.filterMap (rankedScore view getBlockHash nBlockHeight minProtocol)
    ((sortMasternodes vecMasternodeScores).zipIdx 1).map fun score => (score.2, score.1.2)

/-- The entries that the loop of `GetMasternodeByRank` passes over. -/
def isPassedOver (fOnlyActive : Bool) (mn : CMasternode) : Bool :=
  decide (mn.protocolVersion < minProtocol) || (fOnlyActive && !(view.check mn).isEnabled)

def scoredBy (fOnlyActive : Bool) : List CMasternode :=
  view.vMasternodes.filter fun mn => !isPassedOver view minProtocol fOnlyActive mn

/-- The list after the loop, which checks an entry unless it is obsolete. -/
def checkedBy (fOnlyActive : Bool) : List CMasternode :=
  view.vMasternodes.map fun mn =>
    if minProtocol ≤ mn.protocolVersion ∧ fOnlyActive = true then view.check mn else mn

def getMasternodeByRank (nRank : Int) (fOnlyActive : Bool) : Option CMasternode :=
  let vecMasternodeScores := scoresOf view getBlockHash nBlockHeight
    (scoredBy view minProtocol fOnlyActive)
  if nRank < 1 then none
  else match (view.sortScores vecMasternodeScores)[(nRank - 1).toNat]? with
    | none => none
    | some score =>
      (checkedBy view minProtocol fOnlyActive).find? fun mn => mn.vin.prevout == score.2.prevout

end Definitions

section Ranks

variable (view : RankView) (getBlockHash : Int → Option Uint256) (nBlockHeight minProtocol : Int)

theorem masternodeScores_eval (fOnlyActive : Bool) (masternodes : List CMasternode) :
    (masternodeScores view nBlockHeight minProtocol fOnlyActive masternodes).eval getBlockHash =
      scoresOf view getBlockHash nBlockHeight
        (masternodes.filter fun mn => !view.skips minProtocol fOnlyActive mn) := by
  induction masternodes with
  | nil => rfl
  | cons mn rest ih =>
    rw [masternodeScores]
    cases skipped : view.skips minProtocol fOnlyActive mn with
    | true =>
      rw [if_pos rfl, List.filter_cons_of_neg (by rw [skipped]; decide)]
      exact ih
    | false =>
      rw [if_neg (by decide), List.filter_cons_of_pos (by rw [skipped]; decide)]
      rw [Query.eval_bind, Query.eval_bind, ih]
      rfl

@[simp] theorem rankAt_some (position : Nat) : rankAt (some position) = position + 1 := rfl

theorem rankOf_unknown (vin : CTxIn) (fOnlyActive : Bool)
    (unknown : getBlockHash (toInt nBlockHeight) = none) :
    rankOf view getBlockHash nBlockHeight minProtocol vin fOnlyActive = -1 := by
  unfold rankOf getMasternodeRank
  rw [Query.eval, unknown]
  rfl

theorem rankOf_known (vin : CTxIn) (fOnlyActive : Bool) (hash : Uint256)
    (known : getBlockHash (toInt nBlockHeight) = some hash) :
    rankOf view getBlockHash nBlockHeight minProtocol vin fOnlyActive =
      rankAt ((view.sortScores (scoresOf view getBlockHash nBlockHeight
        (rankedBy view minProtocol fOnlyActive))).findIdx? fun score =>
          score.2.prevout == vin.prevout) := by
  unfold rankOf getMasternodeRank
  rw [Query.eval, known]
  dsimp only
  rw [Query.eval_bind, masternodeScores_eval]
  unfold rankedBy
  cases (view.sortScores (scoresOf view getBlockHash nBlockHeight (view.vMasternodes.filter fun mn =>
      !view.skips minProtocol fOnlyActive mn))).findIdx? fun score =>
        score.2.prevout == vin.prevout with
  | none => rfl
  | some position => rfl

theorem rankOf_cases (perm : ∀ scores, (view.sortScores scores).Perm scores) (vin : CTxIn)
    (fOnlyActive : Bool) :
    IsRanked view getBlockHash nBlockHeight minProtocol vin fOnlyActive ∧
        1 ≤ rankOf view getBlockHash nBlockHeight minProtocol vin fOnlyActive ∨
      ¬ IsRanked view getBlockHash nBlockHeight minProtocol vin fOnlyActive ∧
        rankOf view getBlockHash nBlockHeight minProtocol vin fOnlyActive = -1 := by
  cases known : getBlockHash (toInt nBlockHeight) with
  | none =>
    right
    refine ⟨fun isRanked => ?_, rankOf_unknown view getBlockHash nBlockHeight minProtocol vin
      fOnlyActive known⟩
    have there := isRanked.1
    rw [known] at there
    cases there
  | some hash =>
    rw [rankOf_known view getBlockHash nBlockHeight minProtocol vin fOnlyActive hash known]
    have members : ∀ score, score ∈ view.sortScores (scoresOf view getBlockHash nBlockHeight
        (rankedBy view minProtocol fOnlyActive)) ↔ score ∈ scoresOf view getBlockHash nBlockHeight
          (rankedBy view minProtocol fOnlyActive) :=
      fun _ => (perm _).mem_iff
    cases found : (view.sortScores (scoresOf view getBlockHash nBlockHeight
        (rankedBy view minProtocol fOnlyActive))).findIdx? fun score =>
          score.2.prevout == vin.prevout with
    | none =>
      right
      refine ⟨fun isRanked => ?_, rfl⟩
      obtain ⟨mn, member, same⟩ := isRanked.2
      have listed := (members _).mpr (List.mem_map.mpr ⟨mn, member, rfl⟩)
      have missed := List.findIdx?_eq_none_iff.mp found _ listed
      exact absurd same (by simpa using missed)
    | some position =>
      left
      obtain ⟨bound, named, _⟩ := List.findIdx?_eq_some_iff_getElem.mp found
      have listed := (members _).mp (List.getElem_mem bound)
      obtain ⟨mn, member, same⟩ := List.mem_map.mp listed
      rw [← same] at named
      refine ⟨⟨by rw [known]; rfl, mn, member, by simpa using named⟩, ?_⟩
      exact Int.le_add_of_nonneg_left (Int.natCast_nonneg position)

end Ranks

end ZenonCore.MasternodeRanks
