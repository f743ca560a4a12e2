import ZenonCore.MasternodePayments
import ZenonCore.MasternodeRanks

/-!
# The ranks of masternodes that vote

`GetMasternodeRank` says -1 where a masternode has no rank; `ProcessBlock` turns that away,
`IsValid` does not.
-/

namespace ZenonCore.WinnerRanks

open Primitives Masternode Budget MasternodePayments
open MasternodePayments.CMasternodePayments BlockHashCache
open MasternodeRanks Library.Rankings

section Votes

variable (services : PaymentServices) (view : PaymentView) (ranks : RankView)

/-- The node whose ranks are those of the masternodes on its list. -/
def withRanks : PaymentView :=
  { view with
    mnodeman := { view.mnodeman with vMasternodes := ranks.vMasternodes }
    getMasternodeRank := fun vin nBlockHeight minProtocol =>
      rankOf ranks view.getBlockHash nBlockHeight minProtocol vin true }

def voterRank (vin : CTxIn) (nBlockHeight : Int) : Int :=
  rankOf ranks view.getBlockHash (nBlockHeight - 100) view.activeProtocol vin true

def InTop (rank : Int) : Prop := 1 ≤ rank ∧ rank ≤ getMnSignaturesTotal view

structure OnlyRankedVote (payments : CMasternodePayments) (winner : CMasternodePaymentWinner)
    (nBlockHeight : Int) : Prop where
  accepted : winner.isValid (withRanks view ranks) = true →
    InTop view (voterRank view ranks winner.vinMasternode winner.nBlockHeight)
  signed : ∀ own, payments.ownWinner services (withRanks view ranks) nBlockHeight = some own →
    InTop view (voterRank view ranks view.activeVin nBlockHeight)

/-- The masternode is on the list, and its protocol is new enough. -/
def IsListed (vin : CTxIn) : Prop :=
  ∃ pmn, (withRanks view ranks).mnodeman.find vin = some pmn ∧
    view.activeProtocol ≤ pmn.protocolVersion

variable {services} {view} {ranks}

theorem isValid_iff (winner : CMasternodePaymentWinner) :
    winner.isValid (withRanks view ranks) = true ↔
      IsListed view ranks winner.vinMasternode ∧
        voterRank view ranks winner.vinMasternode winner.nBlockHeight ≤
          getMnSignaturesTotal view := by
  unfold CMasternodePaymentWinner.isValid IsListed
  cases found : (withRanks view ranks).mnodeman.find winner.vinMasternode with
  | none =>
    constructor
    · intro accepted
      cases accepted
    · intro both
      obtain ⟨pmn, listed, _⟩ := both.1
      cases listed
  | some pmn =>
    dsimp only
    by_cases old : pmn.protocolVersion < view.activeProtocol
    · rw [if_pos (show pmn.protocolVersion < (withRanks view ranks).activeProtocol from old)]
      constructor
      · intro accepted
        cases accepted
      · intro both
        obtain ⟨other, same, enough⟩ := both.1
        rw [← Option.some.inj same] at enough
        omega
    · rw [if_neg (show ¬ pmn.protocolVersion < (withRanks view ranks).activeProtocol from old)]
      have bound : decide ((withRanks view ranks).getMasternodeRank winner.vinMasternode
            (winner.nBlockHeight - 100) (withRanks view ranks).activeProtocol ≤
            getMnSignaturesTotal (withRanks view ranks)) = true ↔
          voterRank view ranks winner.vinMasternode winner.nBlockHeight ≤
            getMnSignaturesTotal view :=
        decide_eq_true_iff
      rw [bound]
      constructor
      · intro inside
        exact ⟨⟨pmn, rfl, Int.not_lt.mp old⟩, inside⟩
      · intro both
        exact both.2

theorem ownWinner_ranked (perm : ∀ scores, (ranks.sortScores scores).Perm scores)
    (payments : CMasternodePayments) (nBlockHeight : Int) (own : CMasternodePaymentWinner)
    (signs : payments.ownWinner services (withRanks view ranks) nBlockHeight = some own) :
    InTop view (voterRank view ranks view.activeVin nBlockHeight) := by
  have own := signs
  unfold ownWinner at own
  dsimp only at own
  have isRank : (withRanks view ranks).getMasternodeRank (withRanks view ranks).activeVin
      (nBlockHeight - 100) (withRanks view ranks).activeProtocol =
        voterRank view ranks view.activeVin nBlockHeight := rfl
  have total : getMnSignaturesTotal (withRanks view ranks) = getMnSignaturesTotal view := rfl
  rw [isRank, total] at own
  split_ifs at own with masternode unknown outside
  rcases rankOf_cases ranks view.getBlockHash (nBlockHeight - 100) view.activeProtocol perm
      view.activeVin true with ⟨_, ranked⟩ | ⟨_, none⟩
  · exact ⟨ranked, Int.not_lt.mp outside⟩
  · exact absurd none unknown

/-- Winners are accepted and signed with a rank only if and only if the listed masternode of the
winner is ranked: the block is known and its entry passes the filters. -/
theorem only_ranked_vote_iff (services : PaymentServices) (view : PaymentView) (ranks : RankView)
    (perm : ∀ scores, (ranks.sortScores scores).Perm scores) (payments : CMasternodePayments)
    (winner : CMasternodePaymentWinner) (nBlockHeight : Int) :
    OnlyRankedVote services view ranks payments winner nBlockHeight ↔
      (IsListed view ranks winner.vinMasternode →
        IsRanked ranks view.getBlockHash (winner.nBlockHeight - 100) view.activeProtocol
          winner.vinMasternode true) := by
  have total : 10 ≤ getMnSignaturesTotal view := by
    unfold getMnSignaturesTotal
    split <;> decide
  have cases := rankOf_cases ranks view.getBlockHash (winner.nBlockHeight - 100)
    view.activeProtocol perm winner.vinMasternode true
  constructor
  · intro only listed
    obtain ⟨isRanked, _⟩ | ⟨_, none⟩ := cases
    · exact isRanked
    · have accepted : winner.isValid (withRanks view ranks) = true := by
        apply (isValid_iff winner).mpr
        refine ⟨listed, ?_⟩
        unfold voterRank
        rw [none]
        omega
      have inTop := (only.accepted accepted).1
      unfold voterRank at inTop
      rw [none] at inTop
      omega
  · intro ranked
    refine ⟨fun accepted => ?_, fun own signs => ownWinner_ranked perm payments nBlockHeight own signs⟩
    obtain ⟨listed, inside⟩ := (isValid_iff winner).mp accepted
    obtain ⟨_, positive⟩ | ⟨unranked, _⟩ := cases
    · exact ⟨positive, inside⟩
    · exact absurd (ranked listed) unranked

end Votes

/-- The masternodes of the example, the first of which has expired or not. -/
def exampleRanks (state : ActiveState) : RankView where
  hashOf := fun values => values.sum
  vMasternodes := [{ exampleMasternode 21 [1] with activeState := state }, exampleMasternode 22 [2]]
  isPaymentEnforced := false
  adjustedTime := 1600000600
  check := id
  sortScores := sortDown scoreKey

/-- The vote of a masternode that has expired is accepted: it has no rank. -/
theorem expired_masternode_votes :
    ¬ ∀ (services : PaymentServices) (view : PaymentView) (ranks : RankView),
      SortsDown scoreKey ranks.sortScores →
      ∀ (payments : CMasternodePayments) (winner : CMasternodePaymentWinner) (nBlockHeight : Int),
        OnlyRankedVote services view ranks payments winner nBlockHeight := by
  intro only
  have vote := only examplePayments exampleNode (exampleRanks .expired) (sortDown_sorts scoreKey)
    .empty (exampleWinner 210 [1] [1]) 210
  have accepted : (exampleWinner 210 [1] [1]).isValid
      (withRanks exampleNode (exampleRanks .expired)) = true := by
    decide +kernel
  have none : voterRank exampleNode (exampleRanks .expired)
      (exampleWinner 210 [1] [1]).vinMasternode 210 = -1 := by
    decide +kernel
  have inTop := (vote.accepted accepted).1
  rw [show (exampleWinner 210 [1] [1]).nBlockHeight = 210 from rfl, none] at inTop
  exact absurd inTop (by decide)

/-- While it is enabled it votes with a rank. -/
theorem enabled_masternode_votes_ranked :
    OnlyRankedVote examplePayments exampleNode (exampleRanks .enabled) .empty
      (exampleWinner 210 [1] [1]) 210 := by
  apply (only_ranked_vote_iff examplePayments exampleNode (exampleRanks .enabled)
    (sortDown_sorts scoreKey).perm .empty (exampleWinner 210 [1] [1]) 210).mpr
  intro _
  decide +kernel

end ZenonCore.WinnerRanks
