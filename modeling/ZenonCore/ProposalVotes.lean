import Mathlib.Data.List.Dedup
import Mathlib.Data.List.Perm.Subperm
import ZenonCore.Library.Maps
import ZenonCore.TallyOrder

/-!
# The votes a proposal records

`AddOrUpdateVote` files votes by outpoint, and `CleanAndRemove` finds out which still count. A
time difference that leaves 64 bits is negative, and the vote refused.
-/

namespace ZenonCore.ProposalVotes

open Primitives Budget TallyOrder Library.Maps List

def cleanAndRemove (services : BudgetServices) (view : BudgetView) (fSignatureCheck : Bool)
    (proposal : CBudgetProposal) : CBudgetProposal :=
  { proposal with
    mapVotes := mapValues
      (fun vote => { vote with fValid := vote.signatureValid services view fSignatureCheck })
      proposal.mapVotes }

inductive ProposalCall
  | addOrUpdateVote (view : BudgetView) (vote : CBudgetVote)
  | cleanAndRemove (view : BudgetView) (fSignatureCheck : Bool)

def call (services : BudgetServices) (proposal : CBudgetProposal) : ProposalCall → CBudgetProposal
  | .addOrUpdateVote view vote => (proposal.addOrUpdateVote services view vote).getD proposal
  | .cleanAndRemove view fSignatureCheck => cleanAndRemove services view fSignatureCheck proposal

def calledOn (services : BudgetServices) (broadcast : CBudgetProposalBroadcast)
    (calls : List ProposalCall) : CBudgetProposal :=
  calls.foldl (call services) (CBudgetProposal.ofBroadcast broadcast)

def voterOfCall : ProposalCall → Option COutPoint
  | .addOrUpdateVote _ vote => some vote.vin.prevout
  | .cleanAndRemove _ _ => none

def recordedVoters (proposal : CBudgetProposal) : List COutPoint :=
  proposal.mapVotes.entries.map fun entry => entry.2.vin.prevout

def recordedVote (services : BudgetServices) (proposal : CBudgetProposal) (outpoint : COutPoint) :
    Option CBudgetVote :=
  proposal.mapVotes.lookup (services.hashOutPoint outpoint)

/-- A vote is what was recorded, but for its validity, or has replaced it. -/
structure Succeeds (recorded kept : CBudgetVote) : Prop where
  notOlder : recorded.nTime ≤ kept.nTime
  hourNewer : { kept with fValid := recorded.fValid } = recorded ∨
    recorded.nTime + budgetVoteUpdateMin ≤ kept.nTime

section Steps

variable (services : BudgetServices)

theorem Succeeds.same (vote : CBudgetVote) : Succeeds vote vote :=
  ⟨Int.le_refl _, Or.inl rfl⟩

theorem Succeeds.newer (recorded kept : CBudgetVote)
    (late : recorded.nTime + budgetVoteUpdateMin ≤ kept.nTime) : Succeeds recorded kept := by
  have positive := budgetVoteUpdateMin_pos
  exact ⟨by omega, Or.inr late⟩

theorem Succeeds.trans {first second third : CBudgetVote} (before : Succeeds first second)
    (after : Succeeds second third) : Succeeds first third := by
  have notOlder := Int.le_trans before.notOlder after.notOlder
  obtain kept | late := after.hourNewer
  · obtain still | replaced := before.hourNewer
    · refine ⟨notOlder, Or.inl ?_⟩
      rw [← still, ← kept]
    · exact Succeeds.newer first third (Int.le_trans replaced after.notOlder)
  · have older := before.notOlder
    exact Succeeds.newer first third (by omega)

/-- A vote that is added finds the masternode without a vote, or with one that
is an hour older. -/
theorem addOrUpdateVote_cases (view : BudgetView) (proposal updated : CBudgetProposal)
    (vote : CBudgetVote) (done : proposal.addOrUpdateVote services view vote = some updated) :
    updated.mapVotes = proposal.mapVotes.insert (services.hashOutPoint vote.vin.prevout) vote ∧
      ∀ existing, recordedVote services proposal vote.vin.prevout = some existing →
        existing.nTime + budgetVoteUpdateMin ≤ vote.nTime := by
  unfold CBudgetProposal.addOrUpdateVote at done
  dsimp only at done
  split at done
  · cases done
  · rename_i inTime
    split at done
    · cases done
    · rw [← Option.some.inj done]
      refine ⟨rfl, fun existing stored => ?_⟩
      unfold recordedVote at stored
      rw [stored, Option.any_some, comesTooSoon_iff] at inTime
      exact Int.not_lt.mp inTime

/-- A call keeps the vote of every masternode that has one, or replaces it by
one that is an hour newer. -/
theorem call_succeeds (proposal : CBudgetProposal) (next : ProposalCall) (outpoint : COutPoint)
    (recorded : CBudgetVote) (stored : recordedVote services proposal outpoint = some recorded) :
    ∃ kept, recordedVote services (call services proposal next) outpoint = some kept ∧
      Succeeds recorded kept := by
  cases next with
  | addOrUpdateVote view vote =>
    unfold call
    dsimp only
    cases done : proposal.addOrUpdateVote services view vote with
    | none => exact ⟨recorded, stored, Succeeds.same recorded⟩
    | some updated =>
      rcases addOrUpdateVote_cases services view proposal updated vote done with
        ⟨inserted, late⟩
      rw [Option.getD_some]
      unfold recordedVote at stored late ⊢
      rw [inserted]
      by_cases own : services.hashOutPoint outpoint = services.hashOutPoint vote.vin.prevout
      · rw [own, AList.lookup_insert]
        rw [own] at stored
        exact ⟨vote, rfl, Succeeds.newer recorded vote (late recorded stored)⟩
      · rw [AList.lookup_insert_ne own]
        exact ⟨recorded, stored, Succeeds.same recorded⟩
  | cleanAndRemove view fSignatureCheck =>
    unfold call cleanAndRemove recordedVote
    dsimp only
    unfold recordedVote at stored
    rw [lookup_mapValues, stored]
    exact ⟨_, rfl, Int.le_refl _, Or.inl rfl⟩

theorem calls_succeed (proposal : CBudgetProposal) (calls : List ProposalCall)
    (outpoint : COutPoint) (recorded : CBudgetVote)
    (stored : recordedVote services proposal outpoint = some recorded) :
    ∃ kept, recordedVote services (calls.foldl (call services) proposal) outpoint = some kept ∧
      Succeeds recorded kept := by
  induction calls generalizing proposal recorded with
  | nil => exact ⟨recorded, stored, Succeeds.same recorded⟩
  | cons next rest ih =>
    rcases call_succeeds services proposal next outpoint recorded stored with
      ⟨between, there, before⟩
    obtain ⟨kept, found, after⟩ := ih (call services proposal next) between there
    exact ⟨kept, found, before.trans after⟩

end Steps

section Voters

variable (services : BudgetServices)

/-- The votes are filed under their masternodes, which have all voted. -/
def Filed (voters : List COutPoint) (proposal : CBudgetProposal) : Prop :=
  Everywhere (fun hash vote =>
    hash = services.hashOutPoint vote.vin.prevout ∧ vote.vin.prevout ∈ voters) proposal.mapVotes

variable {voters : List COutPoint} {proposal : CBudgetProposal}

theorem Filed.call
    (filed : Filed services voters proposal) (next : ProposalCall)
    (voted : ∀ outpoint, voterOfCall next = some outpoint → outpoint ∈ voters) :
    Filed services voters (call services proposal next) := by
  cases next with
  | addOrUpdateVote view vote =>
    unfold ProposalVotes.call
    dsimp only
    cases done : proposal.addOrUpdateVote services view vote with
    | none => exact filed
    | some updated =>
      rw [Option.getD_some]
      unfold Filed
      rw [(addOrUpdateVote_cases services view proposal updated vote done).1]
      exact Everywhere.insert filed _ vote ⟨rfl, voted vote.vin.prevout rfl⟩
  | cleanAndRemove view fSignatureCheck =>
    exact Everywhere.mapValues filed _ fun hash vote holds => holds

theorem Filed.calls {voters : List COutPoint} (calls : List ProposalCall)
    {proposal : CBudgetProposal} (filed : Filed services voters proposal)
    (voted : ∀ outpoint ∈ calls.filterMap voterOfCall, outpoint ∈ voters) :
    Filed services voters (calls.foldl (ProposalVotes.call services) proposal) := by
  induction calls generalizing proposal with
  | nil => exact filed
  | cons next rest ih =>
    apply ih (filed.call services next fun outpoint isVoter =>
      voted outpoint (mem_filterMap.mpr ⟨next, mem_cons_self, isVoter⟩))
    intro outpoint member
    obtain ⟨later, listed, isVoter⟩ := mem_filterMap.mp member
    exact voted outpoint
      (mem_filterMap.mpr ⟨later, mem_cons_of_mem next listed, isVoter⟩)

theorem Filed.nodup
    (filed : Filed services voters proposal) : (recordedVoters proposal).Nodup := by
  have keys : proposal.mapVotes.entries.map Sigma.fst =
      (recordedVoters proposal).map services.hashOutPoint := by
    unfold recordedVoters
    rw [map_map]
    apply map_congr_left
    intro entry member
    exact (filed entry.1 entry.2 (AList.mem_lookup_iff.mpr member)).1
  have distinct : ((recordedVoters proposal).map services.hashOutPoint).Nodup := by
    rw [← keys]
    exact proposal.mapVotes.nodupKeys
  exact distinct.of_map

theorem Filed.length_le
    (filed : Filed services voters proposal) :
    proposal.mapVotes.entries.length ≤ voters.dedup.length := by
  have voted : recordedVoters proposal ⊆ voters.dedup := by
    intro outpoint member
    obtain ⟨entry, stored, same⟩ := mem_map.mp member
    rw [← same]
    exact mem_dedup.mpr (filed entry.1 entry.2 (AList.mem_lookup_iff.mpr stored)).2
  have length : (recordedVoters proposal).length = proposal.mapVotes.entries.length :=
    length_map _
  rw [← length]
  exact (filed.nodup.subperm voted).length_le

end Voters

theorem counted_votes_le (votes : List (Sigma fun _ : Uint256 => CBudgetVote)) :
    (votes.countP fun entry => entry.2.nVote == voteYes && entry.2.fValid) +
        (votes.countP fun entry => entry.2.nVote == voteNo && entry.2.fValid) +
        (votes.countP fun entry => entry.2.nVote == voteAbstain && entry.2.fValid) ≤
      votes.length := by
  induction votes with
  | nil => exact Nat.le_refl _
  | cons entry rest ih =>
    have one : (if (entry.2.nVote == voteYes && entry.2.fValid) = true then 1 else 0) +
        (if (entry.2.nVote == voteNo && entry.2.fValid) = true then 1 else 0) +
        (if (entry.2.nVote == voteAbstain && entry.2.fValid) = true then 1 else 0) ≤ 1 := by
      unfold voteYes voteNo voteAbstain
      simp only [Bool.and_eq_true, beq_iff_eq]
      split_ifs <;> omega
    rw [countP_cons, countP_cons, countP_cons, length_cons]
    omega

end ZenonCore.ProposalVotes
