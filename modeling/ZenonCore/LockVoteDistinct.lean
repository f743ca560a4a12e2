import Mathlib.Data.Finset.Card
import ZenonCore.LockAuthority

/-!
# The signatures of a lock

A vote is dropped if one with its hash is stored, and the hash of a recorded vote stays stored
with its lock.
-/

namespace ZenonCore.LockVoteDistinct

open Primitives Chainstate Masternode SwiftTX List
open LockAuthority (masternodes_distinct hashes_snoc)
open Library.Maps

def signers (lock : CTransactionLock) : List COutPoint :=
  lock.countedVotes.map fun vote => vote.vinMasternode.prevout

/-- The votes of a lock have different hashes, which are stored and belong to
this lock. -/
def OwnVotes (votes : AList fun _ : Uint256 => CConsensusVote) (owner : Uint256 → Uint256)
    (hash txHash : Uint256) (list : List CConsensusVote) : Prop :=
  txHash = hash ∧ (list.map CConsensusVote.getHash).Nodup ∧
    ∀ vote ∈ list, vote.txHash = hash ∧ vote.getHash ∈ votes ∧ owner vote.getHash = hash

def VotesApart (state : SwiftState) : Prop :=
  ∃ owner : Uint256 → Uint256,
    AllLocks (OwnVotes state.mapTxLockVote owner) state.mapTxLocks

section Votes

variable {votes : AList fun _ : Uint256 => CConsensusVote} {owner : Uint256 → Uint256}

theorem ownVotes_new (hash : Uint256) : OwnVotes votes owner hash hash [] :=
  ⟨rfl, nodup_nil, fun _ member => absurd member not_mem_nil⟩

theorem OwnVotes.stored {more : AList fun _ : Uint256 => CConsensusVote} {hash txHash : Uint256}
    {list : List CConsensusVote} (own : OwnVotes votes owner hash txHash list)
    (stored : ∀ vote ∈ list, vote.getHash ∈ votes → vote.getHash ∈ more) :
    OwnVotes more owner hash txHash list := by
  obtain ⟨keyed, distinct, each⟩ := own
  refine ⟨keyed, distinct, ?_⟩
  intro vote member
  obtain ⟨isOwn, present, belongs⟩ := each vote member
  exact ⟨isOwn, stored vote member present, belongs⟩

theorem OwnVotes.update {hash txHash : Uint256} {list : List CConsensusVote}
    (own : OwnVotes votes owner hash txHash list) (ctx : CConsensusVote)
    (absent : ctx.getHash ∉ votes) :
    OwnVotes (votes.insert ctx.getHash ctx) (Function.update owner ctx.getHash ctx.txHash) hash
      txHash list := by
  obtain ⟨keyed, distinct, each⟩ := own
  refine ⟨keyed, distinct, ?_⟩
  intro vote member
  obtain ⟨isOwn, present, belongs⟩ := each vote member
  refine ⟨isOwn, (AList.mem_insert _).mpr (Or.inr present), ?_⟩
  have other : vote.getHash ≠ ctx.getHash := by
    intro same
    rw [same] at present
    exact absent present
  rw [Function.update_of_ne other]
  exact belongs

theorem OwnVotes.add {txHash : Uint256} {list : List CConsensusVote} (ctx : CConsensusVote)
    (own : OwnVotes votes owner ctx.txHash txHash list) (absent : ctx.getHash ∉ votes) :
    OwnVotes (votes.insert ctx.getHash ctx) (Function.update owner ctx.getHash ctx.txHash)
      ctx.txHash txHash (list ++ [ctx]) := by
  have before := own.update ctx absent
  refine ⟨own.1, ?_, ?_⟩
  · exact hashes_snoc votes list ctx own.2.1 (fun vote member => (own.2.2 vote member).2.1) absent
  · intro vote member
    obtain old | new := mem_append.mp member
    · exact before.2.2 vote old
    · rw [mem_singleton.mp new]
      exact ⟨rfl, (AList.mem_insert _).mpr (Or.inl rfl), Function.update_self _ _ _⟩

end Votes

section Steps

variable (services : Services) (signer : Signer) (state : SwiftState)

variable (view : SwiftView)

theorem processVote_apart (ctx : CConsensusVote) (apart : VotesApart state) :
    VotesApart (processVote signer view state ctx) := by
  obtain ⟨owner, locks⟩ := apart
  obtain same | ⟨absent, same | recorded⟩ := processVote_effect signer view state ctx
  · rw [same]
    exact ⟨owner, locks⟩
  · rw [same]
    refine ⟨owner, locks.mono fun hash lock own => own.stored ?_⟩
    exact fun vote _ present => (AList.mem_insert _).mpr (Or.inr present)
  · obtain ⟨_, requests, after, inputs, unknown, same, kept, _⟩ := recorded
    rw [same]
    refine ⟨Function.update owner ctx.getHash ctx.txHash, kept.all ?_⟩
    apply recordVote_all view state ctx locks (ownVotes_new ctx.txHash)
    · exact fun hash txHash list own => own.update ctx absent
    · exact fun txHash list own => own.add ctx absent

theorem processRequest_apart (tx : CTransaction) (apart : VotesApart state) :
    VotesApart (processRequest services signer view state tx) := by
  obtain ⟨owner, locks⟩ := apart
  rcases processRequest_effect services signer view state tx with
    same | ⟨created, _, _, all, accepted | refused⟩
  · rw [same]
    exact ⟨owner, locks⟩
  · obtain ⟨requests, votes, same, stored⟩ := accepted
    rw [same]
    refine ⟨owner, (all _ locks (ownVotes_new tx.hash)).mono fun hash lock own => own.stored ?_⟩
    exact fun vote _ present => stored vote.getHash present
  · obtain ⟨_, requests, rejected, after, same, kept⟩ := refused
    rw [same]
    exact ⟨owner, kept.all (all _ locks (ownVotes_new tx.hash))⟩

/-- The cleanup removes the hashes of the votes of expired locks, and no lock
that stays has one of them. -/
theorem clean_apart (apart : VotesApart state) :
    VotesApart (cleanTransactionLocksList view state) := by
  cases tip : view.node.chainActive.isEmpty with
  | true =>
    have same : cleanTransactionLocksList view state = state := if_pos tip
    rw [same]
    exact apart
  | false =>
    obtain ⟨owner, locks⟩ := apart
    have keyed : Keyed state := locks.mono fun _ _ own => own.1
    have cleaned := cleanTransactionLocksList_cleaned view state keyed tip
    refine ⟨owner, ?_⟩
    intro hash lock found
    by_cases expires : Expires view state.mapTxLocks.entries hash
    · rw [cleaned.removed hash expires] at found
      cases found
    · rw [cleaned.kept hash expires] at found
      apply OwnVotes.stored (locks hash lock found)
      intro vote member present
      apply cleaned.votes vote.getHash present
      intro entry inLocks expired shared
      obtain ⟨other, inEntry, sameHash⟩ := mem_map.mp shared
      have entryFound := (mem_entries_iff state entry).mp inLocks
      have ofEntry := ((locks entry.1 entry.2 entryFound).2.2 other inEntry).2.2
      have ofLock := ((locks hash lock found).2.2 vote member).2.2
      rw [sameHash, ofLock] at ofEntry
      exact expires ⟨entry, inLocks, ofEntry.symm, expired⟩

theorem step_apart (event : Event) (apart : VotesApart state) :
    VotesApart (step services signer state event) := by
  cases event with
  | ix view tx => exact processRequest_apart services signer state view tx apart
  | txlvote view ctx => exact processVote_apart signer state view ctx apart
  | request view tx =>
    obtain ⟨owner, locks⟩ := apart
    rcases createNewLock_effect view
      { state with mapTxLockReq := insertNew state.mapTxLockReq tx.hash tx } tx with
      ⟨created, made, _, all⟩
    refine ⟨owner, ?_⟩
    have result : step services signer state (.request view tx) = _ := made
    rw [result]
    exact all _ locks (ownVotes_new tx.hash)
  | clean view => exact clean_apart state view apart

end Steps

section Runs

variable (services : Services) (signer : Signer)

theorem run_apart (events : List Event) :
    VotesApart (events.foldl (step services signer) .empty) := by
  induction events using reverseRecOn with
  | nil => exact ⟨fun hash => hash, everywhere_empty⟩
  | append_singleton events event ih =>
    rw [foldl_append]
    exact step_apart services signer _ event ih

/-- In every run a lock counts no more signatures than masternodes have signed. -/
theorem lock_signatures_are_distinct (events : List Event) :
    Everywhere (fun _ lock => (signers lock).Nodup ∧
        lock.countSignatures ≤ ((signers lock).toFinset.card : Int))
      (events.foldl (step services signer) .empty).mapTxLocks := by
  intro txHash lock found
  obtain ⟨owner, locks⟩ := run_apart services signer events
  obtain ⟨_, hashes, each⟩ := locks txHash lock found
  have all := masternodes_distinct lock.vecConsensusVotes txHash
    (fun vote member => (each vote member).1) hashes
  have counted : (signers lock).Nodup := List.Sublist.nodup (filter_sublist.map _) all
  refine ⟨counted, ?_⟩
  rw [toFinset_card_of_nodup counted]
  unfold CTransactionLock.countSignatures
  split
  · exact Int.le_trans (by decide) (Int.natCast_nonneg _)
  · unfold signers
    rw [length_map]


end Runs

end ZenonCore.LockVoteDistinct
