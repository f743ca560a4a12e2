import ZenonCore.Budget

/-!
# Votes that come before their proposal

`UpdateProposal` parks one vote for each unknown proposal, the last that came; the others are
lost.
-/

namespace ZenonCore.OrphanVotes

open Script Primitives Masternode MasternodeMan List
open Budget Budget.CBudgetManager

/-- Every vote that waits is for the proposal it is parked under. -/
def Keyed (manager : CBudgetManager) : Prop :=
  ∀ entry ∈ manager.mapOrphanMasternodeBudgetVotes.entries, entry.2.nProposalHash = entry.1

section Update

variable (services : BudgetServices) (view : BudgetView) (manager : CBudgetManager)

variable (vote : CBudgetVote) (fromPeer : Bool)

theorem updateProposal_other (hash : Uint256)
    (other : vote.nProposalHash ≠ hash) :
    (manager.updateProposal services view vote fromPeer).2.mapProposals.lookup hash =
      manager.mapProposals.lookup hash := by
  unfold updateProposal
  cases manager.mapProposals.lookup vote.nProposalHash with
  | none =>
    dsimp only
    split
    · rfl
    · rfl
  | some proposal =>
    dsimp only
    split
    · exact AList.lookup_erase_ne other.symm
    · cases proposal.addOrUpdateVote services view vote with
      | none => rfl
      | some updated => exact AList.lookup_insert_ne other.symm

theorem updateProposal_known (proposal : CBudgetProposal)
    (known : manager.mapProposals.lookup vote.nProposalHash = some proposal)
    (counts : vote.nVote ≠ voteDelete) :
    (manager.updateProposal services view vote fromPeer).2.mapProposals.lookup
        vote.nProposalHash =
      some ((proposal.addOrUpdateVote services view vote).getD proposal) := by
  unfold updateProposal
  rw [known]
  dsimp only
  rw [if_neg counts]
  cases proposal.addOrUpdateVote services view vote with
  | none => exact known
  | some updated => exact AList.lookup_insert _

theorem updateProposal_unknown
    (unknown : manager.mapProposals.lookup vote.nProposalHash = none) :
    manager.updateProposal services view vote fromPeer =
      (false, if fromPeer && view.isSynced then manager.park view vote else manager) := by
  unfold updateProposal
  rw [unknown]
  dsimp only
  split
  · rfl
  · rfl

theorem updateProposal_orphans :
    (manager.updateProposal services view vote fromPeer).2.mapOrphanMasternodeBudgetVotes =
        manager.mapOrphanMasternodeBudgetVotes ∨
      (manager.updateProposal services view vote fromPeer).2.mapOrphanMasternodeBudgetVotes =
        manager.mapOrphanMasternodeBudgetVotes.insert vote.nProposalHash vote := by
  unfold updateProposal
  cases manager.mapProposals.lookup vote.nProposalHash with
  | none =>
    dsimp only
    split
    · exact Or.inr rfl
    · exact Or.inl rfl
  | some proposal =>
    dsimp only
    split
    · exact Or.inl rfl
    · cases proposal.addOrUpdateVote services view vote with
      | none => exact Or.inl rfl
      | some updated => exact Or.inl rfl

theorem replayed_orphans (vote : CBudgetVote) :
    (manager.updateProposal services view vote false).2.mapOrphanMasternodeBudgetVotes =
      manager.mapOrphanMasternodeBudgetVotes := by
  unfold updateProposal
  cases manager.mapProposals.lookup vote.nProposalHash with
  | none => rfl
  | some proposal =>
    dsimp only
    split
    · rfl
    · cases proposal.addOrUpdateVote services view vote with
      | none => rfl
      | some updated => rfl

end Update

section Replay

variable (services : BudgetServices) (view : BudgetView)

variable (manager : CBudgetManager) (entry : Sigma fun _ : Uint256 => CBudgetVote)

theorem checkOrphanVote_proposals :
    (checkOrphanVote services view manager entry).mapProposals =
      (manager.updateProposal services view entry.2 false).2.mapProposals := by
  unfold checkOrphanVote
  dsimp only
  split
  · rfl
  · rfl

theorem checkOrphanVote_seen :
    (checkOrphanVote services view manager entry).mapSeenMasternodeBudgetVotes =
      manager.mapSeenMasternodeBudgetVotes := by
  unfold checkOrphanVote
  dsimp only
  split
  · exact updateProposal_seen_kept services view manager entry.2 false
  · exact updateProposal_seen_kept services view manager entry.2 false

theorem checkOrphanVote_orphans (manager : CBudgetManager)
    (entry waiting : Sigma fun _ : Uint256 => CBudgetVote)
    (waits : waiting ∈
      (checkOrphanVote services view manager entry).mapOrphanMasternodeBudgetVotes.entries) :
    waiting ∈ manager.mapOrphanMasternodeBudgetVotes.entries := by
  unfold checkOrphanVote at waits
  dsimp only at waits
  split at waits
  · have kept : waiting ∈
        (manager.updateProposal services view entry.2 false).2.mapOrphanMasternodeBudgetVotes.entries :=
      (kerase_sublist _ _).subset waits
    rw [replayed_orphans] at kept
    exact kept
  · rw [replayed_orphans] at waits
    exact waits

variable (entries : List (Sigma fun _ : Uint256 => CBudgetVote)) (manager : CBudgetManager)

theorem replay_seen :
    (entries.foldl (checkOrphanVote services view) manager).mapSeenMasternodeBudgetVotes =
      manager.mapSeenMasternodeBudgetVotes := by
  induction entries generalizing manager with
  | nil => rfl
  | cons entry rest ih =>
    rw [foldl_cons, ih]
    exact checkOrphanVote_seen services view manager entry

theorem replay_orphans (waiting : Sigma fun _ : Uint256 => CBudgetVote)
    (waits : waiting ∈ (entries.foldl (checkOrphanVote services view)
      manager).mapOrphanMasternodeBudgetVotes.entries) :
    waiting ∈ manager.mapOrphanMasternodeBudgetVotes.entries := by
  induction entries generalizing manager with
  | nil => exact waits
  | cons entry rest ih =>
    exact checkOrphanVote_orphans services view manager entry waiting (ih _ waits)

theorem replay_other (hash : Uint256)
    (others : ∀ entry ∈ entries, entry.2.nProposalHash ≠ hash) :
    (entries.foldl (checkOrphanVote services view) manager).mapProposals.lookup hash =
      manager.mapProposals.lookup hash := by
  induction entries generalizing manager with
  | nil => rfl
  | cons entry rest ih =>
    rw [foldl_cons, ih _ fun later there => others later (mem_cons_of_mem _ there),
      checkOrphanVote_proposals]
    exact updateProposal_other services view manager entry.2 false hash
      (others entry mem_cons_self)

theorem checkOrphanVotes_lookup (manager : CBudgetManager) (keyed : Keyed manager) (hash : Uint256)
    (proposal : CBudgetProposal) (known : manager.mapProposals.lookup hash = some proposal)
    (counts : ∀ vote, manager.mapOrphanMasternodeBudgetVotes.lookup hash = some vote →
      vote.nVote ≠ voteDelete) :
    (manager.checkOrphanVotes services view).mapProposals.lookup hash =
      some (match manager.mapOrphanMasternodeBudgetVotes.lookup hash with
        | none => proposal
        | some vote => (proposal.addOrUpdateVote services view vote).getD proposal) := by
  unfold checkOrphanVotes
  cases waits : manager.mapOrphanMasternodeBudgetVotes.lookup hash with
  | none =>
    rw [replay_other services view _ manager hash, known]
    intro entry there same
    have found : entry.2 ∈ manager.mapOrphanMasternodeBudgetVotes.lookup entry.1 :=
      AList.mem_lookup_iff.mpr there
    rw [← keyed entry there, same, waits] at found
    cases found
  | some vote =>
    have there : Sigma.mk hash vote ∈ manager.mapOrphanMasternodeBudgetVotes.entries :=
      AList.mem_lookup_iff.mp waits
    have own : vote.nProposalHash = hash := keyed _ there
    obtain ⟨before, after, split⟩ := append_of_mem there
    have distinct := manager.mapOrphanMasternodeBudgetVotes.nodupKeys
    have places : ∀ entry, entry ∈ before ∨ entry ∈ after → entry.2.nProposalHash ≠ hash := by
      intro entry place same
      have inMap : entry ∈ manager.mapOrphanMasternodeBudgetVotes.entries := by
        rw [split]
        obtain early | late := place
        · exact mem_append_left _ early
        · exact mem_append_right _ (mem_cons_of_mem _ late)
      have key : entry.1 = hash := (keyed entry inMap).symm.trans same
      unfold List.NodupKeys keys at distinct
      rw [split, map_append, map_cons, nodup_append] at distinct
      obtain early | late := place
      · exact distinct.2.2 entry.1 (mem_map_of_mem early) hash mem_cons_self key
      · have inRest : hash ∈ after.map Sigma.fst := by
          rw [← key]
          exact mem_map_of_mem late
        exact (nodup_cons.mp distinct.2.1).1 inRest
    rw [split, foldl_append, foldl_cons,
      replay_other services view after _ hash fun entry late => places entry (Or.inr late),
      checkOrphanVote_proposals]
    have still : (before.foldl (checkOrphanVote services view) manager).mapProposals.lookup
        vote.nProposalHash = some proposal := by
      rw [own, replay_other services view before manager hash fun entry early =>
        places entry (Or.inl early)]
      exact known
    have applied := updateProposal_known services view
      (before.foldl (checkOrphanVote services view) manager) vote false proposal still
      (counts vote waits)
    rw [own] at applied
    exact applied

end Replay

section Reachable

variable (services : BudgetServices)

variable (view : BudgetView) (manager : CBudgetManager)

theorem keyed_update (keyed : Keyed manager)
    (vote : CBudgetVote) (fromPeer : Bool) :
    Keyed (manager.updateProposal services view vote fromPeer).2 := by
  intro entry there
  obtain same | parked := updateProposal_orphans services view manager vote fromPeer
  · rw [same] at there
    exact keyed entry there
  · rw [parked, AList.entries_insert] at there
    obtain new | old := mem_cons.mp there
    · rw [new]
    · exact keyed entry ((kerase_sublist _ _).subset old)

theorem keyed_receive (manager : CBudgetManager) (keyed : Keyed manager) (message : VoteMessage) :
    Keyed (receive services manager message) := by
  cases isNoted : noted message with
  | false =>
    rw [receive_not_noted services manager message isNoted]
    exact keyed
  | true =>
    by_cases seen : hashOf services message ∈ manager.mapSeenMasternodeBudgetVotes
    · rw [receive_seen services manager message seen]
      exact keyed
    · rw [receive_new services manager message isNoted seen]
      have remembered : Keyed (manager.rememberVote services
        { message.2 with fValid := true }) := keyed
      split
      · exact keyed_update services message.1 _ remembered _ true
      · exact remembered

theorem keyed_checkOrphanVotes
    (keyed : Keyed manager) : Keyed (manager.checkOrphanVotes services view) := by
  intro entry there
  exact keyed entry (replay_orphans services view _ manager entry there)

theorem addProposal_orphans
    (proposal : CBudgetProposal) :
    (manager.addProposal services view proposal).mapOrphanMasternodeBudgetVotes =
      manager.mapOrphanMasternodeBudgetVotes := by
  unfold addProposal
  dsimp only
  split
  · rfl
  · split
    · rfl
    · rfl

theorem keyed_processProposal
    (keyed : Keyed manager) (broadcast : CBudgetProposalBroadcast) :
    Keyed (manager.processProposal services view broadcast) := by
  unfold processProposal
  dsimp only
  split
  · exact keyed
  · split
    · exact keyed
    · split
      · split
        · exact keyed
        · exact keyed
      · unfold receiveProposal
        dsimp only
        split
        · exact keyed
        · apply keyed_checkOrphanVotes
          unfold Keyed
          rw [addProposal_orphans]
          exact keyed

theorem keyed_step (manager : CBudgetManager) (keyed : Keyed manager) (message : Message) :
    Keyed (step services manager message) := by
  cases message with
  | mvote view vote => exact keyed_receive services manager keyed (view, vote)
  | mprop view broadcast => exact keyed_processProposal services view manager keyed broadcast

theorem keyed_run (messages : List Message) (manager : CBudgetManager) (keyed : Keyed manager) :
    Keyed (messages.foldl (step services) manager) := by
  induction messages generalizing manager with
  | nil => exact keyed
  | cons message rest ih => exact ih _ (keyed_step services manager keyed message)

theorem keyed_empty : Keyed .empty := by
  intro entry there
  cases there

end Reachable

section Proposal

variable (services : BudgetServices) (view : BudgetView)

variable (broadcast : CBudgetProposalBroadcast)

theorem checkCollateral_hash :
    (broadcast.checkCollateral services view).2.2.getHash services = broadcast.getHash services := by
  unfold CBudgetProposalBroadcast.checkCollateral
  split
  · rfl
  · rfl

theorem isValid_hash (proposal : CBudgetProposal) :
    (proposal.isValid services view).2.getHash services = proposal.getHash services := by
  unfold CBudgetProposal.isValid
  split
  · rfl
  · split
    · rfl
    · split
      · rfl
      · exact checkCollateral_hash services view proposal.toCBudgetProposalBroadcast

theorem isValid_mapVotes (proposal : CBudgetProposal) :
    (proposal.isValid services view).2.mapVotes = proposal.mapVotes := by
  unfold CBudgetProposal.isValid
  split
  · rfl
  · split
    · rfl
    · split
      · rfl
      · rfl

/-- The proposal passes everything `mprop` asks of it, twice where the code
asks twice. -/
def admits (broadcast : CBudgetProposalBroadcast) : Bool :=
  let checked := broadcast.checkCollateral services view
  let valid := (CBudgetProposal.ofBroadcast checked.2.2).isValid services view
  view.active && checked.1 && valid.1 && (valid.2.isValid services view).1

def admitted (broadcast : CBudgetProposalBroadcast) : CBudgetProposal :=
  (((CBudgetProposal.ofBroadcast (broadcast.checkCollateral services view).2.2).isValid services
    view).2.isValid services view).2

theorem admitted_mapVotes :
    (admitted services view broadcast).mapVotes = ∅ := by
  unfold admitted
  rw [isValid_mapVotes, isValid_mapVotes]
  rfl

/-- The manager between the addition of the proposal and the replay. -/
def withProposal (manager : CBudgetManager) (broadcast : CBudgetProposalBroadcast) :
    CBudgetManager :=
  { manager with
    mapProposals :=
      manager.mapProposals.insert (broadcast.getHash services) (admitted services view broadcast)
    mapSeenMasternodeBudgetProposals :=
      manager.mapSeenMasternodeBudgetProposals.insert (broadcast.getHash services)
        (broadcast.checkCollateral services view).2.2 }

theorem processProposal_admitted (manager : CBudgetManager) (broadcast : CBudgetProposalBroadcast)
    (passes : admits services view broadcast = true)
    (unseen : manager.mapSeenMasternodeBudgetProposals.lookup (broadcast.getHash services) = none)
    (unknown : manager.mapProposals.lookup (broadcast.getHash services) = none) :
    manager.processProposal services view broadcast =
      (withProposal services view manager broadcast).checkOrphanVotes services view := by
  unfold admits at passes
  simp only [Bool.and_eq_true] at passes
  obtain ⟨⟨⟨active, checked⟩, valid⟩, validAgain⟩ := passes
  have hash := checkCollateral_hash services view broadcast
  have hashAgain : (((CBudgetProposal.ofBroadcast
      (broadcast.checkCollateral services view).2.2).isValid services view).2).getHash services =
        broadcast.getHash services :=
    (isValid_hash services view _).trans hash
  have missing : (manager.mapProposals.lookup (((CBudgetProposal.ofBroadcast
      (broadcast.checkCollateral services view).2.2).isValid services view).2.getHash
        services)).isSome = false := by
    rw [hashAgain, unknown]
    rfl
  unfold processProposal receiveProposal addProposal withProposal admitted
  simp only [active, unseen, checked, valid, validAgain, missing, hash, hashAgain, Bool.not_true,
    Bool.false_eq_true, if_false, Option.isSome_none]

end Proposal

def counted (message : VoteMessage) : CBudgetVote := { message.2 with fValid := true }

def voterOf (services : BudgetServices) (message : VoteMessage) : Uint256 :=
  services.hashOutPoint message.2.vin.prevout

def record (services : BudgetServices) (mapVotes : VoteMap) (message : VoteMessage) : VoteMap :=
  mapVotes.insert (voterOf services message) (counted message)

/-- Valid votes of distinct masternodes: processed and signed, not too far ahead, with distinct
hashes. -/
structure ValidVotes (services : BudgetServices) (hash : Uint256) (votes : List VoteMessage) :
    Prop where
  noted : ∀ message ∈ votes, noted message = true
  signed : ∀ message ∈ votes, signed services message = true
  cast : ∀ message ∈ votes, message.2.nVote ≠ voteDelete
  concerns : ∀ message ∈ votes, message.2.nProposalHash = hash
  timely : ∀ message ∈ votes, message.2.nTime ≤ message.1.getTime + 60 * 60
  voters : (votes.map (voterOf services)).Nodup
  hashes : (votes.map (hashOf services)).Nodup

/-- Neither the proposal nor any of the votes has come before. -/
structure Unheard (services : BudgetServices) (manager : CBudgetManager) (hash : Uint256)
    (votes : List VoteMessage) : Prop where
  unseen : manager.mapSeenMasternodeBudgetProposals.lookup hash = none
  unknown : manager.mapProposals.lookup hash = none
  nothingWaits : manager.mapOrphanMasternodeBudgetVotes.lookup hash = none
  new : ∀ message ∈ votes, hashOf services message ∉ manager.mapSeenMasternodeBudgetVotes

theorem ValidVotes.tail {services : BudgetServices} {hash : Uint256} {message : VoteMessage}
    {votes : List VoteMessage} (valid : ValidVotes services hash (message :: votes)) :
    ValidVotes services hash votes where
  noted := fun other there => valid.noted other (mem_cons_of_mem _ there)
  signed := fun other there => valid.signed other (mem_cons_of_mem _ there)
  cast := fun other there => valid.cast other (mem_cons_of_mem _ there)
  concerns := fun other there => valid.concerns other (mem_cons_of_mem _ there)
  timely := fun other there => valid.timely other (mem_cons_of_mem _ there)
  voters := (nodup_cons.mp valid.voters).2
  hashes := (nodup_cons.mp valid.hashes).2

section Deliveries

variable (services : BudgetServices) (hash : Uint256)

variable (manager : CBudgetManager)

theorem still_new (message : VoteMessage) (votes : List VoteMessage)
    (valid : ValidVotes services hash (message :: votes))
    (new : ∀ other ∈ message :: votes,
      hashOf services other ∉ manager.mapSeenMasternodeBudgetVotes) :
    ∀ other ∈ votes,
      hashOf services other ∉ (receive services manager message).mapSeenMasternodeBudgetVotes := by
  intro other there seen
  have isNoted := valid.noted message mem_cons_self
  obtain same | before := (mem_receive_seen services manager message isNoted _).mp seen
  · have apart := (nodup_cons.mp valid.hashes).1
    apply apart
    rw [← same]
    exact mem_map_of_mem there
  · exact new other (mem_cons_of_mem _ there) before

/-- The votes before the proposal touch no proposal, and the last one that comes to a synchronised
node waits. -/
theorem votes_first (votes : List VoteMessage)
    (valid : ValidVotes services hash votes)
    (unknown : manager.mapProposals.lookup hash = none)
    (new : ∀ message ∈ votes, hashOf services message ∉ manager.mapSeenMasternodeBudgetVotes) :
    (votes.foldl (receive services) manager).mapProposals = manager.mapProposals ∧
    (votes.foldl (receive services) manager).mapSeenMasternodeBudgetProposals =
      manager.mapSeenMasternodeBudgetProposals ∧
    (votes.foldl (receive services) manager).mapOrphanMasternodeBudgetVotes.lookup hash =
      votes.foldl (fun waiting message =>
        if message.1.isSynced then some (counted message) else waiting)
        (manager.mapOrphanMasternodeBudgetVotes.lookup hash) := by
  induction votes generalizing manager with
  | nil => exact ⟨rfl, rfl, rfl⟩
  | cons message rest ih =>
    have concerns := valid.concerns message mem_cons_self
    have missing : (manager.rememberVote services (counted message)).mapProposals.lookup
        (counted message).nProposalHash = none := by
      rw [show (counted message).nProposalHash = hash from concerns]
      exact unknown
    have received : receive services manager message =
        if message.1.isSynced then
          (manager.rememberVote services (counted message)).park message.1 (counted message)
        else manager.rememberVote services (counted message) := by
      rw [receive_new services manager message (valid.noted message mem_cons_self)
        (new message mem_cons_self), valid.signed message mem_cons_self, if_pos rfl]
      have parked := updateProposal_unknown services message.1
        (manager.rememberVote services (counted message)) (counted message) true missing
      exact congrArg Prod.snd parked
    have proposals : (receive services manager message).mapProposals = manager.mapProposals := by
      rw [received]
      split
      · rfl
      · rfl
    have later := ih (receive services manager message) valid.tail (by rw [proposals]; exact unknown)
      (still_new services hash manager message rest valid new)
    refine ⟨later.1.trans proposals, later.2.1.trans ?_, ?_⟩
    · rw [received]
      split
      · rfl
      · rfl
    · rw [foldl_cons, later.2.2, foldl_cons, received]
      congr 1
      split
      · have own : (counted message).nProposalHash = hash := concerns
        rw [← own]
        exact AList.lookup_insert _
      · rfl

theorem proposal_first (votes : List VoteMessage)
    (proposal : CBudgetProposal) (valid : ValidVotes services hash votes)
    (known : manager.mapProposals.lookup hash = some proposal)
    (absent : ∀ message ∈ votes, proposal.mapVotes.lookup (voterOf services message) = none)
    (new : ∀ message ∈ votes, hashOf services message ∉ manager.mapSeenMasternodeBudgetVotes) :
    (votes.foldl (receive services) manager).mapProposals.lookup hash =
      some { proposal with mapVotes := votes.foldl (record services) proposal.mapVotes } := by
  induction votes generalizing manager proposal with
  | nil => exact known
  | cons message rest ih =>
    have own : (counted message).nProposalHash = hash :=
      valid.concerns message mem_cons_self
    have there : (manager.rememberVote services (counted message)).mapProposals.lookup
        (counted message).nProposalHash = some proposal := by
      rw [own]
      exact known
    have added : proposal.addOrUpdateVote services message.1 (counted message) =
        some { proposal with mapVotes := record services proposal.mapVotes message } := by
      have free := absent message mem_cons_self
      have timely : ¬ message.1.getTime + 60 * 60 < (counted message).nTime :=
        not_lt.mpr (valid.timely message mem_cons_self)
      unfold CBudgetProposal.addOrUpdateVote
      dsimp only
      rw [show services.hashOutPoint (counted message).vin.prevout = voterOf services message
        from rfl, free, if_neg timely]
      rfl
    have now : (receive services manager message).mapProposals.lookup hash =
        some { proposal with mapVotes := record services proposal.mapVotes message } := by
      rw [receive_new services manager message (valid.noted message mem_cons_self)
        (new message mem_cons_self), valid.signed message mem_cons_self, if_pos rfl]
      have updated := updateProposal_known services message.1
        (manager.rememberVote services (counted message)) (counted message) true proposal there
        (valid.cast message mem_cons_self)
      rw [added, own] at updated
      exact updated
    apply ih (receive services manager message)
      { proposal with mapVotes := record services proposal.mapVotes message } valid.tail now
    · intro other inRest
      have apart : voterOf services other ≠ voterOf services message := by
        intro same
        apply (nodup_cons.mp valid.voters).1
        rw [← same]
        exact mem_map_of_mem inRest
      exact (AList.lookup_insert_ne apart).trans
        (absent other (mem_cons_of_mem _ inRest))
    · exact still_new services hash manager message rest valid new

variable (mapVotes : VoteMap) (votes : List VoteMessage)

theorem recorded_other (key : Uint256)
    (outside : key ∉ votes.map (voterOf services)) :
    (votes.foldl (record services) mapVotes).lookup key = mapVotes.lookup key := by
  induction votes generalizing mapVotes with
  | nil => rfl
  | cons first rest ih =>
    rw [map_cons, mem_cons, not_or] at outside
    rw [foldl_cons, ih _ outside.2]
    exact AList.lookup_insert_ne outside.1

theorem recorded_lookup (distinct : (votes.map (voterOf services)).Nodup) (message : VoteMessage)
    (there : message ∈ votes) :
    (votes.foldl (record services) mapVotes).lookup (voterOf services message) =
      some (counted message) := by
  induction votes generalizing mapVotes with
  | nil => cases there
  | cons first rest ih =>
    have apart := nodup_cons.mp distinct
    rw [foldl_cons]
    obtain here | inRest := mem_cons.mp there
    · rw [here, recorded_other services _ rest _ apart.1]
      exact AList.lookup_insert _
    · exact ih _ apart.2 inRest

end Deliveries

section Orders

variable (services : BudgetServices) (view : BudgetView) (broadcast : CBudgetProposalBroadcast)

def votesThenProposal (manager : CBudgetManager) (votes : List VoteMessage) : CBudgetManager :=
  (votes.foldl (receive services) manager).processProposal services view broadcast

def proposalThenVotes (manager : CBudgetManager) (votes : List VoteMessage) : CBudgetManager :=
  votes.foldl (receive services) (manager.processProposal services view broadcast)

def votesOf (manager : CBudgetManager) (hash key : Uint256) : Option CBudgetVote :=
  (manager.mapProposals.lookup hash).bind fun proposal => proposal.mapVotes.lookup key

def lastParked (votes : List VoteMessage) : Option CBudgetVote :=
  votes.foldl (fun waiting message =>
    if message.1.isSynced then some (counted message) else waiting) none

theorem lastParked_mem (votes : List VoteMessage) (vote : CBudgetVote)
    (waits : lastParked votes = some vote) :
    ∃ message ∈ votes, counted message = vote ∧ message.1.isSynced = true := by
  unfold lastParked at waits
  induction votes using reverseRecOn with
  | nil => cases waits
  | append_singleton before message ih =>
    rw [foldl_append, foldl_cons, foldl_nil] at waits
    cases synced : message.1.isSynced with
    | true =>
      rw [synced, if_pos rfl] at waits
      exact ⟨message, mem_append_right _ mem_cons_self, Option.some.inj waits, synced⟩
    | false =>
      rw [synced, if_neg (by decide)] at waits
      obtain ⟨found, there, same⟩ := ih waits
      exact ⟨found, mem_append_left _ there, same⟩

variable (manager : CBudgetManager) (votes : List VoteMessage)

theorem votesThenProposal_lookup (keyed : Keyed manager)
    (passes : admits services view broadcast = true)
    (valid : ValidVotes services (broadcast.getHash services) votes)
    (unheard : Unheard services manager (broadcast.getHash services) votes)
    (clock : ∀ message ∈ votes, message.1.getTime ≤ view.getTime) :
    (votesThenProposal services view broadcast manager votes).mapProposals.lookup
        (broadcast.getHash services) =
      some { admitted services view broadcast with
        mapVotes := match lastParked votes with
          | none => ∅
          | some vote => (∅ : VoteMap).insert (services.hashOutPoint vote.vin.prevout) vote } := by
  have before := votes_first services (broadcast.getHash services) manager votes valid
    unheard.unknown unheard.new
  rw [unheard.nothingWaits] at before
  have keyedBefore : Keyed (votes.foldl (receive services) manager) := by
    clear before valid unheard clock
    induction votes generalizing manager with
    | nil => exact keyed
    | cons message rest ih => exact ih _ (keyed_receive services manager keyed message)
  unfold votesThenProposal
  rw [processProposal_admitted services view _ broadcast passes
    (by rw [before.2.1]; exact unheard.unseen) (by rw [before.1]; exact unheard.unknown)]
  have noVotes := admitted_mapVotes services view broadcast
  have cast : ∀ vote, lastParked votes = some vote → vote.nVote ≠ voteDelete := by
    intro vote waits
    obtain ⟨message, there, same, _⟩ := lastParked_mem votes vote waits
    rw [← same]
    exact valid.cast message there
  have replayed := checkOrphanVotes_lookup services view
    (withProposal services view (votes.foldl (receive services) manager) broadcast) keyedBefore
    (broadcast.getHash services) (admitted services view broadcast) (AList.lookup_insert _)
    (fun vote waits => cast vote (before.2.2.symm.trans waits))
  rw [replayed]
  have waiting : (withProposal services view (votes.foldl (receive services) manager)
      broadcast).mapOrphanMasternodeBudgetVotes.lookup (broadcast.getHash services) =
        lastParked votes := before.2.2
  rw [waiting]
  cases waits : lastParked votes with
  | none =>
    dsimp only
    rw [← noVotes]
  | some vote =>
    obtain ⟨message, there, same, _⟩ := lastParked_mem votes vote waits
    have timely : ¬ view.getTime + 60 * 60 < vote.nTime := by
      have time := valid.timely message there
      have later := clock message there
      rw [← same]
      change ¬ view.getTime + 60 * 60 < message.2.nTime
      omega
    have added : (admitted services view broadcast).addOrUpdateVote services view vote =
        some { admitted services view broadcast with
          mapVotes := (∅ : VoteMap).insert (services.hashOutPoint vote.vin.prevout) vote } := by
      unfold CBudgetProposal.addOrUpdateVote
      dsimp only
      rw [noVotes, AList.lookup_empty, if_neg timely]
      rfl
    dsimp only
    rw [added, Option.getD_some]

theorem proposalThenVotes_lookup (keyed : Keyed manager)
    (passes : admits services view broadcast = true)
    (valid : ValidVotes services (broadcast.getHash services) votes)
    (unheard : Unheard services manager (broadcast.getHash services) votes) :
    (proposalThenVotes services view broadcast manager votes).mapProposals.lookup
        (broadcast.getHash services) =
      some { admitted services view broadcast with
        mapVotes := votes.foldl (record services) ∅ } := by
  have noVotes := admitted_mapVotes services view broadcast
  have processed := processProposal_admitted services view manager broadcast passes unheard.unseen
    unheard.unknown
  have waiting : (withProposal services view manager
      broadcast).mapOrphanMasternodeBudgetVotes.lookup (broadcast.getHash services) = none :=
    unheard.nothingWaits
  have known := checkOrphanVotes_lookup services view (withProposal services view manager broadcast)
    keyed (broadcast.getHash services) (admitted services view broadcast) (AList.lookup_insert _)
    (fun vote waits => by rw [waiting] at waits; cases waits)
  rw [waiting] at known
  dsimp only at known
  have unheardStill : ∀ message ∈ votes, hashOf services message ∉
      (manager.processProposal services view broadcast).mapSeenMasternodeBudgetVotes := by
    intro message there
    rw [processed]
    unfold checkOrphanVotes
    rw [replay_seen]
    exact unheard.new message there
  rw [← processed] at known
  unfold proposalThenVotes
  have counts := proposal_first services (broadcast.getHash services)
    (manager.processProposal services view broadcast) votes (admitted services view broadcast) valid
    known (fun message _ => by rw [noVotes]; exact AList.lookup_empty _) unheardStill
  rw [noVotes] at counts
  exact counts

end Orders

section Condition

variable (services : BudgetServices) (votes : List VoteMessage)

theorem parked_of_recorded (message : VoteMessage)
    (found : (match lastParked votes with
      | none => ∅
      | some vote => (∅ : VoteMap).insert (services.hashOutPoint vote.vin.prevout) vote).lookup
        (voterOf services message) = some (counted message)) :
    ∃ vote, lastParked votes = some vote ∧
      services.hashOutPoint vote.vin.prevout = voterOf services message := by
  cases waits : lastParked votes with
  | none =>
    rw [waits] at found
    cases found
  | some vote =>
    rw [waits] at found
    refine ⟨vote, rfl, ?_⟩
    by_contra apart
    have missing : ((∅ : VoteMap).insert (services.hashOutPoint vote.vin.prevout)
        vote).lookup (voterOf services message) = none :=
      (AList.lookup_insert_ne (Ne.symm apart)).trans (AList.lookup_empty _)
    rw [missing] at found
    cases found

theorem length_le_one_of_parked (voters : (votes.map (voterOf services)).Nodup)
    (each : ∀ message ∈ votes, ∃ vote, lastParked votes = some vote ∧
      services.hashOutPoint vote.vin.prevout = voterOf services message) :
    votes.length ≤ 1 := by
  by_contra more
  obtain _ | ⟨first, _ | ⟨second, others⟩⟩ := votes
  · exact more (Nat.zero_le 1)
  · exact more (Nat.le_refl 1)
  · obtain ⟨vote, waits, key⟩ := each first mem_cons_self
    obtain ⟨other, waitsToo, keyToo⟩ := each second (mem_cons_of_mem _ mem_cons_self)
    rw [waits] at waitsToo
    cases waitsToo
    have apart := (nodup_cons.mp voters).1
    exact apart (mem_cons.mpr (Or.inl (key.symm.trans keyToo)))

theorem synced_of_parked (voters : (votes.map (voterOf services)).Nodup) (message : VoteMessage)
    (there : message ∈ votes) (vote : CBudgetVote) (waits : lastParked votes = some vote)
    (key : services.hashOutPoint vote.vin.prevout = voterOf services message) :
    message.1.isSynced = true := by
  obtain ⟨parked, inVotes, vote_eq, synced⟩ := lastParked_mem votes vote waits
  have sameVoter : voterOf services parked = voterOf services message := by
    rw [← key, ← vote_eq]
    rfl
  have same := inj_on_of_nodup_map voters inVotes there sameVoter
  rw [← same]
  exact synced

end Condition

/-- Valid votes before their proposal are counted exactly if there is at most one and the node is
synchronised when it comes. -/
theorem early_votes_counted_iff (services : BudgetServices) (history : List Message)
    (view : BudgetView) (broadcast : CBudgetProposalBroadcast) (votes : List VoteMessage)
    (passes : admits services view broadcast = true)
    (valid : ValidVotes services (broadcast.getHash services) votes)
    (unheard : Unheard services (history.foldl (step services) .empty)
      (broadcast.getHash services) votes)
    (clock : ∀ message ∈ votes, message.1.getTime ≤ view.getTime) :
    ((∀ key,
        votesOf (votesThenProposal services view broadcast
            (history.foldl (step services) .empty) votes) (broadcast.getHash services) key =
          votesOf (proposalThenVotes services view broadcast
            (history.foldl (step services) .empty) votes) (broadcast.getHash services) key) ∧
      tally (votesThenProposal services view broadcast
          (history.foldl (step services) .empty) votes) (broadcast.getHash services) =
        tally (proposalThenVotes services view broadcast
          (history.foldl (step services) .empty) votes) (broadcast.getHash services)) ↔
    votes.length ≤ 1 ∧ ∀ message ∈ votes, message.1.isSynced = true := by
  have keyed := keyed_run services history .empty keyed_empty
  have late := votesThenProposal_lookup services view broadcast _ votes keyed passes valid unheard
    clock
  have early := proposalThenVotes_lookup services view broadcast _ votes keyed passes valid unheard
  unfold votesOf tally
  rw [late, early]
  constructor
  · intro same
    have each : ∀ message ∈ votes, ∃ vote, lastParked votes = some vote ∧
        services.hashOutPoint vote.vin.prevout = voterOf services message := by
      intro message there
      have found := same.1 (voterOf services message)
      rw [Option.bind_some, Option.bind_some,
        recorded_lookup services ∅ votes valid.voters message there] at found
      exact parked_of_recorded services votes message found
    constructor
    · exact length_le_one_of_parked services votes valid.voters each
    · intro message there
      obtain ⟨vote, waits, key⟩ := each message there
      exact synced_of_parked services votes valid.voters message there vote waits key
  · intro condition
    obtain ⟨atMostOne, synced⟩ := condition
    cases shape : votes with
    | nil => exact ⟨fun _ => rfl, rfl⟩
    | cons message rest =>
      have alone : rest = [] := by
        rw [shape, length_cons] at atMostOne
        exact length_eq_zero_iff.mp (by omega)
      have isSynced := synced message (by rw [shape]; exact mem_cons_self)
      have parked : lastParked [message] = some (counted message) := by
        unfold lastParked
        rw [foldl_cons, foldl_nil, isSynced, if_pos rfl]
      rw [alone, parked]
      exact ⟨fun _ => rfl, rfl⟩

def bothVotes : List VoteMessage :=
  [(exampleView, exampleVote 21 [1]), (exampleView, exampleVote 22 [2])]

theorem bothVotes_valid : ValidVotes exampleBudget 2 bothVotes where
  noted := by decide +kernel
  signed := by decide +kernel
  cast := by decide +kernel
  concerns := by decide +kernel
  timely := by decide +kernel
  voters := by decide +kernel
  hashes := by decide +kernel

theorem bothVotes_unheard : Unheard exampleBudget .empty 2 bothVotes where
  unseen := rfl
  unknown := rfl
  nothingWaits := rfl
  new := fun _ _ => AList.notMem_empty _

/-- Of two votes that come before their proposal one is counted. -/
theorem early_vote_is_lost :
    ¬ ∀ (services : BudgetServices) (history : List Message) (view : BudgetView)
        (broadcast : CBudgetProposalBroadcast) (votes : List VoteMessage),
      admits services view broadcast = true →
      ValidVotes services (broadcast.getHash services) votes →
      Unheard services (history.foldl (step services) .empty) (broadcast.getHash services) votes →
      (∀ message ∈ votes, message.1.getTime ≤ view.getTime) →
      tally (votesThenProposal services view broadcast
          (history.foldl (step services) .empty) votes) (broadcast.getHash services) =
        tally (proposalThenVotes services view broadcast
          (history.foldl (step services) .empty) votes) (broadcast.getHash services) := by
  intro counted
  have same := counted exampleBudget [] exampleView exampleProposal bothVotes (by decide +kernel)
    bothVotes_valid bothVotes_unheard (by decide +kernel)
  have late : tally (votesThenProposal exampleBudget exampleView exampleProposal .empty bothVotes) 2 =
      some (1, 0, 0) := by decide +kernel
  have early : tally (proposalThenVotes exampleBudget exampleView exampleProposal .empty
      bothVotes) 2 = some (2, 0, 0) := by decide +kernel
  have apart := late.symm.trans (same.trans early)
  cases apart

/-- A single vote is counted in either order. -/
theorem single_early_vote_counts :
    tally (votesThenProposal exampleBudget exampleView exampleProposal .empty
      (bothVotes.take 1)) 2 = tally (proposalThenVotes exampleBudget exampleView exampleProposal
        .empty (bothVotes.take 1)) 2 := by
  have valid : ValidVotes exampleBudget 2 (bothVotes.take 1) :=
    { noted := by decide +kernel
      signed := by decide +kernel
      cast := by decide +kernel
      concerns := by decide +kernel
      timely := by decide +kernel
      voters := by decide +kernel
      hashes := by decide +kernel }
  have unheard : Unheard exampleBudget .empty 2 (bothVotes.take 1) :=
    { unseen := rfl
      unknown := rfl
      nothingWaits := rfl
      new := fun _ _ => AList.notMem_empty _ }
  exact ((early_votes_counted_iff exampleBudget [] exampleView exampleProposal (bothVotes.take 1)
    (by decide +kernel) valid unheard (by decide +kernel)).mpr
      ⟨by decide, by decide +kernel⟩).2

end ZenonCore.OrphanVotes
