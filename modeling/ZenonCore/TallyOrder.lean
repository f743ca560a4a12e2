import Mathlib.Algebra.Order.Group.Int
import ZenonCore.Library.Throttled
import ZenonCore.OrphanVotes

/-!
# Votes on a proposal in any order

`AddOrUpdateVote` keeps out a vote that is older, or less than an hour newer, than the one it
has.
-/

namespace ZenonCore.TallyOrder

open Script Primitives Masternode MasternodeMan List
open Budget Budget.CBudgetManager OrphanVotes
open Library.Throttled

def content (vote : CBudgetVote) : Int × Int := (vote.nVote, vote.nTime)

def voterOf (services : BudgetServices) (vote : CBudgetVote) : Uint256 :=
  services.hashOutPoint vote.vin.prevout

def recorded (manager : CBudgetManager) (hash voter : Uint256) : Option (Int × Int) :=
  (manager.mapProposals.lookup hash).bind fun proposal =>
    (proposal.mapVotes.lookup voter).map content

/-- A signed vote that comes to a node that takes it, at most an hour before
its time. -/
def InTime (services : BudgetServices) (message : VoteMessage) : Prop :=
  noted message = true ∧ signed services message = true ∧
    message.2.nTime ≤ message.1.getTime + 60 * 60

instance (services : BudgetServices) (message : VoteMessage) :
    Decidable (InTime services message) :=
  inferInstanceAs (Decidable (_ ∧ _ ∧ _))

structure Delivered (services : BudgetServices) (votes : Finset CBudgetVote)
    (messages : List VoteMessage) : Prop where
  each : ∀ message ∈ messages, message.2 ∈ votes ∧ InTime services message
  all : ∀ vote ∈ votes, ∃ message ∈ messages, message.2 = vote

/-- The node knows the proposal and has seen none of the votes. -/
structure Fresh (services : BudgetServices) (hash : Uint256) (votes : Finset CBudgetVote)
    (manager : CBudgetManager) : Prop where
  known : ∃ proposal, manager.mapProposals.lookup hash = some proposal ∧ proposal.mapVotes = ∅
  unseen : ∀ vote ∈ votes, vote.getHash services ∉ manager.mapSeenMasternodeBudgetVotes

def HashesTell (services : BudgetServices) (votes : Finset CBudgetVote) : Prop :=
  ∀ first ∈ votes, ∀ second ∈ votes, first.getHash services = second.getHash services →
    voterOf services first = voterOf services second ∧ content first = content second

def castBy (services : BudgetServices) (voter : Uint256) (messages : List VoteMessage) :
    List (Int × Int) :=
  (messages.filter fun message => voterOf services message.2 = voter).map fun message =>
    content message.2

def castIn (services : BudgetServices) (voter : Uint256) (votes : Finset CBudgetVote) :
    Finset (Int × Int) :=
  (votes.filter fun vote => voterOf services vote = voter).image content

abbrev updateVote : Option (Int × Int) → Int × Int → Option (Int × Int) :=
  update Prod.snd budgetVoteUpdateMin

section Recording

variable (services : BudgetServices) (view : BudgetView)

theorem mem_castBy (voter : Uint256) (messages : List VoteMessage) (entry : Int × Int) :
    entry ∈ castBy services voter messages ↔
      ∃ message ∈ messages, voterOf services message.2 = voter ∧ content message.2 = entry := by
  simp only [castBy, mem_map, mem_filter, decide_eq_true_eq, and_assoc]

theorem mem_castIn (voter : Uint256) (votes : Finset CBudgetVote) (entry : Int × Int) :
    entry ∈ castIn services voter votes ↔
      ∃ vote ∈ votes, voterOf services vote = voter ∧ content vote = entry := by
  simp only [castIn, Finset.mem_image, Finset.mem_filter, and_assoc]

theorem comesTooSoon_iff (existing vote : CBudgetVote) :
    CBudgetProposal.comesTooSoon existing vote = true ↔
      vote.nTime < existing.nTime + budgetVoteUpdateMin := by
  unfold CBudgetProposal.comesTooSoon budgetVoteUpdateMin
  simp only [Bool.or_eq_true, decide_eq_true_eq]
  omega

theorem addOrUpdateVote_records (proposal : CBudgetProposal) (vote : CBudgetVote)
    (inTime : vote.nTime ≤ view.getTime + 60 * 60) (voter : Uint256) :
    ((((proposal.addOrUpdateVote services view vote).getD proposal).mapVotes.lookup voter).map
        content) =
      if voterOf services vote = voter then
        updateVote ((proposal.mapVotes.lookup voter).map content) (content vote)
      else (proposal.mapVotes.lookup voter).map content := by
  have notEarly : ¬ view.getTime + 60 * 60 < vote.nTime := not_lt.mpr inTime
  have soon : (proposal.mapVotes.lookup (voterOf services vote)).any
        (CBudgetProposal.comesTooSoon · vote) =
      ((proposal.mapVotes.lookup (voterOf services vote)).map content).any
        fun current => decide ((content vote).2 < current.2 + budgetVoteUpdateMin) := by
    cases proposal.mapVotes.lookup (voterOf services vote) with
    | none => rfl
    | some existing =>
      rw [Bool.eq_iff_iff]
      simp only [Option.any_some, Option.map_some, decide_eq_true_eq]
      exact comesTooSoon_iff existing vote
  unfold CBudgetProposal.addOrUpdateVote
  simp only [notEarly, if_false]
  by_cases mine : voterOf services vote = voter
  · rw [if_pos mine, ← mine]
    unfold updateVote update
    rw [← soon]
    unfold voterOf
    split
    · rfl
    · rw [Option.getD_some, AList.lookup_insert]
      rfl
  · rw [if_neg mine]
    have other : voter ≠ services.hashOutPoint vote.vin.prevout := fun same => mine same.symm
    split
    · rfl
    · rw [Option.getD_some, AList.lookup_insert_ne other]

variable (manager : CBudgetManager) (vote : CBudgetVote) (fromPeer : Bool)

theorem updateProposal_deletion (deletes : vote.nVote = voteDelete) :
    (manager.updateProposal services view vote fromPeer).2.mapProposals.lookup
      vote.nProposalHash = none := by
  unfold updateProposal
  cases known : manager.mapProposals.lookup vote.nProposalHash with
  | none =>
    dsimp only
    split
    · exact known
    · exact known
  | some proposal =>
    dsimp only
    rw [if_pos deletes]
    exact AList.lookup_erase _ _

theorem updateProposal_gone (gone : manager.mapProposals.lookup vote.nProposalHash = none) :
    (manager.updateProposal services view vote fromPeer).2.mapProposals.lookup
      vote.nProposalHash = none := by
  rw [updateProposal_unknown services view manager vote fromPeer gone]
  dsimp only
  split
  · exact gone
  · exact gone

end Recording

/-- The hashes of a history of votes are seen, and unless the proposal has been deleted every
masternode has its register. -/
structure Tallied (services : BudgetServices) (start : CBudgetManager) (hash : Uint256)
    (history : List VoteMessage) (manager : CBudgetManager) : Prop where
  seen : ∀ other, other ∈ manager.mapSeenMasternodeBudgetVotes ↔
    other ∈ start.mapSeenMasternodeBudgetVotes ∨
      ∃ message ∈ history, hashOf services message = other
  deleted : (∃ message ∈ history, message.2.nVote = voteDelete) →
    manager.mapProposals.lookup hash = none
  held : (∀ message ∈ history, message.2.nVote ≠ voteDelete) →
    (∃ proposal, manager.mapProposals.lookup hash = some proposal) ∧
      ∀ voter, recorded manager hash voter =
        (castBy services voter history).foldl updateVote none

section Steps

variable {services : BudgetServices} {start manager : CBudgetManager} {hash : Uint256}
  {votes : Finset CBudgetVote} {history : List VoteMessage} {message : VoteMessage}

theorem castBy_snoc (voter : Uint256) :
    castBy services voter (history ++ [message]) =
      castBy services voter history ++
        if voterOf services message.2 = voter then [content message.2] else [] := by
  unfold castBy
  rw [filter_append, map_append]
  by_cases mine : voterOf services message.2 = voter
  · simp [mine]
  · simp [mine]

theorem register_snoc (voter : Uint256) :
    (castBy services voter (history ++ [message])).foldl updateVote none =
      if voterOf services message.2 = voter then
        updateVote ((castBy services voter history).foldl updateVote none) (content message.2)
      else (castBy services voter history).foldl updateVote none := by
  rw [castBy_snoc, foldl_append]
  by_cases mine : voterOf services message.2 = voter
  · rw [if_pos mine, if_pos mine]
    rfl
  · rw [if_neg mine, if_neg mine]
    rfl

theorem budgetVoteUpdateMin_pos : 0 < budgetVoteUpdateMin := by decide

theorem Tallied.seen_snoc (tallied : Tallied services start hash history manager)
    (isNoted : noted message = true) (other : Uint256) :
    other ∈ (receive services manager message).mapSeenMasternodeBudgetVotes ↔
      other ∈ start.mapSeenMasternodeBudgetVotes ∨
        ∃ earlier ∈ history ++ [message], hashOf services earlier = other := by
  simp only [mem_append, mem_singleton, or_and_right, exists_or, exists_eq_left]
  rw [mem_receive_seen services manager message isNoted, tallied.seen other,
    or_comm (a := other = hashOf services message), or_assoc, eq_comm (a := other)]

theorem Tallied.again (tallied : Tallied services start hash history manager)
    (repeated : ∃ earlier ∈ history, voterOf services earlier.2 = voterOf services message.2 ∧
      content earlier.2 = content message.2)
    (isNoted : noted message = true)
    (seen : hashOf services message ∈ manager.mapSeenMasternodeBudgetVotes) :
    Tallied services start hash (history ++ [message]) (receive services manager message) := by
  obtain ⟨earlier, member, sameVoter, sameContent⟩ := repeated
  have sameVote : earlier.2.nVote = message.2.nVote := congrArg Prod.fst sameContent
  constructor
  · exact tallied.seen_snoc isNoted
  · intro deletion
    rw [receive_seen services manager message seen]
    apply tallied.deleted
    obtain ⟨other, isOther, deletes⟩ := deletion
    obtain old | new := mem_append.mp isOther
    · exact ⟨other, old, deletes⟩
    · rw [mem_singleton.mp new] at deletes
      exact ⟨earlier, member, sameVote.trans deletes⟩
  · intro keeps
    have before := tallied.held fun other old => keeps other (mem_append_left _ old)
    rw [receive_seen services manager message seen]
    refine ⟨before.1, fun voter => ?_⟩
    rw [register_snoc, before.2 voter]
    by_cases mine : voterOf services message.2 = voter
    · rw [if_pos mine]
      have among : content message.2 ∈ castBy services voter history :=
        (mem_castBy services voter history _).mpr ⟨earlier, member, sameVoter.trans mine, sameContent⟩
      exact (update_again Prod.snd budgetVoteUpdateMin budgetVoteUpdateMin_pos _ _ among).symm
    · rw [if_neg mine]

theorem Tallied.count (tallied : Tallied services start hash history manager)
    (onProposal : message.2.nProposalHash = hash) (inTime : InTime services message)
    (new : hashOf services message ∉ manager.mapSeenMasternodeBudgetVotes) :
    Tallied services start hash (history ++ [message]) (receive services manager message) := by
  obtain ⟨isNoted, isSigned, notEarly⟩ := inTime
  have received := receive_new services manager message isNoted new
  rw [isSigned, if_pos rfl] at received
  constructor
  · exact tallied.seen_snoc isNoted
  · intro deletion
    rw [received, ← onProposal]
    obtain ⟨other, isOther, deletes⟩ := deletion
    obtain old | new := mem_append.mp isOther
    · have gone := tallied.deleted ⟨other, old, deletes⟩
      rw [← onProposal] at gone
      exact updateProposal_gone services message.1 _ { message.2 with fValid := true } true gone
    · rw [mem_singleton.mp new] at deletes
      exact updateProposal_deletion services message.1 _ { message.2 with fValid := true } true
        deletes
  · intro keeps
    have before := tallied.held fun other old => keeps other (mem_append_left _ old)
    have counts : message.2.nVote ≠ voteDelete :=
      keeps message (mem_append_right _ (mem_singleton.mpr rfl))
    obtain ⟨proposal, known⟩ := before.1
    have updated := updateProposal_known services message.1
      (manager.rememberVote services { message.2 with fValid := true })
      { message.2 with fValid := true } true proposal (onProposal ▸ known) counts
    rw [← received] at updated
    have found : (receive services manager message).mapProposals.lookup hash =
        some ((proposal.addOrUpdateVote services message.1
          { message.2 with fValid := true }).getD proposal) := onProposal ▸ updated
    refine ⟨⟨_, found⟩, fun voter => ?_⟩
    rw [register_snoc, ← before.2 voter]
    unfold recorded
    rw [found, known]
    exact addOrUpdateVote_records services message.1 proposal { message.2 with fValid := true }
      notEarly voter

end Steps

section Runs

variable {services : BudgetServices} {start : CBudgetManager} {hash : Uint256}
  {votes : Finset CBudgetVote}

theorem tallied_run (onProposal : ∀ vote ∈ votes, vote.nProposalHash = hash)
    (hashes : HashesTell services votes) (fresh : Fresh services hash votes start)
    (messages : List VoteMessage)
    (each : ∀ message ∈ messages, message.2 ∈ votes ∧ InTime services message) :
    Tallied services start hash messages (messages.foldl (receive services) start) := by
  induction messages using reverseRecOn with
  | nil =>
    obtain ⟨proposal, known, empty⟩ := fresh.known
    constructor
    · intro other
      simp
    · intro deletion
      obtain ⟨message, member, _⟩ := deletion
      exact absurd member not_mem_nil
    · intro _
      refine ⟨⟨proposal, known⟩, fun voter => ?_⟩
      unfold recorded
      rw [foldl_nil, known, Option.bind_some, empty]
      rfl
  | append_singleton history message ih =>
    have before := ih fun other old => each other (mem_append_left _ old)
    rcases each message (mem_append_right _ (mem_singleton.mpr rfl)) with
      ⟨isVote, inTime⟩
    rw [foldl_append]
    by_cases seen : hashOf services message ∈
        (history.foldl (receive services) start).mapSeenMasternodeBudgetVotes
    · have earlier : ∃ earlier ∈ history, hashOf services earlier = hashOf services message := by
        obtain atStart | later := (before.seen _).mp seen
        · exact absurd atStart (fresh.unseen message.2 isVote)
        · exact later
      obtain ⟨earlier, old, sameHash⟩ := earlier
      have isEarlier := (each earlier (mem_append_left _ old)).1
      exact before.again ⟨earlier, old, hashes earlier.2 isEarlier message.2 isVote sameHash⟩
        inTime.1 seen
    · exact before.count (onProposal message.2 isVote) inTime seen

theorem mem_castBy_of_delivered {messages : List VoteMessage}
    (delivered : Delivered services votes messages) (voter : Uint256) (entry : Int × Int) :
    entry ∈ castBy services voter messages ↔ entry ∈ castIn services voter votes := by
  rw [mem_castBy, mem_castIn]
  constructor
  · intro cast
    obtain ⟨message, member, mine, sameContent⟩ := cast
    exact ⟨message.2, (delivered.each message member).1, mine, sameContent⟩
  · intro cast
    obtain ⟨vote, isVote, mine, sameContent⟩ := cast
    obtain ⟨message, member, same⟩ := delivered.all vote isVote
    exact ⟨message, member, same ▸ mine, same ▸ sameContent⟩

theorem recorded_first (onProposal : ∀ vote ∈ votes, vote.nProposalHash = hash)
    (hashes : HashesTell services votes) (fresh : Fresh services hash votes start)
    (keeps : ∀ vote ∈ votes, vote.nVote ≠ voteDelete) (first : VoteMessage)
    (rest : List VoteMessage) (delivered : Delivered services votes (first :: rest))
    (isFinal : Final Prod.snd budgetVoteUpdateMin
      (· ∈ castIn services (voterOf services first.2) votes) (content first.2)) :
    recorded ((first :: rest).foldl (receive services) start) hash (voterOf services first.2) =
      some (content first.2) := by
  have tallied := tallied_run onProposal hashes fresh (first :: rest) delivered.each
  have kept := tallied.held fun message member => keeps message.2 (delivered.each message member).1
  rw [kept.2]
  have split : castBy services (voterOf services first.2) (first :: rest) =
      content first.2 :: castBy services (voterOf services first.2) rest := by
    unfold castBy
    simp
  rw [split, foldl_cons, updateVote, update_empty]
  apply foldl_soon
  intro entry member
  apply isFinal
  rw [← mem_castBy_of_delivered delivered, split]
  exact mem_cons_of_mem _ member

theorem exists_delivery (deliverable : ∀ vote ∈ votes, ∃ view, InTime services (view, vote))
    (first : CBudgetVote) (isFirst : first ∈ votes) :
    ∃ view rest, Delivered services votes ((view, first) :: rest) := by
  choose view inTime using deliverable
  refine ⟨view first isFirst, votes.attach.toList.map fun other => (view other.1 other.2, other.1),
    ⟨fun message member => ?_, fun other isOther => ?_⟩⟩
  · obtain here | later := mem_cons.mp member
    · rw [here]
      exact ⟨isFirst, inTime first isFirst⟩
    · obtain ⟨other, _, same⟩ := mem_map.mp later
      rw [← same]
      exact ⟨other.2, inTime other.1 other.2⟩
  · refine ⟨(view other isOther, other), mem_cons_of_mem _ ?_, rfl⟩
    exact mem_map.mpr ⟨⟨other, isOther⟩, Finset.mem_toList.mpr (Finset.mem_attach _ _), rfl⟩

end Runs

def proposedManager : CBudgetManager :=
  step exampleBudget .empty (.mprop exampleView exampleProposal)

/-- A yes of the first masternode, and its no a number of seconds later. -/
def changedMind (seconds : Int) : List CBudgetVote :=
  [{ exampleVote 21 [1] with nVote := voteYes, nTime := 1600000300 - seconds },
    { exampleVote 21 [1] with nVote := voteNo }]

def arriving (votes : List CBudgetVote) : List VoteMessage :=
  votes.map fun vote => (exampleView, vote)

theorem proposed_fresh (votes : Finset CBudgetVote) :
    Fresh exampleBudget 2 votes proposedManager := by
  constructor
  · exact ⟨CBudgetProposal.ofBroadcast exampleProposal, by rfl, rfl⟩
  · intro vote _
    exact AList.notMem_empty _

theorem arriving_delivered (votes order : List CBudgetVote)
    (sameVotes : ∀ vote, vote ∈ order ↔ vote ∈ votes)
    (inTime : ∀ vote ∈ votes, InTime exampleBudget (exampleView, vote)) :
    Delivered exampleBudget votes.toFinset (arriving order) := by
  constructor
  · intro message member
    obtain ⟨vote, isVote, same⟩ := mem_map.mp member
    have isOne := (sameVotes vote).mp isVote
    rw [← same]
    exact ⟨mem_toFinset.mpr isOne, inTime vote isOne⟩
  · intro vote isVote
    exact ⟨(exampleView, vote),
      mem_map.mpr ⟨vote, (sameVotes vote).mpr (mem_toFinset.mp isVote), rfl⟩, rfl⟩

end ZenonCore.TallyOrder
