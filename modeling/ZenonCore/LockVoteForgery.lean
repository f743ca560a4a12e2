import ZenonCore.Library.Shadowing
import ZenonCore.LockAuthority

/-!
# Forged lock votes

`txlvote` stores a vote before its rank and signature are looked at, under a hash without
signature and height.
-/

namespace ZenonCore.LockVoteForgery

open Script Primitives Masternode MasternodeMan List
open Budget SwiftTX LockAuthority Library.Maps
open Library.Shadowing

abbrev LockVoteMessage := SwiftView × CConsensusVote

section Messages

variable (signer : Signer)

def receive (state : SwiftState) (message : LockVoteMessage) : SwiftState :=
  processVote signer message.1 state message.2

def listens (message : LockVoteMessage) : Bool := message.1.listens

/-- The masternode ranks for the height of the vote, and has signed it. -/
def valid (message : LockVoteMessage) : Bool := message.2.isVerified signer message.1

def hashOf (message : LockVoteMessage) : Uint256 := message.2.getHash

/-- The votes that are recorded for the lock of a transaction. -/
def recordedVotes (state : SwiftState) (txHash : Uint256) : List CConsensusVote :=
  (state.mapTxLocks.lookup txHash).elim [] CTransactionLock.vecConsensusVotes

def withVotes (votes : AList fun _ : Uint256 => CConsensusVote) (state : SwiftState) : SwiftState :=
  { state with mapTxLockVote := votes }

def withoutVotes (state : SwiftState) : SwiftState := withVotes ∅ state

/-- What a valid vote that is new does, apart from being stored. -/
def countVote (state : SwiftState) (message : LockVoteMessage) : SwiftState :=
  noteUnknownVote message.1 (processConsensusVote signer message.1 state message.2).1 message.2

end Messages

section Stored

variable (signer : Signer) (view : SwiftView) (state : SwiftState)
  (votes : AList fun _ : Uint256 => CConsensusVote) (ctx : CConsensusVote)

theorem checkForConflictingLocks_votes (now : Int) (tx : CTransaction) :
    checkForConflictingLocks now (withVotes votes state) tx =
      (withVotes votes (checkForConflictingLocks now state tx).1,
        (checkForConflictingLocks now state tx).2) := by
  unfold checkForConflictingLocks
  have same : conflictingHolder (withVotes votes state) tx = conflictingHolder state tx := rfl
  rw [same]
  cases conflictingHolder state tx with
  | none => rfl
  | some holder => rfl

theorem completeLock_votes (txHash : Uint256) :
    completeLock view (withVotes votes state) txHash =
      withVotes votes (completeLock view state txHash) := by
  unfold completeLock
  dsimp only
  have same : (withVotes votes state).mapTxLockReq = state.mapTxLockReq := rfl
  rw [same]
  cases (insertNew state.mapTxLockReq txHash emptyTransaction).lookup txHash with
  | none => rfl
  | some tx =>
    have checked := checkForConflictingLocks_votes
      { state with mapTxLockReq := insertNew state.mapTxLockReq txHash emptyTransaction } votes
      view.getTime tx
    dsimp only
    rw [show { withVotes votes state with
        mapTxLockReq := insertNew state.mapTxLockReq txHash emptyTransaction } =
      withVotes votes { state with
        mapTxLockReq := insertNew state.mapTxLockReq txHash emptyTransaction } from rfl, checked]
    cases checkForConflictingLocks view.getTime
        { state with mapTxLockReq := insertNew state.mapTxLockReq txHash emptyTransaction } tx with
    | mk after conflict =>
      cases conflict with
      | true => rfl
      | false => rfl

theorem noteUnknownVote_votes :
    noteUnknownVote view (withVotes votes state) ctx =
      withVotes votes (noteUnknownVote view state ctx) := by
  unfold noteUnknownVote
  dsimp only
  rw [apply_ite (withVotes votes), apply_ite (withVotes votes)]
  rfl

theorem processConsensusVote_votes :
    processConsensusVote signer view (withVotes votes state) ctx =
      (withVotes votes (processConsensusVote signer view state ctx).1,
        (processConsensusVote signer view state ctx).2) := by
  unfold processConsensusVote
  cases ctx.isVerified signer view with
  | false => rfl
  | true =>
    simp only [Bool.not_true, Bool.false_eq_true, if_false]
    have same : recordVote view (withVotes votes state) ctx =
        withVotes votes (recordVote view state ctx) := rfl
    rw [same, completeLock_votes]
    have locks : (withVotes votes (recordVote view state ctx)).mapTxLocks =
        (recordVote view state ctx).mapTxLocks := rfl
    rw [locks]
    split
    · rfl
    · rfl

theorem countVote_votes (message : LockVoteMessage) :
    countVote signer (withVotes votes state) message =
      withVotes votes (countVote signer state message) := by
  unfold countVote
  rw [processConsensusVote_votes, noteUnknownVote_votes]

theorem processConsensusVote_valid (isValid : ctx.isVerified signer view = true) :
    (processConsensusVote signer view state ctx).2 = true := by
  unfold processConsensusVote
  rw [isValid, Bool.not_true, if_neg (by decide)]
  dsimp only
  split
  · rfl
  · rfl

end Stored

section Handler

variable (signer : Signer) (state : SwiftState) (message : LockVoteMessage)

theorem receive_deaf (isDeaf : listens message = false) : receive signer state message = state := by
  unfold receive processVote
  unfold listens at isDeaf
  rw [isDeaf]
  rfl

theorem receive_stored (stored : hashOf message ∈ state.mapTxLockVote) :
    receive signer state message = state := by
  unfold receive processVote
  unfold hashOf at stored
  rw [if_pos stored, ite_self]

theorem receive_new (hears : listens message = true)
    (new : hashOf message ∉ state.mapTxLockVote) :
    receive signer state message =
      withVotes (state.mapTxLockVote.insert (hashOf message) message.2)
        (if valid signer message then countVote signer state message else state) := by
  unfold receive processVote
  unfold listens at hears
  unfold hashOf at new
  rw [hears, Bool.not_true, if_neg (by decide), if_neg new]
  dsimp only
  have stored : { state with
      mapTxLockVote := state.mapTxLockVote.insert message.2.getHash message.2 } =
    withVotes (state.mapTxLockVote.insert (hashOf message) message.2) state := rfl
  rw [stored, processConsensusVote_votes]
  cases isValid : valid signer message with
  | false =>
    unfold valid at isValid
    unfold processConsensusVote
    rw [isValid]
    rfl
  | true =>
    unfold valid at isValid
    rw [processConsensusVote_valid signer message.1 state message.2 isValid]
    dsimp only
    rw [noteUnknownVote_votes]
    rfl

theorem receive_firstOnly :
    FirstOnly (receive signer) (fun state hash => hash ∈ state.mapTxLockVote) withoutVotes listens
      (valid signer) hashOf (countVote signer) where
  deaf := fun state message isDeaf => receive_deaf signer state message isDeaf
  notes := by
    intro state message hears other
    by_cases stored : hashOf message ∈ state.mapTxLockVote
    · rw [receive_stored signer state message stored]
      constructor
      · exact Or.inr
      · intro either
        obtain same | there := either
        · rw [same]
          exact stored
        · exact there
    · rw [receive_new signer state message hears stored]
      exact AList.mem_insert _
  repeated := by
    intro state message stored
    rw [receive_stored signer state message stored]
  forged := by
    intro state message hears new invalid
    rw [receive_new signer state message hears new, invalid]
    rfl
  counted := by
    intro state message hears new isValid
    rw [receive_new signer state message hears new, isValid, if_pos rfl]
    unfold withoutVotes
    rw [countVote_votes]
    rfl

end Handler

section Recording

variable (signer : Signer) (state : SwiftState) (message : LockVoteMessage)

theorem recordVote_records (view : SwiftView) (ctx : CConsensusVote) :
    recordedVotes (recordVote view state ctx) ctx.txHash =
      recordedVotes state ctx.txHash ++ [ctx] := by
  unfold recordedVotes recordVote
  rw [lookup_adjust, if_pos rfl, lookup_insertNew, if_pos rfl]
  cases state.mapTxLocks.lookup ctx.txHash with
  | none => rfl
  | some lock => rfl

theorem recordedVotes_same {before after : SwiftState}
    (same : SameLocks before.mapTxLocks after.mapTxLocks) (txHash : Uint256) :
    recordedVotes after txHash = recordedVotes before txHash := by
  obtain ⟨expire, entry⟩ := same txHash
  unfold recordedVotes
  rw [entry]
  cases before.mapTxLocks.lookup txHash with
  | none => rfl
  | some lock => rfl

theorem countVote_records (isValid : valid signer message = true) :
    recordedVotes (countVote signer state message) message.2.txHash =
      recordedVotes state message.2.txHash ++ [message.2] := by
  unfold countVote
  rcases noteUnknownVote_effect message.1
    (processConsensusVote signer message.1 state message.2).1 message.2 with ⟨unknown, noted⟩
  rw [noted]
  have kept : recordedVotes { (processConsensusVote signer message.1 state message.2).1 with
      mapUnknownVotes := unknown } message.2.txHash =
    recordedVotes (processConsensusVote signer message.1 state message.2).1 message.2.txHash := rfl
  rw [kept, ← recordVote_records state message.1 message.2]
  unfold valid at isValid
  unfold processConsensusVote
  rw [isValid, Bool.not_true, if_neg (by decide)]
  dsimp only
  split
  · rcases completeLock_effect message.1 (recordVote message.1 state message.2) message.2.txHash
      with ⟨requests, locks, inputs, completed, same⟩
    rw [completed]
    exact recordedVotes_same same message.2.txHash
  · rfl

theorem countVote_moves (isValid : valid signer message = true) :
    recordedVotes (countVote signer state message) ≠ recordedVotes state := by
  intro same
  have lengths := congrArg length (congrFun same message.2.txHash)
  rw [countVote_records signer state message isValid, length_append] at lengths
  simp at lengths

end Recording

/-- Each lock has the votes of the run without the failing votes exactly if no valid vote is
shadowed: if a failing one had its hash before it, a valid one had too. Then all but the stored
votes is the same. -/
theorem forged_lock_votes_inert_iff (signer : Signer) (state : SwiftState)
    (votes : List LockVoteMessage) :
    ((∀ before, before <+: votes →
        recordedVotes (before.foldl (receive signer) state) =
          recordedVotes ((before.filter (valid signer)).foldl (receive signer) state)) ↔
      Unshadowed (fun hash => hash ∈ state.mapTxLockVote) listens (valid signer) hashOf votes) ∧
    (Unshadowed (fun hash => hash ∈ state.mapTxLockVote) listens (valid signer) hashOf votes →
      withoutVotes (votes.foldl (receive signer) state) =
        withoutVotes ((votes.filter (valid signer)).foldl (receive signer) state)) := by
  have laws := receive_firstOnly signer
  constructor
  · exact laws.unshadowed_iff recordedVotes state votes fun others message _ isValid =>
      countVote_moves signer others message isValid
  · exact laws.rest_run state votes

/-- A vote of the first masternode that bears another key's signature, and the
genuine one. -/
def forgedThenGenuine : List LockVoteMessage :=
  [(swiftView, { swiftVote payment.hash 0 with vchMasterNodeSignature := [7] }),
    (swiftView, swiftVote payment.hash 0)]

/-- The genuine vote behind the forged one is not counted. -/
theorem forged_vote_shadows_lock_vote :
    ¬ ∀ (signer : Signer) (state : SwiftState) (votes : List LockVoteMessage) (txHash : Uint256),
      recordedVotes (votes.foldl (receive signer) state) txHash =
        recordedVotes ((votes.filter (valid signer)).foldl (receive signer) state) txHash := by
  intro inert
  have same := inert exampleBudget.signer .empty forgedThenGenuine payment.hash
  have shadowed : recordedVotes (forgedThenGenuine.foldl (receive exampleBudget.signer) .empty)
      payment.hash = [] := by decide +kernel
  have counted : recordedVotes ((forgedThenGenuine.filter (valid exampleBudget.signer)).foldl
      (receive exampleBudget.signer) .empty) payment.hash = [swiftVote payment.hash 0] := by
    decide +kernel
  rw [shadowed, counted] at same
  cases same

/-- The other way round the genuine vote is counted. -/
theorem genuine_lock_vote_first :
    recordedVotes (forgedThenGenuine.reverse.foldl (receive exampleBudget.signer) .empty)
      payment.hash = [swiftVote payment.hash 0] := by
  have unshadowed : Unshadowed (fun hash => hash ∈ SwiftState.empty.mapTxLockVote) listens
      (valid exampleBudget.signer) hashOf forgedThenGenuine.reverse := by
    intro before message isPrefix _ isValid _ shadow
    obtain ⟨other, member, _, invalid, _⟩ := shadow
    obtain empty | ⟨rest, whole, isRest⟩ := prefix_cons_iff.mp isPrefix
    · exact absurd empty (by simp)
    · cases before with
      | nil => exact absurd member not_mem_nil
      | cons first others =>
        rw [cons_append, cons.injEq] at whole
        rw [← whole.2] at isRest
        obtain empty | ⟨last, ends, isLast⟩ := prefix_cons_iff.mp isRest
        · exact absurd empty (by simp)
        · have isForged : message = (swiftView,
              { swiftVote payment.hash 0 with vchMasterNodeSignature := [7] }) := by
            rw [prefix_nil.mp isLast] at ends
            exact (append_singleton_inj.mp (ends.trans (nil_append _).symm)).2
          rw [isForged] at isValid
          exact absurd isValid (by decide +kernel)
  have same := (forged_lock_votes_inert_iff exampleBudget.signer .empty
    forgedThenGenuine.reverse).1.mpr unshadowed _ (prefix_refl _)
  rw [same]
  decide +kernel

end ZenonCore.LockVoteForgery
