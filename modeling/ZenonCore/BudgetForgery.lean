import ZenonCore.Budget
import ZenonCore.Library.Interference

/-!
# Forged budget votes

`mvote` notes the hash of a vote, without its signature, before it looks at the signature; a
forged vote makes a later genuine one look seen.
-/

namespace ZenonCore.BudgetForgery

open Script Primitives Masternode MasternodeMan List
open Budget Budget.CBudgetManager Library.Interference

section Messages

variable (services : BudgetServices)

/-- The hashes a run has brought so far, of signed votes and of others. -/
structure Heard where
  genuine : List Uint256
  forged : List Uint256

def Heard.note (heard : Heard) (message : VoteMessage) : Heard :=
  if !noted message then heard
  else if signed services message then
    { heard with genuine := hashOf services message :: heard.genuine }
  else { heard with forged := hashOf services message :: heard.forged }

/-- A signed vote whose hash a forged one had has been received before. -/
def Heard.Unshadowed (heard : Heard) (message : VoteMessage) : Prop :=
  noted message = true → signed services message = true →
    hashOf services message ∈ heard.forged → hashOf services message ∈ heard.genuine

/-- What two runs that differ in forged votes only have in common: all but the forged votes that are
seen. -/
structure Related (heard : Heard) (left right : CBudgetManager) : Prop where
  rest : left = { right with mapSeenMasternodeBudgetVotes := left.mapSeenMasternodeBudgetVotes }
  fewer : ∀ hash ∈ right.mapSeenMasternodeBudgetVotes, hash ∈ left.mapSeenMasternodeBudgetVotes
  forged : ∀ hash ∈ left.mapSeenMasternodeBudgetVotes,
    hash ∈ right.mapSeenMasternodeBudgetVotes ∨ hash ∈ heard.forged
  genuine : ∀ hash ∈ heard.genuine, hash ∈ right.mapSeenMasternodeBudgetVotes

end Messages

instance (services : BudgetServices) (heard : Heard) (message : VoteMessage) :
    Decidable (heard.Unshadowed services message) :=
  inferInstanceAs (Decidable (_ → _ → _ → _))

section Runs

variable (services : BudgetServices) (heard : Heard) (left right : CBudgetManager)
  (message : VoteMessage)

theorem note_not_noted (unnoted : noted message = false) : heard.note services message = heard := by
  unfold Heard.note
  simp [unnoted]

theorem forged_dropped (related : Related heard left right)
    (unsigned : signed services message = false) :
    Related (heard.note services message) (receive services left message) right := by
  cases isNoted : noted message with
  | false =>
    rw [note_not_noted services heard message isNoted,
      receive_not_noted services left message isNoted]
    exact related
  | true =>
    have heardNow : heard.note services message =
        { heard with forged := hashOf services message :: heard.forged } := by
      unfold Heard.note
      simp [isNoted, unsigned]
    have seenNow := mem_receive_seen services left message isNoted
    rw [heardNow]
    constructor
    · by_cases seen : hashOf services message ∈ left.mapSeenMasternodeBudgetVotes
      · rw [receive_seen services left message seen]
        exact related.rest
      · rw [receive_new services left message isNoted seen, unsigned, related.rest]
        rfl
    · intro hash there
      exact (seenNow hash).mpr (Or.inr (related.fewer hash there))
    · intro hash there
      obtain same | before := (seenNow hash).mp there
      · exact Or.inr (mem_cons.mpr (Or.inl same))
      · obtain kept | earlier := related.forged hash before
        · exact Or.inl kept
        · exact Or.inr (mem_cons_of_mem _ earlier)
    · exact related.genuine

theorem genuine_followed (related : Related heard left right)
    (isSigned : signed services message = true) (unshadowed : heard.Unshadowed services message) :
    Related (heard.note services message) (receive services left message)
      (receive services right message) := by
  cases isNoted : noted message with
  | false =>
    rw [note_not_noted services heard message isNoted,
      receive_not_noted services left message isNoted,
      receive_not_noted services right message isNoted]
    exact related
  | true =>
    have heardNow : heard.note services message =
        { heard with genuine := hashOf services message :: heard.genuine } := by
      unfold Heard.note
      simp [isNoted, isSigned]
    have leftSeen := mem_receive_seen services left message isNoted
    have rightSeen := mem_receive_seen services right message isNoted
    have together : hashOf services message ∈ left.mapSeenMasternodeBudgetVotes →
        hashOf services message ∈ right.mapSeenMasternodeBudgetVotes := by
      intro seen
      obtain kept | forged := related.forged _ seen
      · exact kept
      · exact related.genuine _ (unshadowed isNoted isSigned forged)
    rw [heardNow]
    constructor
    · by_cases seen : hashOf services message ∈ left.mapSeenMasternodeBudgetVotes
      · rw [receive_seen services left message seen,
          receive_seen services right message (together seen)]
        exact related.rest
      · have new : hashOf services message ∉ right.mapSeenMasternodeBudgetVotes :=
          fun there => seen (related.fewer _ there)
        rw [receive_new services left message isNoted seen,
          receive_new services right message isNoted new, isSigned, if_pos rfl, if_pos rfl,
          updateProposal_seen_kept]
        have same : left.rememberVote services { message.2 with fValid := true } =
            { right.rememberVote services { message.2 with fValid := true } with
              mapSeenMasternodeBudgetVotes := (left.rememberVote services
                { message.2 with fValid := true }).mapSeenMasternodeBudgetVotes } := by
          conv_lhs => rw [related.rest]
          rfl
        conv_lhs => rw [same]
        rw [updateProposal_seen]
    · intro hash there
      obtain here | before := (rightSeen hash).mp there
      · exact (leftSeen hash).mpr (Or.inl here)
      · exact (leftSeen hash).mpr (Or.inr (related.fewer hash before))
    · intro hash there
      obtain here | before := (leftSeen hash).mp there
      · exact Or.inl ((rightSeen hash).mpr (Or.inl here))
      · obtain kept | forged := related.forged hash before
        · exact Or.inl ((rightSeen hash).mpr (Or.inr kept))
        · exact Or.inr forged
    · intro hash there
      obtain here | before := mem_cons.mp there
      · exact (rightSeen hash).mpr (Or.inl here)
      · exact (rightSeen hash).mpr (Or.inr (related.genuine hash before))

end Runs

section Condition

variable (services : BudgetServices)

/-- A genuine vote that has the hash of a forged one before it has come before
that one too. -/
def Unshadowed (messages : List VoteMessage) : Prop :=
  ∀ before message, before ++ [message] <+: messages →
    noted message = true → signed services message = true →
    (∃ forged ∈ before, noted forged = true ∧ signed services forged = false ∧
      hashOf services forged = hashOf services message) →
    ∃ genuine ∈ before, noted genuine = true ∧ signed services genuine = true ∧
      hashOf services genuine = hashOf services message

variable (heard : Heard) (message : VoteMessage) (hash : Uint256)

theorem mem_note_forged :
    hash ∈ (heard.note services message).forged ↔
      hash ∈ heard.forged ∨ noted message = true ∧ signed services message = false ∧
        hashOf services message = hash := by
  unfold Heard.note
  cases noted message with
  | false => simp
  | true =>
    cases signed services message with
    | true => simp
    | false =>
      simp only [Bool.not_true, Bool.false_eq_true, if_false, mem_cons, true_and]
      constructor
      · intro either
        exact either.symm.imp id Eq.symm
      · intro either
        exact (either.imp id Eq.symm).symm

theorem mem_note_genuine :
    hash ∈ (heard.note services message).genuine ↔
      hash ∈ heard.genuine ∨ noted message = true ∧ signed services message = true ∧
        hashOf services message = hash := by
  unfold Heard.note
  cases noted message with
  | false => simp
  | true =>
    cases signed services message with
    | false => simp
    | true =>
      simp only [Bool.not_true, Bool.false_eq_true, if_false, if_true, mem_cons, true_and]
      constructor
      · intro either
        exact either.symm.imp id Eq.symm
      · intro either
        exact (either.imp id Eq.symm).symm

theorem mem_heard (heard : Heard) (before : List VoteMessage) (hash : Uint256) :
    (hash ∈ (before.foldl (Heard.note services) heard).forged ↔
      hash ∈ heard.forged ∨ ∃ forged ∈ before, noted forged = true ∧
        signed services forged = false ∧ hashOf services forged = hash) ∧
    (hash ∈ (before.foldl (Heard.note services) heard).genuine ↔
      hash ∈ heard.genuine ∨ ∃ genuine ∈ before, noted genuine = true ∧
        signed services genuine = true ∧ hashOf services genuine = hash) := by
  induction before generalizing heard with
  | nil => simp
  | cons first rest ih =>
    have later := ih (heard.note services first)
    rw [mem_note_forged, mem_note_genuine] at later
    simp only [foldl_cons, exists_mem_cons_iff]
    exact ⟨later.1.trans or_assoc, later.2.trans or_assoc⟩

theorem unshadowed_iff_guarded (manager : CBudgetManager) (messages : List VoteMessage) :
    Unshadowed services messages ↔
      Guarded (receive services) (Heard.note services)
        (fun heard _ message => heard.Unshadowed services message) ⟨[], []⟩ manager messages := by
  rw [guarded_iff_prefixes]
  unfold Unshadowed Heard.Unshadowed
  have heardBefore := mem_heard services ⟨[], []⟩
  simp only [not_mem_nil, false_or] at heardBefore
  simp only [heardBefore]

end Condition

/-- Where no forged vote comes before a genuine one of its hash, every proposal has the votes and
the tally of the run without the forged ones. -/
theorem forged_votes_are_inert (services : BudgetServices) (manager : CBudgetManager)
    (messages : List VoteMessage) (unshadowed : Unshadowed services messages) :
    (messages.foldl (receive services) manager).mapProposals =
        ((messages.filter (signed services)).foldl (receive services) manager).mapProposals ∧
      ∀ hash, tally (messages.foldl (receive services) manager) hash =
        tally ((messages.filter (signed services)).foldl (receive services) manager) hash := by
  have initially : Related ⟨[], []⟩ manager manager :=
    { rest := rfl
      fewer := fun _ there => there
      forged := fun _ there => Or.inl there
      genuine := fun _ there => absurd there not_mem_nil }
  have ended := deletion_unnoticed (receive services) (Heard.note services)
    (fun heard _ message => heard.Unshadowed services message) (signed services) Related
    (fun heard left right message related _ unsigned =>
      forged_dropped services heard left right message related unsigned)
    (fun heard left right message related unshadowed isSigned =>
      genuine_followed services heard left right message related isSigned unshadowed)
    ⟨[], []⟩ manager manager messages initially
    ((unshadowed_iff_guarded services manager messages).mp unshadowed)
  have same : (messages.foldl (receive services) manager).mapProposals =
      ((messages.filter (signed services)).foldl (receive services) manager).mapProposals := by
    rw [ended.rest]
  refine ⟨same, fun hash => ?_⟩
  unfold tally
  rw [same]

def proposedManager : CBudgetManager :=
  step exampleBudget .empty (.mprop exampleView exampleProposal)

/-- A vote that bears the signature of another key, and the genuine one. -/
def forgedThenGenuine : List VoteMessage :=
  [(exampleView, exampleVote 21 [7]), (exampleView, exampleVote 21 [1])]

def genuineThenForged : List VoteMessage := forgedThenGenuine.reverse

/-- The genuine vote behind a forged one of its hash is not counted. -/
theorem forged_vote_shadows_genuine :
    ¬ ∀ (services : BudgetServices) (manager : CBudgetManager) (messages : List VoteMessage)
        (hash : Uint256),
      tally (messages.foldl (receive services) manager) hash =
        tally ((messages.filter (signed services)).foldl (receive services) manager) hash := by
  intro inert
  have same := inert exampleBudget proposedManager forgedThenGenuine 2
  have shadowed : tally (forgedThenGenuine.foldl (receive exampleBudget) proposedManager) 2 =
      some (0, 0, 0) := by decide +kernel
  have counted : tally ((forgedThenGenuine.filter (signed exampleBudget)).foldl
      (receive exampleBudget) proposedManager) 2 = some (1, 0, 0) := by decide +kernel
  rw [shadowed, counted] at same
  cases same

/-- The other way round the genuine vote is counted once. -/
theorem genuine_vote_comes_first :
    tally (genuineThenForged.foldl (receive exampleBudget) proposedManager) 2 =
        some (1, 0, 0) ∧
      Unshadowed exampleBudget genuineThenForged := by
  have unshadowed : Unshadowed exampleBudget genuineThenForged := by
    apply (unshadowed_iff_guarded exampleBudget proposedManager genuineThenForged).mpr
    decide +kernel
  have same := (forged_votes_are_inert exampleBudget proposedManager genuineThenForged
    unshadowed).2 2
  refine ⟨same.trans ?_, unshadowed⟩
  decide +kernel

end ZenonCore.BudgetForgery
