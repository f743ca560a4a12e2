import ZenonCore.Library.Interference
import ZenonCore.MasternodePayments

/-!
# One vote of a masternode for each height

`CanVote` remembers one height of a masternode, and `ProcessBlock` does not ask it.
-/

namespace ZenonCore.WinnerVotes

open Primitives Script Budget MasternodePayments
open MasternodePayments.CMasternodePayments Library.Interference

/-- The winner is the vote of the masternode for the height. -/
def IsVoteOf (outpoint : COutPoint) (nBlockHeight : Int) (winner : CMasternodePaymentWinner) :
    Prop :=
  winner.vinMasternode.prevout = outpoint ∧ winner.nBlockHeight = nBlockHeight

instance (outpoint : COutPoint) (nBlockHeight : Int) (winner : CMasternodePaymentWinner) :
    Decidable (IsVoteOf outpoint nBlockHeight winner) :=
  inferInstanceAs (Decidable (_ ∧ _))

/-- The number of winners of a masternode that are counted for a height. -/
def votesOf (payments : CMasternodePayments) (outpoint : COutPoint) (nBlockHeight : Int) : Nat :=
  payments.mapMasternodePayeeVotes.entries.countP fun entry =>
    decide (IsVoteOf outpoint nBlockHeight entry.2)

def winnersFor (payments : CMasternodePayments) (nBlockHeight : Int) (payee : CScript) : Nat :=
  payments.mapMasternodePayeeVotes.entries.countP fun entry =>
    entry.2.nBlockHeight == nBlockHeight && entry.2.payee == payee

def Counted (payments : CMasternodePayments) : Prop :=
  ∀ nBlockHeight payee, (payments.blockPayees nBlockHeight).votesFor payee =
    winnersFor payments nBlockHeight payee

def Filed (payments : CMasternodePayments) : Prop :=
  ∀ nBlockHeight payees, payments.mapMasternodeBlocks.lookup nBlockHeight = some payees →
    payees.nBlockHeight = nBlockHeight

/-- If the winner is new and its masternode has voted for the height, that vote is what `CanVote`
remembers of a message. -/
def Remembered (services : PaymentServices) (payments : CMasternodePayments) (event : Event) :
    Prop :=
  ∀ winner ∈ offered services payments event,
    winner.getHash services ∉ payments.mapMasternodePayeeVotes →
    (event.view.getBlockHash (winner.nBlockHeight - 100)).isSome = true →
    votesOf payments winner.vinMasternode.prevout winner.nBlockHeight ≠ 0 →
    ∃ view own, event = .mnw view own ∧
      payments.mapMasternodesLastVote.lookup (lastVoteKey own.vinMasternode.prevout) =
        some own.nBlockHeight

section Count

variable (services : PaymentServices) (payments : CMasternodePayments)
  (winner : CMasternodePaymentWinner)

theorem votesFor_addPayee (payees : CMasternodeBlockPayees) (payeeIn script : CScript) :
    (payees.addPayee payeeIn 1).votesFor script =
      payees.votesFor script + if payeeIn = script then 1 else 0 := by
  unfold CMasternodeBlockPayees.votesFor CMasternodeBlockPayees.addPayee
  dsimp only
  induction payees.vecPayments with
  | nil =>
    by_cases same : payeeIn = script
    · simp [addToPayments, same]
    · simp [addToPayments, same]
  | cons payee rest ih =>
    unfold addToPayments
    by_cases here : payee.scriptPubKey = payeeIn
    · rw [if_pos here]
      by_cases same : payeeIn = script
      · simp [here, same]
      · simp [here, same]
    · rw [if_neg here]
      by_cases found : payee.scriptPubKey = script
      · have apart : payeeIn ≠ script := fun same => here (found.trans same.symm)
        simp [found, apart]
      · have absent : (payee.scriptPubKey == script) = false := by simpa using found
        rw [List.find?_cons_of_neg (by simp [absent]), List.find?_cons_of_neg (by simp [absent])]
        exact ih

theorem count_entries (absent : winner.getHash services ∉ payments.mapMasternodePayeeVotes) :
    (payments.count services winner).mapMasternodePayeeVotes.entries =
      ⟨winner.getHash services, winner⟩ :: payments.mapMasternodePayeeVotes.entries :=
  AList.entries_insert_of_notMem absent

theorem votesOf_count (absent : winner.getHash services ∉ payments.mapMasternodePayeeVotes)
    (outpoint : COutPoint) (nBlockHeight : Int) :
    votesOf (payments.count services winner) outpoint nBlockHeight =
      votesOf payments outpoint nBlockHeight +
        if IsVoteOf outpoint nBlockHeight winner then 1 else 0 := by
  unfold votesOf
  rw [count_entries services payments winner absent, List.countP_cons]
  simp

theorem winnersFor_count (absent : winner.getHash services ∉ payments.mapMasternodePayeeVotes)
    (nBlockHeight : Int) (payee : CScript) :
    winnersFor (payments.count services winner) nBlockHeight payee =
      winnersFor payments nBlockHeight payee +
        if winner.nBlockHeight = nBlockHeight ∧ winner.payee = payee then 1 else 0 := by
  unfold winnersFor
  rw [count_entries services payments winner absent, List.countP_cons]
  simp

theorem blockPayees_count (nBlockHeight : Int) :
    (payments.count services winner).blockPayees nBlockHeight =
      if winner.nBlockHeight = nBlockHeight then
        (payments.blockPayees nBlockHeight).addPayee winner.payee 1
      else payments.blockPayees nBlockHeight := by
  unfold blockPayees CMasternodePayments.count
  dsimp only
  by_cases here : winner.nBlockHeight = nBlockHeight
  · subst here
    rw [AList.lookup_insert, if_pos rfl, Option.getD_some]
    rfl
  · rw [AList.lookup_insert_ne (Ne.symm here), if_neg here]

theorem counted_count (counted : Counted payments)
    (absent : winner.getHash services ∉ payments.mapMasternodePayeeVotes) :
    Counted (payments.count services winner) := by
  intro nBlockHeight payee
  have before := counted nBlockHeight payee
  rw [blockPayees_count, winnersFor_count services payments winner absent]
  by_cases here : winner.nBlockHeight = nBlockHeight
  · rw [if_pos here, votesFor_addPayee, before]
    by_cases same : winner.payee = payee
    · simp [here, same]
    · simp [same]
  · rw [if_neg here, before]
    simp [here]

theorem filed_count (filed : Filed payments) : Filed (payments.count services winner) := by
  intro nBlockHeight payees found
  have own : (payments.blockPayees winner.nBlockHeight).nBlockHeight = winner.nBlockHeight := by
    unfold blockPayees
    cases there : payments.mapMasternodeBlocks.lookup winner.nBlockHeight with
    | none => rfl
    | some old => exact filed _ old there
  by_cases here : nBlockHeight = winner.nBlockHeight
  · rw [here] at found ⊢
    have stored := (AList.lookup_insert _).symm.trans found
    cases stored
    exact own
  · exact filed nBlockHeight payees ((AList.lookup_insert_ne here).symm.trans found)

end Count

theorem run_filed (services : PaymentServices) (events : List Event) :
    Filed (events.foldl (step services) .empty) := by
  have kept : ∀ (payments : CMasternodePayments) (event : Event), Filed payments →
      Filed (step services payments event) := by
    intro payments event filed
    obtain same | ⟨winner, _, _, _, _, _, sameBlocks⟩ := step_votes services payments event
    · intro nBlockHeight payees
      rw [same.2]
      exact filed nBlockHeight payees
    · intro nBlockHeight payees
      rw [sameBlocks]
      exact filed_count services payments winner filed nBlockHeight payees
  have along : ∀ (payments : CMasternodePayments), Filed payments →
      Filed (events.foldl (step services) payments) := by
    induction events with
    | nil => exact fun _ filed => filed
    | cons event events ih => exact fun payments filed => ih _ (kept payments event filed)
  apply along
  intro nBlockHeight payees found
  cases found

/-- What holds of the votes: they are those of the stored winners, and a
masternode has at most one for each height. -/
structure OneVoteEach (payments : CMasternodePayments) : Prop where
  counted : Counted payments
  filed : Filed payments
  atMostOne : ∀ outpoint nBlockHeight, votesOf payments outpoint nBlockHeight ≤ 1

section Runs

variable (services : PaymentServices)

theorem OneVoteEach.congr {first second : CMasternodePayments} (holds : OneVoteEach first)
    (sameVotes : second.mapMasternodePayeeVotes = first.mapMasternodePayeeVotes)
    (sameBlocks : second.mapMasternodeBlocks = first.mapMasternodeBlocks) :
    OneVoteEach second where
  counted := by
    intro nBlockHeight payee
    have before := holds.counted nBlockHeight payee
    unfold blockPayees winnersFor at before ⊢
    rw [sameVotes, sameBlocks]
    exact before
  filed := by
    intro nBlockHeight payees
    rw [sameBlocks]
    exact holds.filed nBlockHeight payees
  atMostOne := by
    intro outpoint nBlockHeight
    have before := holds.atMostOne outpoint nBlockHeight
    unfold votesOf at before ⊢
    rw [sameVotes]
    exact before

theorem step_oneVoteEach (payments : CMasternodePayments) (event : Event)
    (holds : OneVoteEach payments) (condition : Remembered services payments event) :
    OneVoteEach (step services payments event) := by
  obtain same | ⟨winner, offers, known, absent, free, rest⟩ := step_votes services payments event
  · exact holds.congr same.1 same.2
  · have counted : OneVoteEach (payments.count services winner) :=
      { counted := counted_count services payments winner holds.counted absent
        filed := filed_count services payments winner holds.filed
        atMostOne := by
          intro outpoint nBlockHeight
          rw [votesOf_count services payments winner absent]
          by_cases own : IsVoteOf outpoint nBlockHeight winner
          · have none : votesOf payments outpoint nBlockHeight = 0 := by
              by_contra some
              rw [← own.1, ← own.2] at some
              obtain ⟨view, vote, isMessage, voted⟩ := condition winner offers absent known some
              exact free view vote isMessage voted
            rw [none, if_pos own]
          · rw [if_neg own]
            exact holds.atMostOne outpoint nBlockHeight }
    exact counted.congr rest.1 rest.2

theorem empty_oneVoteEach : OneVoteEach .empty where
  counted := fun _ _ => rfl
  filed := by
    intro nBlockHeight payees found
    cases found
  atMostOne := fun _ _ => Nat.zero_le 1

/-- Where all steps meet the condition every vote counted for a height is that of one stored winner,
and no masternode has two. -/
theorem one_vote_for_each_height (events : List Event)
    (condition : Guarded (step services) (fun _ _ => ())
      (fun _ payments event => Remembered services payments event) () .empty events) :
    OneVoteEach (events.foldl (step services) .empty) := by
  exact invariant_of_guarded (step services) (fun _ _ => ())
    (fun _ payments event => Remembered services payments event) (fun _ => OneVoteEach)
    (fun _ payments event holds met => step_oneVoteEach services payments event holds met)
    () .empty events empty_oneVoteEach condition

end Runs

/-- The masternode votes for a height, for the next one, and for the first one
again with another payee. -/
def interleavedVotes : List Event :=
  [.mnw exampleNode (exampleWinner 210 [1] [1]), .mnw exampleNode (exampleWinner 211 [1] [1]),
    .mnw exampleNode (exampleWinner 210 [1, 2] [1])]

/-- Both votes of the masternode for the first height are counted. -/
theorem second_vote_is_counted :
    ¬ ∀ (services : PaymentServices) (events : List Event) (outpoint : COutPoint)
        (nBlockHeight : Int),
      votesOf (events.foldl (step services) .empty) outpoint nBlockHeight ≤ 1 := by
  intro atMostOne
  have one := atMostOne examplePayments interleavedVotes { hash := 21, n := 0 } 210
  have two : votesOf (interleavedVotes.foldl (step examplePayments) .empty)
      { hash := 21, n := 0 } 210 = 2 := by decide +kernel
  rw [two] at one
  exact absurd one (by decide)

/-- Without the second vote for the height there is one for each. -/
theorem interleaved_heights_have_one_vote :
    votesOf ((interleavedVotes.take 2).foldl (step examplePayments) .empty)
      { hash := 21, n := 0 } 210 ≤ 1 := by
  refine (one_vote_for_each_height examplePayments (interleavedVotes.take 2) ?_).atMostOne _ _
  refine ⟨?_, ?_, trivial⟩
  · intro winner _ _ _ conflict
    exact absurd rfl conflict
  · intro winner offers _ _ conflict
    have found : offered examplePayments (step examplePayments .empty
        (.mnw exampleNode (exampleWinner 210 [1] [1])))
        (.mnw exampleNode (exampleWinner 211 [1] [1])) = some (exampleWinner 211 [1] [1]) := by
      decide +kernel
    rw [found] at offers
    cases offers
    exact absurd (by decide +kernel) conflict

end ZenonCore.WinnerVotes
