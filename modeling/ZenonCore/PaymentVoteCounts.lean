import ZenonCore.PaymentsDisk
import ZenonCore.WinnerVotes

/-!
# Votes and winners agree

A winner that is added counts once, and a height is dropped with all its winners; so the votes
for a payee are its stored winners.
-/

namespace ZenonCore.PaymentVoteCounts

open NetMessage Primitives Script MasternodePayments List
open MasternodePayments.CMasternodePayments PaymentsDisk
open WinnerVotes Library.Maps

section Cleaning

variable (view : PaymentView)

/-- `nLimit`: five quarters of the masternodes, and a thousand at least. -/
def nLimit : Int := max (5 * view.mnodeman.vMasternodes.length / 4 : Nat) 1000

/-- The height is so far behind the tip that its winners are removed. -/
def isOld (nHeight nBlockHeight : Int) : Bool := decide (nLimit view < nHeight - nBlockHeight)

def cleanEntry (nHeight : Int) (payments : CMasternodePayments)
    (entry : Sigma fun _ : Uint256 => CMasternodePaymentWinner) : CMasternodePayments :=
  if isOld view nHeight entry.2.nBlockHeight then
    { payments with
      mapMasternodePayeeVotes := payments.mapMasternodePayeeVotes.erase entry.1
      mapMasternodeBlocks := payments.mapMasternodeBlocks.erase entry.2.nBlockHeight }
  else payments

def cleanPaymentList (payments : CMasternodePayments) : CMasternodePayments :=
  match view.tipHeight with
  | none => payments
  | some nHeight =>
    payments.mapMasternodePayeeVotes.entries.foldl (cleanEntry view nHeight) payments

def oldEntries (nHeight : Int) (payments : CMasternodePayments) :
    List (Sigma fun _ : Uint256 => CMasternodePaymentWinner) :=
  payments.mapMasternodePayeeVotes.entries.filter fun entry =>
    isOld view nHeight entry.2.nBlockHeight

end Cleaning

/-- The payments, and `mnpayments.dat` as far as it has been written. -/
structure PaymentStore where
  payments : CMasternodePayments
  file : Option Bytes

def PaymentStore.empty : PaymentStore := { payments := .empty, file := none }

inductive VoteEvent
  | addWinningMasternode (view : PaymentView) (winner : CMasternodePaymentWinner)
  | cleanPaymentList (view : PaymentView)
  /-- `DumpMasternodePayments`, when it comes to write. -/
  | dump
  /-- The node starts again, and gets as far as reading the votes or not. -/
  | restart (view : PaymentView) (isReadable : Bool)

def loadPayments (view : PaymentView) (isReadable : Bool) (file : Option Bytes) :
    CMasternodePayments :=
  match file with
  | none => .empty
  | some bytes => if isReadable then cleanPaymentList view (readPayments bytes) else .empty

def voteStep (services : PaymentServices) (store : PaymentStore) : VoteEvent → PaymentStore
  | .addWinningMasternode view winner =>
    { store with
      payments := (store.payments.addWinningMasternode services view winner).getD store.payments }
  | .cleanPaymentList view => { store with payments := cleanPaymentList view store.payments }
  | .dump => { store with file := some (writePayments store.payments) }
  | .restart view isReadable =>
    { store with payments := loadPayments view isReadable store.file }

def VoteEvent.IsTyped : VoteEvent → Prop
  | .addWinningMasternode _ winner => IsInt32 winner.nBlockHeight
  | _ => True

/-- Every payee of a height is there once, with the votes of the stored winners. -/
structure CountsAgree (payments : CMasternodePayments) : Prop where
  counted : ∀ nBlockHeight payee, (payments.blockPayees nBlockHeight).votesFor payee =
    winnersFor payments nBlockHeight payee
  once : ∀ nBlockHeight payees, payments.mapMasternodeBlocks.lookup nBlockHeight = some payees →
    (payees.vecPayments.map CMasternodePayee.scriptPubKey).Nodup

def FiledOnce (nBlockHeight : Int) (payees : CMasternodeBlockPayees) : Prop :=
  (payees.vecPayments.map CMasternodePayee.scriptPubKey).Nodup ∧
    payees.nBlockHeight = nBlockHeight ∧ IsInt32 nBlockHeight

structure Kept (payments : CMasternodePayments) : Prop where
  counted : Counted payments
  blocks : Everywhere FiledOnce payments.mapMasternodeBlocks
  winners : Everywhere (fun _ winner => IsInt32 winner.nBlockHeight)
    payments.mapMasternodePayeeVotes

section Operations

theorem kept_empty : Kept .empty where
  counted := fun _ _ => rfl
  blocks := everywhere_empty
  winners := everywhere_empty

theorem addToPayments_scripts (payeeIn : CScript) (nIncrement : Int)
    (vecPayments : List CMasternodePayee) :
    (addToPayments payeeIn nIncrement vecPayments).map CMasternodePayee.scriptPubKey =
      vecPayments.map CMasternodePayee.scriptPubKey ∨
    payeeIn ∉ vecPayments.map CMasternodePayee.scriptPubKey ∧
      (addToPayments payeeIn nIncrement vecPayments).map CMasternodePayee.scriptPubKey =
        vecPayments.map CMasternodePayee.scriptPubKey ++ [payeeIn] := by
  induction vecPayments with
  | nil => exact Or.inr ⟨not_mem_nil, rfl⟩
  | cons payee rest ih =>
    rw [addToPayments]
    by_cases here : payee.scriptPubKey = payeeIn
    · rw [if_pos here]
      exact Or.inl rfl
    · have notHere : payeeIn ≠ payee.scriptPubKey := fun same => here same.symm
      rw [if_neg here, map_cons, map_cons]
      obtain same | ⟨absent, appended⟩ := ih
      · rw [same]
        exact Or.inl rfl
      · rw [appended]
        exact Or.inr ⟨not_mem_cons_of_ne_of_not_mem notHere absent, rfl⟩

theorem addPayee_distinct (payees : CMasternodeBlockPayees) (payeeIn : CScript)
    (distinct : (payees.vecPayments.map CMasternodePayee.scriptPubKey).Nodup) :
    ((payees.addPayee payeeIn 1).vecPayments.map CMasternodePayee.scriptPubKey).Nodup := by
  unfold CMasternodeBlockPayees.addPayee
  dsimp only
  obtain same | ⟨absent, appended⟩ := addToPayments_scripts payeeIn 1 payees.vecPayments
  · rw [same]
    exact distinct
  · rw [appended]
    apply nodup_append.mpr
    refine ⟨distinct, nodup_singleton _, fun script listed other isNew same => ?_⟩
    rw [same, mem_singleton.mp isNew] at listed
    exact absent listed

theorem kept_count (services : PaymentServices) (payments : CMasternodePayments)
    (winner : CMasternodePaymentWinner) (height : IsInt32 winner.nBlockHeight)
    (absent : winner.getHash services ∉ payments.mapMasternodePayeeVotes) (kept : Kept payments) :
    Kept (payments.count services winner) := by
  have own : FiledOnce winner.nBlockHeight
      ((payments.blockPayees winner.nBlockHeight).addPayee winner.payee 1) := by
    have before : ((payments.blockPayees winner.nBlockHeight).vecPayments.map
          CMasternodePayee.scriptPubKey).Nodup ∧
        (payments.blockPayees winner.nBlockHeight).nBlockHeight = winner.nBlockHeight := by
      unfold blockPayees
      cases found : payments.mapMasternodeBlocks.lookup winner.nBlockHeight with
      | none => exact ⟨nodup_nil, rfl⟩
      | some payees =>
        have filed := kept.blocks winner.nBlockHeight payees found
        exact ⟨filed.1, filed.2.1⟩
    exact ⟨addPayee_distinct _ winner.payee before.1, before.2, height⟩
  exact
    { counted := counted_count services payments winner kept.counted absent
      blocks := kept.blocks.insert winner.nBlockHeight _ own
      winners := kept.winners.insert (winner.getHash services) winner height }

theorem foldl_cleanEntry (view : PaymentView) (nHeight : Int)
    (entries : List (Sigma fun _ : Uint256 => CMasternodePaymentWinner))
    (payments : CMasternodePayments) :
    entries.foldl (cleanEntry view nHeight) payments =
      { payments with
        mapMasternodePayeeVotes := eraseAll
          ((entries.filter fun entry => isOld view nHeight entry.2.nBlockHeight).map Sigma.fst)
          payments.mapMasternodePayeeVotes
        mapMasternodeBlocks := eraseAll
          ((entries.filter fun entry => isOld view nHeight entry.2.nBlockHeight).map
            fun entry => entry.2.nBlockHeight)
          payments.mapMasternodeBlocks } := by
  induction entries generalizing payments with
  | nil => rfl
  | cons entry rest ih =>
    rw [foldl_cons, ih]
    unfold cleanEntry
    cases old : isOld view nHeight entry.2.nBlockHeight with
    | false => simp [old]
    | true => simp [old, eraseAll]

variable (view : PaymentView) (nHeight : Int) (payments : CMasternodePayments)

theorem cleanPaymentList_tip
    (tip : view.tipHeight = some nHeight) :
    cleanPaymentList view payments =
      { payments with
        mapMasternodePayeeVotes := eraseAll ((oldEntries view nHeight payments).map Sigma.fst)
          payments.mapMasternodePayeeVotes
        mapMasternodeBlocks := eraseAll
          ((oldEntries view nHeight payments).map fun entry => entry.2.nBlockHeight)
          payments.mapMasternodeBlocks } := by
  unfold cleanPaymentList
  rw [tip]
  exact foldl_cleanEntry view nHeight _ payments

theorem entries_cleaned :
    (eraseAll ((oldEntries view nHeight payments).map Sigma.fst)
        payments.mapMasternodePayeeVotes).entries =
      payments.mapMasternodePayeeVotes.entries.filter fun entry =>
        !isOld view nHeight entry.2.nBlockHeight := by
  rw [entries_eraseAll]
  apply filter_congr
  intro entry member
  have listed : entry.1 ∈ (oldEntries view nHeight payments).map Sigma.fst ↔
      isOld view nHeight entry.2.nBlockHeight = true := by
    constructor
    · intro isListed
      obtain ⟨other, isOther, sameKey⟩ := mem_map.mp isListed
      obtain ⟨otherIn, old⟩ := mem_filter.mp isOther
      have same := payments.mapMasternodePayeeVotes.nodupKeys.eq_of_fst_eq otherIn member sameKey
      rw [← same]
      exact old
    · intro old
      exact mem_map.mpr ⟨entry, mem_filter.mpr ⟨member, old⟩, rfl⟩
  rw [decide_not, Bool.decide_congr listed, Bool.decide_eq_true]

/-- A height that is old has no winner left, and at the others there are as many
as before. -/
theorem winnersFor_cleaned
    (tip : view.tipHeight = some nHeight) (nBlockHeight : Int) (payee : CScript) :
    winnersFor (cleanPaymentList view payments) nBlockHeight payee =
      if isOld view nHeight nBlockHeight then 0 else winnersFor payments nBlockHeight payee := by
  unfold winnersFor
  rw [cleanPaymentList_tip view nHeight payments tip]
  dsimp only
  rw [entries_cleaned, countP_filter]
  cases old : isOld view nHeight nBlockHeight with
  | true =>
    rw [if_pos rfl]
    apply countP_eq_zero.mpr
    intro entry _ both
    simp only [Bool.and_eq_true, beq_iff_eq, Bool.not_eq_true'] at both
    rw [both.1.1, old] at both
    cases both.2
  | false =>
    rw [if_neg (by decide)]
    apply countP_congr
    intro entry _
    simp only [Bool.and_eq_true, beq_iff_eq, Bool.not_eq_true']
    constructor
    · intro both
      exact both.1
    · intro both
      exact ⟨both, by rw [both.1, old]⟩

theorem lookup_cleaned
    (tip : view.tipHeight = some nHeight) (nBlockHeight : Int) :
    (cleanPaymentList view payments).mapMasternodeBlocks.lookup nBlockHeight =
      if ∃ entry ∈ oldEntries view nHeight payments, entry.2.nBlockHeight = nBlockHeight then none
      else payments.mapMasternodeBlocks.lookup nBlockHeight := by
  rw [cleanPaymentList_tip view nHeight payments tip]
  dsimp only
  rw [lookup_eraseAll]
  exact if_congr mem_map rfl rfl

theorem kept_clean (view : PaymentView) (payments : CMasternodePayments) (kept : Kept payments) :
    Kept (cleanPaymentList view payments) := by
  cases tip : view.tipHeight with
  | none =>
    have same : cleanPaymentList view payments = payments := by
      unfold cleanPaymentList
      rw [tip]
    rw [same]
    exact kept
  | some nHeight =>
    have lookups := lookup_cleaned view nHeight payments tip
    constructor
    · intro nBlockHeight payee
      have before := kept.counted nBlockHeight payee
      rw [winnersFor_cleaned view nHeight payments tip]
      unfold blockPayees at before ⊢
      rw [lookups]
      by_cases erased : ∃ entry ∈ oldEntries view nHeight payments,
          entry.2.nBlockHeight = nBlockHeight
      · obtain ⟨entry, member, height⟩ := erased
        have old := (mem_filter.mp member).2
        rw [height] at old
        rw [if_pos ⟨entry, member, height⟩, if_pos old]
        rfl
      · rw [if_neg erased]
        cases old : isOld view nHeight nBlockHeight with
        | false =>
          rw [if_neg (by decide)]
          exact before
        | true =>
          -- there was no winner for the height
          have none : winnersFor payments nBlockHeight payee = 0 := by
            apply countP_eq_zero.mpr
            intro entry member both
            simp only [Bool.and_eq_true, beq_iff_eq] at both
            apply erased
            refine ⟨entry, mem_filter.mpr ⟨member, ?_⟩, both.1⟩
            rw [both.1]
            exact old
          rw [before, none, if_pos rfl]
    · intro nBlockHeight payees found
      rw [lookups] at found
      split at found
      · cases found
      · exact kept.blocks nBlockHeight payees found
    · intro hash winner found
      rw [cleanPaymentList_tip view nHeight payments tip] at found
      dsimp only at found
      rw [lookup_eraseAll] at found
      split at found
      · cases found
      · exact kept.winners hash winner found

theorem kept_same {payments other : CMasternodePayments} (same : SameVotes other payments)
    (kept : Kept payments) : Kept other := by
  have blocks : ∀ nBlockHeight, other.mapMasternodeBlocks.lookup nBlockHeight =
      payments.mapMasternodeBlocks.lookup nBlockHeight :=
    fun _ => AList.perm_lookup same.blocks
  have winners : ∀ hash, other.mapMasternodePayeeVotes.lookup hash =
      payments.mapMasternodePayeeVotes.lookup hash :=
    fun _ => AList.perm_lookup same.winners
  constructor
  · intro nBlockHeight payee
    have before := kept.counted nBlockHeight payee
    unfold blockPayees winnersFor at before ⊢
    rw [blocks, same.winners.countP_eq]
    exact before
  · intro nBlockHeight payees found
    rw [blocks] at found
    exact kept.blocks nBlockHeight payees found
  · intro hash winner found
    rw [winners] at found
    exact kept.winners hash winner found

theorem votesFor_of_mem (payees : CMasternodeBlockPayees)
    (distinct : (payees.vecPayments.map CMasternodePayee.scriptPubKey).Nodup)
    (payee : CMasternodePayee) (member : payee ∈ payees.vecPayments) :
    payees.votesFor payee.scriptPubKey = payee.nVotes := by
  unfold CMasternodeBlockPayees.votesFor
  cases found : payees.vecPayments.find? fun other => other.scriptPubKey == payee.scriptPubKey with
  | none =>
    have missed := find?_eq_none.mp found payee member
    exact absurd (beq_self_eq_true payee.scriptPubKey) missed
  | some other =>
    have script : other.scriptPubKey = payee.scriptPubKey := by
      simpa using find?_some found
    have same := inj_on_of_nodup_map distinct (mem_of_find?_eq_some found) member script
    dsimp only
    rw [same]

/-- The votes are as many as winners, so they are in the range of an `int` if
the winners fit into a file. -/
theorem kept_typed {payments : CMasternodePayments} (kept : Kept payments) : Typed payments := by
  constructor
  · intro entry member
    exact kept.winners entry.1 entry.2 (AList.mem_lookup_iff.mpr member)
  · intro few entry member
    have found : payments.mapMasternodeBlocks.lookup entry.1 = some entry.2 :=
      AList.mem_lookup_iff.mpr member
    obtain ⟨distinct, filed, height⟩ := kept.blocks entry.1 entry.2 found
    refine ⟨height, ?_, fun payee listed => ?_⟩
    · rw [filed]
      exact height
    · have counted := kept.counted entry.1 payee.scriptPubKey
      have own : payments.blockPayees entry.1 = entry.2 := by
        unfold blockPayees
        rw [found]
        rfl
      have atMost : winnersFor payments entry.1 payee.scriptPubKey ≤
          payments.mapMasternodePayeeVotes.entries.length :=
        countP_le_length
      rw [own, votesFor_of_mem entry.2 distinct payee listed] at counted
      have limit : maxSize = 33554432 := rfl
      rw [limit] at few
      show -(2 ^ (8 * 4) : Nat) ≤ 2 * payee.nVotes ∧ 2 * payee.nVotes < (2 ^ (8 * 4) : Nat)
      omega

end Operations

structure StoreKept (store : PaymentStore) : Prop where
  payments : Kept store.payments
  file : ∀ bytes, store.file = some bytes →
    ∃ saved, Kept saved ∧ bytes = writePayments saved

theorem kept_load (view : PaymentView) (isReadable : Bool) (file : Option Bytes)
    (saved : ∀ bytes, file = some bytes → ∃ saved, Kept saved ∧ bytes = writePayments saved) :
    Kept (loadPayments view isReadable file) := by
  unfold loadPayments
  cases file with
  | none => exact kept_empty
  | some bytes =>
    obtain ⟨payments, kept, written⟩ := saved bytes rfl
    cases isReadable with
    | false => exact kept_empty
    | true =>
      apply kept_clean
      rw [written]
      obtain same | nothing := readPayments_write payments (kept_typed kept)
      · exact kept_same same kept
      · rw [nothing]
        exact kept_empty

theorem voteStep_kept (services : PaymentServices) (store : PaymentStore) (event : VoteEvent)
    (typed : event.IsTyped) (kept : StoreKept store) :
    StoreKept (voteStep services store event) := by
  cases event with
  | addWinningMasternode view winner =>
    refine ⟨?_, kept.file⟩
    show Kept ((store.payments.addWinningMasternode services view winner).getD store.payments)
    cases added : store.payments.addWinningMasternode services view winner with
    | none => exact kept.payments
    | some after =>
      rcases addWinningMasternode_some services store.payments view winner after added with
        ⟨_, absent, counted⟩
      rw [Option.getD_some, counted]
      exact kept_count services store.payments winner typed absent kept.payments
  | cleanPaymentList view => exact ⟨kept_clean view store.payments kept.payments, kept.file⟩
  | dump =>
    refine ⟨kept.payments, fun bytes written => ?_⟩
    exact ⟨store.payments, kept.payments, (Option.some.inj written).symm⟩
  | restart view isReadable =>
    exact ⟨kept_load view isReadable store.file kept.file, kept.file⟩

theorem run_kept (services : PaymentServices) (events : List VoteEvent) (store : PaymentStore)
    (typed : ∀ event ∈ events, event.IsTyped) (kept : StoreKept store) :
    StoreKept (events.foldl (voteStep services) store) := by
  induction events generalizing store with
  | nil => exact kept
  | cons event rest ih =>
    obtain ⟨first, others⟩ := forall_mem_cons.mp typed
    exact ih _ others (voteStep_kept services store event first kept)

/-- After any sequence of winners, cleanings, dumps and restarts the votes of every payee are as
many as its stored winners. -/
theorem counts_always_agree (services : PaymentServices) (events : List VoteEvent)
    (typed : ∀ event ∈ events, event.IsTyped) :
    CountsAgree (events.foldl (voteStep services) .empty).payments := by
  have start : StoreKept .empty := by
    refine ⟨kept_empty, fun bytes written => ?_⟩
    cases written
  have kept := (run_kept services events .empty typed start).payments
  exact ⟨kept.counted, fun nBlockHeight payees found =>
    (kept.blocks nBlockHeight payees found).1⟩

/-- Two masternodes vote for a payee, the votes go to disk, and the node starts
again. -/
def votesAndRestart : List VoteEvent :=
  [.addWinningMasternode exampleNode (exampleWinner 210 [1] [1]),
    .addWinningMasternode exampleNode
      { exampleWinner 210 [1] [1] with
        vinMasternode := { prevout := { hash := 22, n := 0 }, scriptSig := [],
                           nSequence := 0xffffffff } },
    .dump, .restart exampleNode true]

/-- The counts agree after a restart. -/
theorem counts_agree_after_restart :
    CountsAgree (votesAndRestart.foldl (voteStep examplePayments) .empty).payments := by
  have height : IsInt32 210 := ⟨by decide, by decide⟩
  apply counts_always_agree
  intro event member
  simp only [votesAndRestart, mem_cons, not_mem_nil, or_false] at member
  obtain first | second | dumped | restarted := member
  · rw [first]
    exact height
  · rw [second]
    exact height
  · rw [dumped]
    trivial
  · rw [restarted]
    trivial

end ZenonCore.PaymentVoteCounts
