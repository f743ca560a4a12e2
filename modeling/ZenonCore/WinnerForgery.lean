import ZenonCore.Library.Interference
import ZenonCore.MasternodePayments

/-!
# Forged winners

`mnw` asks `CanVote`, which writes the height down, before it looks at the signature.
-/

namespace ZenonCore.WinnerForgery

open Primitives Script MasternodePayments List
open MasternodePayments.CMasternodePayments Library.Interference

structure SameVotes (left right : CMasternodePayments) : Prop where
  payeeVotes : left.mapMasternodePayeeVotes = right.mapMasternodePayeeVotes
  blocks : left.mapMasternodeBlocks = right.mapMasternodeBlocks
  lastVotes : left.mapMasternodesLastVote = right.mapMasternodesLastVote

/-- A forged winner that comes to `CanVote` finds its height remembered. -/
def Unmarked (services : PaymentServices) (payments : CMasternodePayments)
    (message : WinnerMessage) : Prop :=
  signed services message = false → comesToVote services payments message = true →
    remembered payments message = some message.2.nBlockHeight

instance (services : PaymentServices) (payments : CMasternodePayments) (message : WinnerMessage) :
    Decidable (Unmarked services payments message) :=
  inferInstanceAs (Decidable (_ → _ → _))

section Marks

variable (services : PaymentServices) (payments : CMasternodePayments) (message : WinnerMessage)

theorem remembered_recordVote :
    remembered (payments.recordVote message.2.vinMasternode.prevout message.2.nBlockHeight)
      message = some message.2.nBlockHeight :=
  AList.lookup_insert _

theorem receive_forged_iff (unsigned : signed services message = false) :
    Unmarked services payments message ↔
      SameVotes (receive services payments message) payments := by
  constructor
  · intro unmarked
    rw [receive_stopped services payments message (unmarked unsigned)]
    exact ⟨rfl, rfl, rfl⟩
  · intro same _ comes
    by_contra free
    have voting := receive_voting services payments message comes free
    rw [unsigned, if_neg (by decide)] at voting
    have now := remembered_recordVote payments message
    rw [← voting] at now
    unfold remembered at now free
    rw [same.lastVotes] at now
    exact free now

theorem receive_unmarked (unsigned : signed services message = false)
    (unmarked : Unmarked services payments message) :
    receive services payments message = payments :=
  receive_stopped services payments message (unmarked unsigned)

end Marks

/-- After every message the votes are those of the run without the forged winners exactly if every
forged one that comes to `CanVote` finds its height remembered. -/
theorem forged_winners_inert_iff (services : PaymentServices) (payments : CMasternodePayments)
    (messages : List WinnerMessage) :
    (∀ before, before <+: messages →
      SameVotes (before.foldl (receive services) payments)
        ((before.filter (signed services)).foldl (receive services) payments)) ↔
    Guarded (receive services) (fun _ _ => ())
      (fun _ state message => Unmarked services state message) () payments messages := by
  rw [guarded_iff_prefixes]
  constructor
  · intro same before message isPrefix unsigned
    have earlier := same before ((prefix_append before [message]).trans isPrefix)
    have later := same (before ++ [message]) isPrefix
    rw [filter_append, filter_cons_of_neg (by simp [unsigned]), filter_nil,
      append_nil, foldl_append, foldl_cons, foldl_nil] at later
    have still : SameVotes (receive services (before.foldl (receive services) payments) message)
        (before.foldl (receive services) payments) :=
      ⟨later.payeeVotes.trans earlier.payeeVotes.symm, later.blocks.trans earlier.blocks.symm,
        later.lastVotes.trans earlier.lastVotes.symm⟩
    exact (receive_forged_iff services _ message unsigned).mpr still unsigned
  · intro unmarked before isPrefix
    have inert := deletion_of_inert (receive services) (signed services) payments before
      ((guarded_iff_prefixes (receive services) (fun _ _ => ()) (fun _ state message =>
        signed services message = false → receive services state message = state) () payments
        before).mpr fun first message inside unsigned =>
          receive_unmarked services _ message unsigned
            (unmarked first message (inside.trans isPrefix)))
    rw [← inert]
    exact ⟨rfl, rfl, rfl⟩

/-- A winner that bears the signature of another key, and the genuine one. -/
def forgedThenGenuine : List WinnerMessage :=
  [(exampleNode, exampleWinner 210 [1] [7]), (exampleNode, exampleWinner 210 [1] [1])]

/-- The genuine winner behind the forged one is not counted. -/
theorem forged_winner_shadows_genuine :
    ¬ ∀ (services : PaymentServices) (payments : CMasternodePayments)
        (messages : List WinnerMessage),
      SameVotes (messages.foldl (receive services) payments)
        ((messages.filter (signed services)).foldl (receive services) payments) := by
  intro inert
  have same := (inert examplePayments .empty forgedThenGenuine).blocks
  have shadowed : (forgedThenGenuine.foldl (receive examplePayments)
      .empty).mapMasternodeBlocks.lookup 210 = none := by decide +kernel
  have counted : ((forgedThenGenuine.filter (signed examplePayments)).foldl
      (receive examplePayments) .empty).mapMasternodeBlocks.lookup 210 =
        some { nBlockHeight := 210, vecPayments := [{ scriptPubKey := [1], nVotes := 1 }] } := by
    decide +kernel
  rw [same, counted] at shadowed
  cases shadowed

/-- The other way round the forged one finds its height remembered. -/
example : Guarded (receive examplePayments) (fun _ _ => ())
    (fun _ state message => Unmarked examplePayments state message) () .empty
    forgedThenGenuine.reverse := by
  decide +kernel

end ZenonCore.WinnerForgery
