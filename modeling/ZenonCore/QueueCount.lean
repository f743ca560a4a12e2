import ZenonCore.PaymentQueue

/-!
# The count of the payment queue

`nCount` goes in by reference and is not reset where the function calls itself without the
filter.
-/

namespace ZenonCore.QueueCount

open Masternode PaymentQueue
open Budget (exampleMasternode)
open CollateralOwnership (syncedNode)

section Definitions

variable (view : QueueView) (nBlockHeight : Int) (fFilterSigTime : Bool)
  (vMasternodes : List CMasternode)

def enabledCount : Int := countEnabled view (vMasternodes.map (checkEntry view))

/-- A listed entry of the class of the pass that no test in its loop passes over, checked by
`CountEnabled` and again. -/
def isEligible (mn : CMasternode) : Bool :=
  ((checkEntry view mn).isPillar ==
      blockWinner nBlockHeight (countClass true vMasternodes) (countClass false vMasternodes)) &&
    isInQueue view nBlockHeight (enabledCount view vMasternodes) fFilterSigTime
      (checkEntry view (checkEntry view mn))

/-- The entries of the list that are eligible, each counted once. -/
def countEligible : Nat :=
  vMasternodes.countP (isEligible view nBlockHeight fFilterSigTime vMasternodes)

end Definitions

section Calls

variable (call : QueueCall) (nBlockHeight : Int)

/-- The entries that are eligible in the pass that chooses who is returned. -/
def countInQueue : Nat :=
  countEligible call.view nBlockHeight (call.fFilterSigTime && !startsAgain call nBlockHeight)
    (decidedOn call nBlockHeight)

/-- Too few entries pass with the filter by time, for the number the call brings. -/
def tooFew : Bool :=
  call.fFilterSigTime &&
    decide (call.nCount + countEligible call.view nBlockHeight true call.vMasternodes <
      (enabledCount call.view call.vMasternodes).tdiv 3)

/-- What is counted before the pass that chooses: the number brought, and the filtered if too few.
-/
def countedBefore : Int :=
  call.nCount +
    if tooFew call nBlockHeight then
      (countEligible call.view nBlockHeight true call.vMasternodes : Int)
    else 0

end Calls

section Counting

theorem pass_nCount (view : QueueView) (nBlockHeight : Int) (fFilterSigTime : Bool) (nCount : Int)
    (vMasternodes : List CMasternode) :
    (PaymentQueue.pass view nBlockHeight fFilterSigTime nCount vMasternodes).nCount =
      nCount + countEligible view nBlockHeight fFilterSigTime vMasternodes := by
  unfold PaymentQueue.pass countEligible isEligible enabledCount
  dsimp only
  congr 2
  rw [← List.countP_eq_length_filter, List.countP_map, List.countP_filter, List.countP_map]
  apply List.countP_congr
  intro mn _
  simp only [Function.comp_apply, Bool.and_eq_true]
  exact and_comm

variable (call : QueueCall) (nBlockHeight : Int)

theorem startsAgain_tooFew : startsAgain call nBlockHeight = tooFew call nBlockHeight := by
  unfold startsAgain tooFew firstPass
  cases filters : call.fFilterSigTime with
  | false => rfl
  | true =>
    rw [pass_nCount]
    rfl

theorem nCount_countedBefore :
    (getNextMasternodeInQueueForPayment call nBlockHeight).nCount =
      countedBefore call nBlockHeight + countInQueue call nBlockHeight := by
  have last : (getNextMasternodeInQueueForPayment call nBlockHeight).nCount =
      (lastPass call nBlockHeight).nCount := rfl
  rw [last]
  unfold lastPass countInQueue decidedOn countedBefore
  rw [startsAgain_tooFew]
  cases again : tooFew call nBlockHeight with
  | true =>
    have filters : call.fFilterSigTime = true := (Bool.and_eq_true _ _ ▸ again).1
    rw [if_pos rfl, if_pos rfl, if_pos rfl, Bool.not_true, Bool.and_false, pass_nCount, firstPass,
      pass_nCount, filters]
  | false =>
    rw [if_neg Bool.false_ne_true, if_neg Bool.false_ne_true, if_neg Bool.false_ne_true,
      Bool.not_false, Bool.and_true, firstPass, pass_nCount, Int.add_zero]

/-- The count is that of the queue if and only if nothing was counted before the
pass that chooses. -/
theorem queue_count_exact_iff :
    (getNextMasternodeInQueueForPayment call nBlockHeight).nCount =
        countInQueue call nBlockHeight ↔
      countedBefore call nBlockHeight = 0 := by
  rw [nCount_countedBefore]
  omega

end Counting

/-- Six nodes that were checked this second, of which all but the first have just
announced themselves. -/
def sixNodes : List CMasternode :=
  [1600000000 - 10000, 1600000500, 1600000500, 1600000500, 1600000500, 1600000500].zipIdx.map
    fun sigTime =>
      { exampleMasternode (BitVec.ofNat 256 (30 + sigTime.2)) [1] with
        sigTime := sigTime.1
        protocolVersion := 70928
        isPillar := false
        lastTimeChecked := syncedNode.here.getTime }

/-- One node passes with the filter and all six without it, which makes seven. -/
theorem first_node_counts_twice :
    ¬ ∀ (call : QueueCall) (nBlockHeight : Int), call.nCount = 0 →
      (getNextMasternodeInQueueForPayment call nBlockHeight).nCount =
        countInQueue call nBlockHeight := by
  intro exact
  have counted : (getNextMasternodeInQueueForPayment (queueCall sixNodes) 150).nCount = 7 := by
    decide +kernel
  have queued : countInQueue (queueCall sixNodes) 150 = 6 := by
    decide +kernel
  have same := exact (queueCall sixNodes) 150 rfl
  rw [counted, queued] at same
  exact absurd same (by decide)

end ZenonCore.QueueCount
