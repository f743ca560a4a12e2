import Mathlib.Data.Nat.Periodic
import ZenonCore.BlockHashCache
import ZenonCore.BlockPayee
import ZenonCore.CollateralOwnership
import ZenonCore.Library.Rankings

/-!
# The payment queue

`GetNextMasternodeInQueueForPayment` chooses a class by the height and one of the class by its
last payment and score; with too few it starts again, on the list it has checked.
-/

namespace ZenonCore.PaymentQueue

open Primitives Chainstate Masternode BlockHashCache
open MasternodePayments BlockPayee
open Budget (exampleMasternode)
open CollateralOwnership (syncedNode)
open ValueGate (mainnetServices)
open Library.Rankings

/-- The seconds since the last payment of an entry. Less than none count as none:
how the sort orders these is left open. -/
def lastPaidKey (entry : Int × CTxIn) : Nat := entry.1.toNat

structure QueueView where
  services : Services
  env : Environment
  paymentServices : PaymentServices
  payments : CMasternodePayments
  /-- The height of the tip, if there is one and `cs_main` is free. -/
  tipHeight : Option Int
  /-- `GetMasternodeInputAge`, with what the entry has cached. -/
  getMasternodeInputAge : CMasternode → Int
  secondsSincePayment : CMasternode → Int
  hashOf : List Uint256 → Uint256
  getBlockHash : Int → Option Uint256
  /-- `sort` by the last payment from the oldest to the newest. -/
  sortLastPaid : List (Int × CTxIn) → List (Int × CTxIn)
  sortsLastPaid : SortsDown lastPaidKey sortLastPaid

def countClass (isPillar : Bool) (vMasternodes : List CMasternode) : Nat :=
  vMasternodes.countP fun mn => mn.isPillar == isPillar && mn.isEnabled

/-- `floor(ratio)`; both numbers are small enough for the division of doubles to be exact here. -/
def pillarShare (count_pillars count_mns : Nat) : Nat :=
  if count_mns = 0 ∧ count_pillars = 0 then 1
  else 4 * count_pillars * 100 / (count_mns + count_pillars * 4)

/-- The class of a height: the pillars' or that of the nodes. -/
def blockWinner (nBlockHeight : Int) (count_pillars count_mns : Nat) : Bool :=
  if count_pillars = 0 then false
  else if count_mns = 0 then true
  else decide (nBlockHeight.tmod 100 < pillarShare count_pillars count_mns)

structure QueueCall where
  view : QueueView
  fFilterSigTime : Bool
  nCount : Int
  vMasternodes : List CMasternode

structure Pass where
  blockWinner : Bool
  nMnCount : Int
  nCount : Int
  vMasternodes : List CMasternode
  vecMasternodeLastPaid : List (Int × CTxIn)

structure Selection where
  blockWinner : Bool
  best : Option CMasternode
  nCount : Int
  vMasternodes : List CMasternode

section Definitions

variable (view : QueueView) (nBlockHeight : Int)

def checkEntry (mn : CMasternode) : CMasternode :=
  mn.check view.services view.env (.list mn.vin) false

def countEnabled (checked : List CMasternode) : Int :=
  checked.countP fun mn =>
    decide (view.env.getMinMasternodePaymentsProto ≤ mn.protocolVersion) && mn.isEnabled

def isScheduled (mn : CMasternode) (nNotBlockHeight : Int) : Bool :=
  match view.tipHeight with
  | none => false
  | some nHeight =>
    let mnpayee :=
      getScriptForDestination (view.paymentServices.signer.getID mn.pubKeyCollateralAddress)
    (List.range 9).any fun ahead =>
      decide (nHeight + ahead ≠ nNotBlockHeight) &&
        getBlockPayee view.payments (nHeight + ahead) == some mnpayee

/-- The entry is not passed over by the loop: it is not too new for `nMnCount * 2.6 * 60` seconds,
`156` for each entry. -/
def isInQueue (nMnCount : Int) (fFilterSigTime : Bool) (mn : CMasternode) : Bool :=
  mn.isEnabled && decide (view.env.getMinMasternodePaymentsProto ≤ mn.protocolVersion) &&
    !isScheduled view mn nBlockHeight &&
      !(fFilterSigTime && decide (view.env.here.getAdjustedTime < mn.sigTime + nMnCount * 156)) &&
        decide (nMnCount ≤ view.getMasternodeInputAge mn)

def pass (fFilterSigTime : Bool) (nCount : Int) (vMasternodes : List CMasternode) : Pass :=
  let winner := blockWinner nBlockHeight (countClass true vMasternodes)
    (countClass false vMasternodes)
  let counted := vMasternodes.map (checkEntry view)
  let nMnCount := countEnabled view counted
  let queue := ((counted.filter fun mn => mn.isPillar == winner).map (checkEntry view)).filter
    (isInQueue view nBlockHeight nMnCount fFilterSigTime)
  { blockWinner := winner
    nMnCount := nMnCount
    nCount := nCount + queue.length
    vMasternodes := counted.map fun mn => if mn.isPillar == winner then checkEntry view mn else mn
    vecMasternodeLastPaid := queue.map fun mn => (view.secondsSincePayment mn, mn.vin) }

/-- The loop over the tenth of the network that was paid longest ago. -/
def bestScore (vMasternodes : List CMasternode) (nTenthNetwork : Int) :
    List (Int × CTxIn) → Int → Uint256 → Option CMasternode → Option CMasternode
  | [], _, _, best => best
  | entry :: rest, nCountTenth, nHigh, best =>
    match vMasternodes.find? fun mn => mn.vin.prevout == entry.2.prevout with
    | none => best
    | some pmn =>
      let n := (calculateScore view.hashOf pmn.vin (nBlockHeight - 100)).eval view.getBlockHash
      let higher := if nHigh < n then some pmn else best
      if nTenthNetwork ≤ nCountTenth + 1 then higher
      else bestScore vMasternodes nTenthNetwork rest (nCountTenth + 1)
        (if nHigh < n then n else nHigh) higher

def finish (done : Pass) : Selection :=
  let checked := done.vMasternodes.map (checkEntry view)
  { blockWinner := done.blockWinner
    best := bestScore view nBlockHeight checked ((countEnabled view checked).tdiv 10)
      (view.sortLastPaid done.vecMasternodeLastPaid) 0 0 none
    nCount := done.nCount
    vMasternodes := checked }

end Definitions

section Calls

variable (call : QueueCall) (nBlockHeight : Int)

def firstPass : Pass :=
  pass call.view nBlockHeight call.fFilterSigTime call.nCount call.vMasternodes

def startsAgain : Bool :=
  call.fFilterSigTime &&
    decide ((firstPass call nBlockHeight).nCount < (firstPass call nBlockHeight).nMnCount.tdiv 3)

def decidedOn : List CMasternode :=
  if startsAgain call nBlockHeight then (firstPass call nBlockHeight).vMasternodes
  else call.vMasternodes

def lastPass : Pass :=
  if startsAgain call nBlockHeight then
    pass call.view nBlockHeight false (firstPass call nBlockHeight).nCount
      (firstPass call nBlockHeight).vMasternodes
  else firstPass call nBlockHeight

def getNextMasternodeInQueueForPayment : Selection :=
  finish call.view nBlockHeight (lastPass call nBlockHeight)

/-- A class without an enabled member is chosen only if the other has none; who is paid is enabled.
-/
structure PaysClass : Prop where
  pillars : (getNextMasternodeInQueueForPayment call nBlockHeight).blockWinner = true →
    countClass true (decidedOn call nBlockHeight) = 0 →
      countClass false (decidedOn call nBlockHeight) = 0
  nodes : (getNextMasternodeInQueueForPayment call nBlockHeight).blockWinner = false →
    countClass false (decidedOn call nBlockHeight) = 0 →
      countClass true (decidedOn call nBlockHeight) = 0
  paid : ∀ pmn, (getNextMasternodeInQueueForPayment call nBlockHeight).best = some pmn →
    ∃ mn ∈ (lastPass call nBlockHeight).vMasternodes,
      mn.isPillar = (getNextMasternodeInQueueForPayment call nBlockHeight).blockWinner ∧
        mn.isEnabled = true ∧ mn.vin.prevout = pmn.vin.prevout

end Calls

section Classes

/-- Any `length` numbers in a row have as many remainders below a share as the
share says. -/
theorem window_count (start length share : Nat) (bound : share ≤ length) :
    ((Finset.Ico start (start + length)).filter fun number => number % length < share).card =
      share := by
  have periodic : Function.Periodic (fun number => number % length < share) length := by
    intro number
    dsimp only
    rw [Nat.add_mod_right]
  have below : (Finset.range length).filter (fun number => number % length < share) =
      Finset.range share := by
    ext number
    rw [Finset.mem_filter, Finset.mem_range, Finset.mem_range]
    constructor
    · intro both
      rw [Nat.mod_eq_of_lt both.1] at both
      exact both.2
    · intro small
      have inside := Nat.lt_of_lt_of_le small bound
      rw [Nat.mod_eq_of_lt inside]
      exact ⟨inside, small⟩
  rw [Nat.filter_Ico_card_eq_of_periodic start length _ periodic, Nat.count_eq_card_filter_range,
    below, Finset.card_range]

theorem pillarShare_le (count_pillars count_mns : Nat) : pillarShare count_pillars count_mns ≤ 100 := by
  unfold pillarShare
  split
  · omega
  · apply Nat.div_le_of_le_mul
    rw [Nat.add_mul]
    omega

/-- With an enabled masternode the share alone decides: without pillars it is
nothing, and without nodes it is the whole. -/
theorem blockWinner_eq (height count_pillars count_mns : Nat) (some : 0 < count_pillars + count_mns) :
    blockWinner height count_pillars count_mns =
      decide (height % 100 < pillarShare count_pillars count_mns) := by
  unfold blockWinner
  by_cases noPillars : count_pillars = 0
  · have none : pillarShare count_pillars count_mns = 0 := by
      unfold pillarShare
      rw [if_neg (by omega), noPillars, Nat.mul_zero, Nat.zero_mul, Nat.zero_div]
    rw [if_pos noPillars, none, decide_eq_false (Nat.not_lt_zero _)]
  · rw [if_neg noPillars]
    by_cases noNodes : count_mns = 0
    · have whole : pillarShare count_pillars count_mns = 100 := by
        unfold pillarShare
        rw [if_neg (by omega), noNodes, Nat.zero_add, Nat.mul_comm 4, Nat.mul_comm]
        exact Nat.mul_div_cancel 100 (by omega)
      rw [if_pos noNodes, whole, decide_eq_true (Nat.mod_lt height (by decide))]
    · rw [if_neg noNodes]
      congr 1
      have remainder : (height : Int).tmod 100 = ((height % 100 : Nat) : Int) := by
        rw [Int.tmod_eq_emod_of_nonneg (Int.natCast_nonneg height)]
        rfl
      rw [remainder, Int.ofNat_lt]

variable (nBlockHeight : Int) (count_pillars count_mns : Nat)

theorem blockWinner_pillars (chosen : blockWinner nBlockHeight count_pillars count_mns = true) : count_pillars ≠ 0 := by
  intro none
  unfold blockWinner at chosen
  rw [if_pos none] at chosen
  cases chosen

theorem blockWinner_nodes (chosen : blockWinner nBlockHeight count_pillars count_mns = false) (none : count_mns = 0) :
    count_pillars = 0 := by
  by_contra pillars
  unfold blockWinner at chosen
  rw [if_neg pillars, if_pos none] at chosen
  cases chosen

end Classes

section Passes

variable (call : QueueCall) (nBlockHeight : Int)

theorem lastPass_blockWinner :
    (lastPass call nBlockHeight).blockWinner =
      blockWinner nBlockHeight (countClass true (decidedOn call nBlockHeight))
        (countClass false (decidedOn call nBlockHeight)) := by
  unfold lastPass decidedOn
  split
  · rfl
  · rfl

theorem pass_queue (view : QueueView) (fFilterSigTime : Bool) (nCount : Int)
    (vMasternodes : List CMasternode) (entry : Int × CTxIn)
    (queued : entry ∈
      (pass view nBlockHeight fFilterSigTime nCount vMasternodes).vecMasternodeLastPaid) :
    ∃ mn ∈ (pass view nBlockHeight fFilterSigTime nCount vMasternodes).vMasternodes,
      mn.isPillar = (pass view nBlockHeight fFilterSigTime nCount vMasternodes).blockWinner ∧
        mn.isEnabled = true ∧ mn.vin = entry.2 := by
  obtain ⟨mn, inQueue, isEntry⟩ := List.mem_map.mp queued
  obtain ⟨checked, passes⟩ := List.mem_filter.mp inQueue
  obtain ⟨counted, inClass, isChecked⟩ := List.mem_map.mp checked
  obtain ⟨listed, ofClass⟩ := List.mem_filter.mp inClass
  refine ⟨mn, ?_, ?_, ?_, ?_⟩
  · apply List.mem_map.mpr
    refine ⟨counted, listed, ?_⟩
    rw [if_pos ofClass]
    exact isChecked
  · rw [← isChecked]
    exact (CMasternode.check_isPillar _ _ _ _ counted).trans (beq_iff_eq.mp ofClass)
  · unfold isInQueue at passes
    simp only [Bool.and_eq_true] at passes
    exact passes.1.1.1.1
  · rw [← isEntry]

theorem bestScore_entry (view : QueueView) (vMasternodes : List CMasternode) (nTenthNetwork : Int)
    (entries : List (Int × CTxIn)) (nCountTenth : Int) (nHigh : Uint256)
    (best : Option CMasternode) (pmn : CMasternode)
    (isBest : bestScore view nBlockHeight vMasternodes nTenthNetwork entries nCountTenth nHigh
      best = some pmn) :
    best = some pmn ∨ ∃ entry ∈ entries, pmn.vin.prevout = entry.2.prevout := by
  induction entries generalizing nCountTenth nHigh best with
  | nil => exact Or.inl isBest
  | cons entry rest ih =>
    rw [bestScore] at isBest
    cases found : vMasternodes.find? fun mn => mn.vin.prevout == entry.2.prevout with
    | none =>
      rw [found] at isBest
      exact Or.inl isBest
    | some other =>
      rw [found] at isBest
      dsimp only at isBest
      have isMatch := List.find?_some found
      have here : ∀ (higher : Prop) [Decidable higher],
          (if higher then some other else best) = some pmn →
            best = some pmn ∨ ∃ listed ∈ entry :: rest, pmn.vin.prevout = listed.2.prevout := by
        intro higher _ chosen
        split at chosen
        · right
          rw [← Option.some.inj chosen]
          exact ⟨entry, List.mem_cons_self, beq_iff_eq.mp isMatch⟩
        · exact Or.inl chosen
      split at isBest
      · exact here _ isBest
      · obtain before | ⟨later, member, same⟩ := ih _ _ _ isBest
        · exact here _ before
        · exact Or.inr ⟨later, List.mem_cons_of_mem entry member, same⟩

theorem paysClass : PaysClass call nBlockHeight := by
  have winner : (getNextMasternodeInQueueForPayment call nBlockHeight).blockWinner =
      (lastPass call nBlockHeight).blockWinner := rfl
  constructor
  · intro chosen none
    rw [winner, lastPass_blockWinner] at chosen
    exact absurd none (blockWinner_pillars _ _ _ chosen)
  · intro chosen none
    rw [winner, lastPass_blockWinner] at chosen
    exact blockWinner_nodes _ _ _ chosen none
  · intro pmn isBest
    obtain nothing | ⟨entry, sorted, same⟩ := bestScore_entry nBlockHeight _ _ _ _ _ _ _ pmn isBest
    · cases nothing
    · have queued := (call.view.sortsLastPaid.perm _).mem_iff.mp sorted
      have member : ∃ mn ∈ (lastPass call nBlockHeight).vMasternodes,
          mn.isPillar = (lastPass call nBlockHeight).blockWinner ∧ mn.isEnabled = true ∧
            mn.vin = entry.2 := by
        unfold lastPass at queued ⊢
        split at queued
        · rename_i again
          rw [if_pos again]
          exact pass_queue nBlockHeight _ _ _ _ entry queued
        · rename_i enough
          rw [if_neg enough]
          exact pass_queue nBlockHeight _ _ _ _ entry queued
      obtain ⟨mn, listed, ofClass, enabled, isEntry⟩ := member
      exact ⟨mn, listed, ofClass, enabled, by rw [isEntry, same]⟩

end Passes

/-- For calls at a hundred heights in a row with the same numbers of pillars and nodes, not both
zero, the pillars have exactly their share; a class without an enabled member is chosen only if
there is no other. -/
theorem pillar_heights_exact (calls : Nat → QueueCall) (start count_pillars count_mns : Nat)
    (some : 0 < count_pillars + count_mns)
    (constant : ∀ height, start ≤ height → height < start + 100 →
      countClass true (decidedOn (calls height) height) = count_pillars ∧
        countClass false (decidedOn (calls height) height) = count_mns) :
    ((Finset.Ico start (start + 100)).filter fun height : Nat =>
        (getNextMasternodeInQueueForPayment (calls height) height).blockWinner = true).card =
      pillarShare count_pillars count_mns ∧
    ∀ (call : QueueCall) (nBlockHeight : Int), PaysClass call nBlockHeight := by
  refine ⟨?_, paysClass⟩
  rw [← window_count start 100 (pillarShare count_pillars count_mns)
    (pillarShare_le count_pillars count_mns)]
  congr 1
  apply Finset.filter_congr
  intro height inWindow
  obtain ⟨after, before⟩ := Finset.mem_Ico.mp inWindow
  obtain ⟨pillars, nodes⟩ := constant height after before
  have winner : (getNextMasternodeInQueueForPayment (calls height) height).blockWinner =
      (lastPass (calls height) height).blockWinner := rfl
  rw [winner, lastPass_blockWinner, pillars, nodes, blockWinner_eq height count_pillars count_mns some,
    decide_eq_true_iff]

/-- A node without payments, and a call that finds some masternodes. -/
def queueCall (vMasternodes : List CMasternode) : QueueCall where
  view :=
    { services := mainnetServices
      env := syncedNode
      paymentServices := examplePayments
      payments := .empty
      tipHeight := none
      getMasternodeInputAge := fun _ => 100
      secondsSincePayment := fun _ => 3600
      hashOf := fun values => values.sum
      getBlockHash := fun _ => some 7
      sortLastPaid := sortDown lastPaidKey
      sortsLastPaid := sortDown_sorts lastPaidKey }
  fFilterSigTime := true
  nCount := 0
  vMasternodes := vMasternodes

/-- Without any enabled masternode the ratio is one, and no height is the
pillars'. -/
theorem share_without_masternodes :
    ¬ ∀ (calls : Nat → QueueCall) (start count_pillars count_mns : Nat),
      (∀ height, start ≤ height → height < start + 100 →
        countClass true (decidedOn (calls height) height) = count_pillars ∧
          countClass false (decidedOn (calls height) height) = count_mns) →
      ((Finset.Ico start (start + 100)).filter fun height : Nat =>
          (getNextMasternodeInQueueForPayment (calls height) height).blockWinner = true).card =
        pillarShare count_pillars count_mns := by
  intro exact
  have share := exact (fun _ => queueCall []) 0 0 0 fun height _ _ => ⟨rfl, rfl⟩
  have nobody : ((Finset.Ico 0 (0 + 100)).filter fun height : Nat =>
      (getNextMasternodeInQueueForPayment (queueCall []) height).blockWinner = true) = ∅ := by
    apply Finset.filter_eq_empty_iff.mpr
    intro height _
    exact Bool.false_ne_true
  rw [nobody] at share
  exact absurd share (by decide)

def pillarAndNode : List CMasternode :=
  [true, false].map fun isPillar =>
    { exampleMasternode 21 [1] with
      isPillar := isPillar
      lastTimeChecked := syncedNode.here.getTime }

/-- Of the hundred heights from 150 on eighty are the pillar's. -/
theorem eighty_of_hundred :
    ((Finset.Ico 150 (150 + 100)).filter fun height : Nat =>
        (getNextMasternodeInQueueForPayment (queueCall pillarAndNode) height).blockWinner =
          true).card = 80 ∧
      ∀ (call : QueueCall) (nBlockHeight : Int), PaysClass call nBlockHeight := by
  apply pillar_heights_exact (fun _ => queueCall pillarAndNode) 150 1 1 (by decide)
  intro height _ _
  exact ⟨rfl, rfl⟩

end ZenonCore.PaymentQueue
