import Mathlib.Tactic.Ring
import ZenonCore.BlockPayee

/-!
# The payment that is taken from a stake

`FillBlockPayee` takes the payment from the outputs of a stake in equal shares; from a stake
of zerocoins nothing is taken.
-/

namespace ZenonCore.StakePayment

open Script Primitives ChainParams ConnectBlock List Option
open Budget MasternodePayments BlockPayee

/-- What is taken from the output at a position among those of the stake. -/
def shareOf (masternodePayment : CAmount) (outputs j : Nat) : CAmount :=
  if j + 1 = outputs then
    masternodePayment.tdiv outputs +
      (masternodePayment - masternodePayment.tdiv outputs * outputs)
  else masternodePayment.tdiv outputs

def withoutShare (masternodePayment : CAmount) (outputs j : Nat) (out : CTxOut) : CTxOut :=
  { out with nValue := out.nValue - shareOf masternodePayment outputs j }

def paymentAt (view : RewardView) (nHeight : Int) (fZZNNStake : Bool) : CAmount :=
  getMasternodePayment view.params nHeight (getBlockValue view.params (nHeight + 1)) 0 fZZNNStake

structure PaidFromStake (masternodePayment : CAmount) (payee : CScript) (mark first : CTxOut)
    (rest filled : List CTxOut) : Prop where
  appended : ∃ kept : List CTxOut,
    filled = kept ++ [{ nValue := masternodePayment, scriptPubKey := payee }] ∧
      kept.map CTxOut.scriptPubKey = (mark :: first :: rest).map CTxOut.scriptPubKey
  onTop : first.isZerocoinMint = true →
    filled = (mark :: first :: rest) ++ [{ nValue := masternodePayment, scriptPubKey := payee }]
  value : first.isZerocoinMint = false →
    (filled.map CTxOut.nValue).sum = ((mark :: first :: rest).map CTxOut.nValue).sum
  nonnegative : first.isZerocoinMint = false →
    (∀ out ∈ mark :: first :: rest, 0 ≤ out.nValue) →
      ((∀ out ∈ filled, 0 ≤ out.nValue) ↔
        ∀ j out, (first :: rest)[j]? = some out →
          shareOf masternodePayment (first :: rest).length j ≤ out.nValue)

theorem sum_const (count : Nat) (amount : Int) :
    ((range count).map fun _ => amount).sum = amount * count := by
  induction count with
  | zero => rw [range_zero, map_nil, sum_nil, Nat.cast_zero, Int.mul_zero]
  | succ count ih =>
    rw [range_succ, map_append, sum_append, ih, map_singleton,
      sum_singleton]
    push_cast
    ring

theorem shares_sum (masternodePayment : CAmount) (outputs : Nat) :
    ((range (outputs + 1)).map (shareOf masternodePayment (outputs + 1))).sum =
      masternodePayment := by
  have before : (range outputs).map (shareOf masternodePayment (outputs + 1)) =
      (range outputs).map fun _ => masternodePayment.tdiv (outputs + 1 : Nat) := by
    apply map_congr_left
    intro j inRange
    have notLast : ¬ j + 1 = outputs + 1 := by
      have bound := mem_range.mp inRange
      omega
    unfold shareOf
    rw [if_neg notLast]
  have last : shareOf masternodePayment (outputs + 1) outputs =
      masternodePayment.tdiv (outputs + 1 : Nat) +
        (masternodePayment - masternodePayment.tdiv (outputs + 1 : Nat) * (outputs + 1 : Nat)) := by
    unfold shareOf
    rw [if_pos rfl]
  rw [range_succ, map_append, sum_append, before, sum_const, map_singleton,
    sum_singleton, last]
  push_cast
  ring

theorem sum_taken (amount : Nat → CAmount) (vout : List CTxOut) :
    ((vout.mapIdx fun j out => { out with nValue := out.nValue - amount j }).map
        CTxOut.nValue).sum =
      (vout.map CTxOut.nValue).sum - ((range vout.length).map amount).sum := by
  induction vout generalizing amount with
  | nil => rfl
  | cons out rest ih =>
    rw [mapIdx_cons, map_cons, sum_cons, ih fun j => amount (j + 1),
      map_cons, sum_cons, length_cons, range_succ_eq_map, map_cons,
      List.sum_cons, List.map_map]
    have same : (range rest.length).map (amount ∘ Nat.succ) =
        (range rest.length).map fun j => amount (j + 1) := rfl
    rw [same]
    exact (by intros; ring : ∀ a b c d : Int, a - b + (c - d) = a + c - (b + d)) _ _ _ _

theorem mapIdx_stake (change share : Nat → CTxOut → CTxOut) (mark paid : CTxOut)
    (stake : List CTxOut) (atMark : change 0 mark = mark)
    (atPaid : change (stake.length + 1) paid = paid)
    (atStake : ∀ j out, j < stake.length → change (j + 1) out = share j out) :
    ((mark :: stake) ++ [paid]).mapIdx change = (mark :: stake.mapIdx share) ++ [paid] := by
  rw [mapIdx_append, mapIdx_cons, atMark]
  have inner : stake.mapIdx (fun j => change (j + 1)) = stake.mapIdx share := by
    apply mapIdx_eq_mapIdx_iff.mpr
    intro j bound
    exact atStake j _ bound
  have outer : [paid].mapIdx (fun j => change (j + (mark :: stake).length)) = [paid] := by
    rw [mapIdx_cons, mapIdx_nil, Nat.zero_add]
    exact congrArg (fun out => [out]) atPaid
  rw [inner, outer]

theorem takeFromStake_shares (masternodePayment : CAmount) (mark first paid : CTxOut)
    (rest : List CTxOut) :
    takeFromStake masternodePayment (mark :: first :: rest).length
        ((mark :: first :: rest) ++ [paid]) =
      (mark :: (first :: rest).mapIdx (withoutShare masternodePayment (first :: rest).length)) ++
        [paid] := by
  have length : (first :: rest).length = rest.length + 1 := rfl
  unfold takeFromStake
  split
  · rename_i single
    have none : rest.length = 0 := by
      rw [length_cons, length_cons] at single
      omega
    apply mapIdx_stake
    · rw [if_neg (by omega)]
    · rw [if_neg (by omega)]
    · intro j out bound
      rw [length, none] at bound ⊢
      have isFirst : j = 0 := by omega
      rw [isFirst, if_pos (by omega)]
      unfold withoutShare shareOf
      rw [if_pos rfl]
      congr 2
      simp
  · rename_i several
    rw [if_pos (by rw [length_cons, length_cons] at several ⊢; omega)]
    have outputs : (mark :: first :: rest).length - 1 = (first :: rest).length := rfl
    dsimp only
    rw [outputs]
    apply mapIdx_stake
    · rw [if_neg (by rw [length]; omega), if_neg (by omega)]
    · rw [if_neg (by omega), if_neg (by omega)]
    · intro j out bound
      unfold withoutShare shareOf
      by_cases last : j + 1 = (first :: rest).length
      · rw [if_pos last, if_pos last]
        congr 1
        exact Int.sub_sub _ _ _
      · rw [if_neg last, if_neg last, if_pos (by omega)]

section Filling

theorem paymentAt_nonneg (view : RewardView) (nHeight : Int) (fZZNNStake : Bool) :
    0 ≤ paymentAt view nHeight fZZNNStake := by
  unfold paymentAt
  rw [getMasternodePayment_cases]
  split
  · exact Int.natCast_nonneg _
  · exact Int.le_refl _

variable (masternodePayment : CAmount) (payee : CScript) (mark first : CTxOut) (rest : List CTxOut)

theorem paidFromStake_mint (mint : first.isZerocoinMint = true) :
    PaidFromStake masternodePayment payee mark first rest
      ((mark :: first :: rest) ++ [{ nValue := masternodePayment, scriptPubKey := payee }]) := by
  constructor
  · exact ⟨mark :: first :: rest, rfl, rfl⟩
  · exact fun _ => rfl
  · intro ordinary
    rw [mint] at ordinary
    cases ordinary
  · intro ordinary
    rw [mint] at ordinary
    cases ordinary

theorem paidFromStake_shares (ordinary : first.isZerocoinMint = false)
    (positive : 0 ≤ masternodePayment) :
    PaidFromStake masternodePayment payee mark first rest
      ((mark :: (first :: rest).mapIdx (withoutShare masternodePayment (first :: rest).length)) ++
        [{ nValue := masternodePayment, scriptPubKey := payee }]) := by
  constructor
  · refine ⟨_, rfl, ?_⟩
    rw [map_cons, map_cons]
    congr 1
    apply ext_getElem?
    intro j
    rw [List.getElem?_map, List.getElem?_mapIdx, List.getElem?_map, Option.map_map]
    rfl
  · intro mint
    rw [ordinary] at mint
    cases mint
  · intro _
    have length : (first :: rest).length = rest.length + 1 := rfl
    have taken : (((first :: rest).mapIdx
        (withoutShare masternodePayment (first :: rest).length)).map CTxOut.nValue).sum =
          ((first :: rest).map CTxOut.nValue).sum - masternodePayment := by
      have shares := sum_taken (shareOf masternodePayment (first :: rest).length) (first :: rest)
      rw [length, shares_sum, ← length] at shares
      exact shares
    rw [map_append, sum_append, map_cons, sum_cons, taken, map_singleton,
      sum_singleton, map_cons, sum_cons]
    exact (by intros; ring : ∀ a b c : Int, a + (b - c) + c = a + b) _ _ _
  · intro _ before
    constructor
    · intro after j out found
      have listed : withoutShare masternodePayment (first :: rest).length j out ∈
          (mark :: (first :: rest).mapIdx
            (withoutShare masternodePayment (first :: rest).length)) ++
              [{ nValue := masternodePayment, scriptPubKey := payee }] := by
        apply mem_append_left
        apply mem_cons_of_mem
        apply mem_iff_getElem?.mpr
        exact ⟨j, by rw [getElem?_mapIdx, found, map_some]⟩
      exact Int.sub_nonneg.mp (after _ listed)
    · intro enough out member
      obtain stake | paid := mem_append.mp member
      · obtain isMark | share := mem_cons.mp stake
        · rw [isMark]
          exact before mark mem_cons_self
        · obtain ⟨j, found⟩ := mem_iff_getElem?.mp share
          rw [getElem?_mapIdx] at found
          obtain ⟨own, isOwn, result⟩ := map_eq_some_iff.mp found
          rw [← result]
          exact Int.sub_nonneg.mpr (enough j own isOwn)
      · rw [mem_singleton.mp paid]
        exact positive

/-- Without a payee a stake stays; otherwise the payment is appended and taken from its outputs,
which become negative only where one is less than its share, or comes on top of a mint. -/
theorem stake_payment_exact (services : PaymentServices) (view : RewardView)
    (payments : CMasternodePayments) (txNew : CTransaction) (fZZNNStake : Bool)
    (mark first : CTxOut) (rest : List CTxOut) :
    ∃ filled, fillBlockPayee services view payments { txNew with vout := mark :: first :: rest }
        true fZZNNStake = some { txNew with vout := filled } ∧
      ((∀ nHeight, view.tipHeight = some nHeight →
          payeeOf services view payments (nHeight + 1) = none) →
        filled = mark :: first :: rest) ∧
      ∀ nHeight payee, view.tipHeight = some nHeight →
        payeeOf services view payments (nHeight + 1) = some payee →
        PaidFromStake (paymentAt view nHeight fZZNNStake) payee mark first rest filled := by
  unfold fillBlockPayee fillOutputs
  cases tip : view.tipHeight with
  | none =>
    refine ⟨mark :: first :: rest, rfl, fun _ => rfl, fun nHeight payee isTip => ?_⟩
    cases isTip
  | some nHeight =>
    dsimp only
    cases chosen : payeeOf services view payments (nHeight + 1) with
    | none =>
      have noPayee := chosen
      unfold payeeOf at noPayee
      rw [noPayee]
      refine ⟨mark :: first :: rest, rfl, fun _ => rfl, fun other payee isTip isPayee => ?_⟩
      rw [← some.inj isTip, chosen] at isPayee
      cases isPayee
    | some script =>
      have isScript := chosen
      unfold payeeOf at isScript
      rw [isScript]
      dsimp only
      rw [if_pos rfl]
      have second : (mark :: first :: rest ++
          [{ nValue := paymentAt view nHeight fZZNNStake, scriptPubKey := script }])[1]? =
            some first := rfl
      have unpaid : ¬ ∀ other, some nHeight = some other →
          payeeOf services view payments (other + 1) = none := by
        intro none
        have noPayee := none nHeight rfl
        rw [chosen] at noPayee
        cases noPayee
      have same : ∀ other payee, some nHeight = some other →
          payeeOf services view payments (other + 1) = some payee →
          other = nHeight ∧ payee = script := by
        intro other payee isTip isPayee
        have height := some.inj isTip
        rw [← height, chosen] at isPayee
        exact ⟨height.symm, (some.inj isPayee).symm⟩
      unfold paymentAt at second
      rw [second, map_some]
      cases kind : first.isZerocoinMint with
      | true =>
        rw [if_pos rfl]
        refine ⟨_, rfl, fun none => absurd none unpaid, fun other payee isTip isPayee => ?_⟩
        obtain ⟨height, isSame⟩ := same other payee isTip isPayee
        rw [height, isSame]
        exact paidFromStake_mint _ script mark first rest kind
      | false =>
        rw [if_neg (by decide), takeFromStake_shares]
        refine ⟨_, rfl, fun none => absurd none unpaid, fun other payee isTip isPayee => ?_⟩
        obtain ⟨height, isSame⟩ := same other payee isTip isPayee
        rw [height, isSame]
        exact paidFromStake_shares _ script mark first rest kind
          (paymentAt_nonneg view nHeight fZZNNStake)

end Filling

def payingView : RewardView :=
  { rewardView 11 with getCurrentMasterNode := some (exampleMasternode 21 [1]) }

def stakeOf (out : CTxOut) : CTransaction :=
  { stakeTx with vout := [{ nValue := 0, scriptPubKey := [] }, out] }

def mintStake : CTransaction := stakeOf { nValue := 10 * coin, scriptPubKey := [0xc1] }

def smallStake : CTransaction := stakeOf { nValue := 1, scriptPubKey := [3] }

/-- The payment of a zerocoin stake comes on top of it, and an output that is
less than its share becomes negative. -/
theorem stake_payment_is_not_conserved :
    ¬ (∀ (services : PaymentServices) (view : RewardView) (payments : CMasternodePayments)
        (txNew filled : CTransaction) (fZZNNStake : Bool),
      fillBlockPayee services view payments txNew true fZZNNStake = some filled →
        (filled.vout.map CTxOut.nValue).sum = (txNew.vout.map CTxOut.nValue).sum) ∧
    ¬ (∀ (services : PaymentServices) (view : RewardView) (payments : CMasternodePayments)
        (txNew filled : CTransaction) (fZZNNStake : Bool),
      (∀ out ∈ txNew.vout, 0 ≤ out.nValue) →
      fillBlockPayee services view payments txNew true fZZNNStake = some filled →
        ∀ out ∈ filled.vout, 0 ≤ out.nValue) := by
  constructor
  · intro conserved
    have sums : (fillBlockPayee examplePayments payingView .empty mintStake true false).map
        (fun filled => decide ((filled.vout.map CTxOut.nValue).sum =
          (mintStake.vout.map CTxOut.nValue).sum)) = some false := by
      decide +kernel
    obtain ⟨filled, done, differ⟩ := map_eq_some_iff.mp sums
    exact of_decide_eq_false differ (conserved _ _ _ _ _ _ done)
  · intro nonnegative
    have signs : (fillBlockPayee examplePayments payingView .empty smallStake true false).map
        (fun filled => decide (∀ out ∈ filled.vout, 0 ≤ out.nValue)) = some false := by
      decide +kernel
    obtain ⟨filled, done, negative⟩ := map_eq_some_iff.mp signs
    exact of_decide_eq_false negative
      (nonnegative _ _ _ _ _ _ (by decide +kernel) done)

end ZenonCore.StakePayment
