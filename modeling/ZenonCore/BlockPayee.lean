import ZenonCore.WinnerVotes

/-!
# The payee of a block

`FillBlockPayee` pays a masternode and `IsTransactionValid` asks for that payment, the first
with the height of the tip, the second with that of the block.
-/

namespace ZenonCore.BlockPayee

open Script Primitives ChainParams ConnectBlock List
open Budget Masternode MasternodePayments
open WinnerVotes
open MasternodePayments.CMasternodePayments

/-- A number cut to the 53 leading bits of a double, to the nearest one and
between two to the even one. -/
def roundToDouble (number : Nat) : Nat :=
  let extra := number.log2 - 52
  let kept := number / 2 ^ extra
  let rest := number % 2 ^ extra
  if 2 ^ extra < 2 * rest ∨ 2 ^ extra = 2 * rest ∧ kept % 2 = 1 then (kept + 1) * 2 ^ extra
  else kept * 2 ^ extra

/-- `blockValue * .70`, assigned to a whole number. The double next to 0.70 is 6305039478318694 /
2^53. -/
def timesSeventyPercent (blockValue : CAmount) : CAmount :=
  (roundToDouble (blockValue.toNat * 6305039478318694) / 2 ^ 53 : Nat)

/-- `GetMasternodePayment`. It uses neither the number of masternodes nor
whether the stake is of zerocoins. -/
def getMasternodePayment (params : CChainParams) (nHeight : Int) (blockValue : CAmount)
    (_nMasternodeCount : Int) (_isZZNNStake : Bool) : CAmount :=
  if params.networkID = .testnet ∧ nHeight < 200 then 0
  else if nHeight = 0 then blockValue / 100 * 0
  else if 10 < nHeight then timesSeventyPercent blockValue
  else 0

/-- What the two functions read of the node besides the votes. -/
structure RewardView where
  params : CChainParams
  /-- The height of the tip, if there is one. -/
  tipHeight : Option Int
  /-- `mnodeman.GetCurrentMasterNode(1)`. -/
  getCurrentMasterNode : Option CMasternode
  /-- `IsSporkActive(SPORK_8_MASTERNODE_PAYMENT_ENFORCEMENT)`. -/
  sporkPaymentEnforcement : Bool
  stableSize : Int
  size : Int
  nMasternodeCountDrift : Int

/-- The loop of `GetPayee` over the payees, with the votes it has found. -/
def mostVotes : Int → Option CScript → List CMasternodePayee → Option CScript
  | _, payee, [] => payee
  | nVotes, payee, p :: rest =>
    if nVotes < p.nVotes then mostVotes p.nVotes (some p.scriptPubKey) rest
    else mostVotes nVotes payee rest

def getPayee (payees : CMasternodeBlockPayees) : Option CScript :=
  mostVotes (-1) none payees.vecPayments

def getBlockPayee (payments : CMasternodePayments) (nBlockHeight : Int) : Option CScript :=
  (payments.mapMasternodeBlocks.lookup nBlockHeight).bind getPayee

/-- The payment is taken from the outputs of a stake, numbered from the empty one of a coinstake on.
-/
def takeFromStake (masternodePayment : CAmount) (i : Nat) (vout : List CTxOut) : List CTxOut :=
  if i = 2 then
    vout.mapIdx fun j out =>
      if j = i - 1 then { out with nValue := out.nValue - masternodePayment } else out
  else if 2 < i then
    let outputs := i - 1
    let mnPaymentSplit := masternodePayment.tdiv outputs
    let mnPaymentRemainder := masternodePayment - mnPaymentSplit * outputs
    vout.mapIdx fun j out =>
      if j = outputs then { out with nValue := out.nValue - mnPaymentSplit - mnPaymentRemainder }
      else if 1 ≤ j ∧ j < outputs then { out with nValue := out.nValue - mnPaymentSplit }
      else out
  else vout

/-- `FillBlockPayee` on the outputs of the transaction; it reads the second output of a stake, which
may be missing. -/
def fillOutputs (services : PaymentServices) (view : RewardView) (payments : CMasternodePayments)
    (fProofOfStake fZZNNStake : Bool) (vout : List CTxOut) : Option (List CTxOut) :=
  match view.tipHeight with
  | none => some vout
  | some nHeight =>
    let payee := (getBlockPayee payments (nHeight + 1)).or
      (view.getCurrentMasterNode.map fun winningNode =>
        getScriptForDestination (services.signer.getID winningNode.pubKeyCollateralAddress))
    let blockValue := getBlockValue view.params (nHeight + 1)
    let masternodePayment := getMasternodePayment view.params nHeight blockValue 0 fZZNNStake
    match payee with
    | none => some vout
    | some script =>
      let paid : CTxOut := { nValue := masternodePayment, scriptPubKey := script }
      if fProofOfStake then
        (vout ++ [paid])[1]?.map fun second =>
          if second.isZerocoinMint then vout ++ [paid]
          else takeFromStake masternodePayment vout.length (vout ++ [paid])
      else
        some [{ vout.headD CTxOut.null with nValue := blockValue - masternodePayment }, paid]

def fillBlockPayee (services : PaymentServices) (view : RewardView)
    (payments : CMasternodePayments) (txNew : CTransaction) (fProofOfStake fZZNNStake : Bool) :
    Option CTransaction :=
  (fillOutputs services view payments fProofOfStake fZZNNStake txNew.vout).map fun vout =>
    { txNew with vout := vout }

def maxSignatures (vecPayments : List CMasternodePayee) : Int :=
  vecPayments.foldl (fun nMaxSignatures payee =>
    if nMaxSignatures ≤ payee.nVotes ∧ mnPaymentsSignaturesRequired ≤ payee.nVotes then
      payee.nVotes
    else nMaxSignatures) 0

def CMasternodeBlockPayees.isTransactionValid (view : RewardView)
    (payees : CMasternodeBlockPayees) (txNew : CTransaction) : Bool :=
  let nReward := getBlockValue view.params payees.nBlockHeight
  let nMasternodeDriftCount :=
    (if view.sporkPaymentEnforcement then view.stableSize else view.size) +
      view.nMasternodeCountDrift
  let requiredMasternodePayment := getMasternodePayment view.params payees.nBlockHeight nReward
    nMasternodeDriftCount txNew.hasZerocoinSpendInputs
  if maxSignatures payees.vecPayments < mnPaymentsSignaturesRequired then true
  else payees.vecPayments.any fun payee =>
    decide (mnPaymentsSignaturesRequired ≤ payee.nVotes) && txNew.vout.any fun out =>
      payee.scriptPubKey == out.scriptPubKey && decide (requiredMasternodePayment ≤ out.nValue)

def isTransactionValid (view : RewardView) (payments : CMasternodePayments) (txNew : CTransaction)
    (nBlockHeight : Int) : Bool :=
  match payments.mapMasternodeBlocks.lookup nBlockHeight with
  | none => true
  | some payees => CMasternodeBlockPayees.isTransactionValid view payees txNew

section Votes

def HasQuorum (vecPayments : List CMasternodePayee) : Prop :=
  ∃ payee ∈ vecPayments, mnPaymentsSignaturesRequired ≤ payee.nVotes

variable (vecPayments : List CMasternodePayee)

theorem maxSignatures_quorum :
    mnPaymentsSignaturesRequired ≤ maxSignatures vecPayments ↔ HasQuorum vecPayments := by
  have along : ∀ (rest : List CMasternodePayee) (start : Int),
      mnPaymentsSignaturesRequired ≤ rest.foldl (fun nMaxSignatures payee =>
        if nMaxSignatures ≤ payee.nVotes ∧ mnPaymentsSignaturesRequired ≤ payee.nVotes then
          payee.nVotes
        else nMaxSignatures) start ↔
      mnPaymentsSignaturesRequired ≤ start ∨ HasQuorum rest := by
    intro rest
    induction rest with
    | nil =>
      intro start
      simp [HasQuorum]
    | cons payee rest ih =>
      intro start
      rw [foldl_cons, ih]
      unfold HasQuorum
      rw [exists_mem_cons_iff, ← or_assoc]
      apply or_congr_left
      split
      · rename_i more
        exact ⟨Or.inr, fun _ => more.2⟩
      · rename_i less
        constructor
        · exact Or.inl
        · intro either
          obtain enough | enough := either
          · exact enough
          · by_contra few
            exact less ⟨by omega, enough⟩
  have whole := along vecPayments 0
  have zero : ¬ mnPaymentsSignaturesRequired ≤ 0 := by decide
  unfold maxSignatures
  rw [whole]
  exact or_iff_right zero

theorem mostVotes_quorum (nVotes : Int)
    (payee : Option CScript) (quorum : HasQuorum vecPayments)
    (few : nVotes < mnPaymentsSignaturesRequired) :
    ∃ best ∈ vecPayments, mnPaymentsSignaturesRequired ≤ best.nVotes ∧
      mostVotes nVotes payee vecPayments = some best.scriptPubKey := by
  have leading : ∀ (rest : List CMasternodePayee) (nVotes : Int) (script : CScript),
      mnPaymentsSignaturesRequired ≤ nVotes →
      mostVotes nVotes (some script) rest = some script ∨
        ∃ best ∈ rest, mnPaymentsSignaturesRequired ≤ best.nVotes ∧
          mostVotes nVotes (some script) rest = some best.scriptPubKey := by
    intro rest
    induction rest with
    | nil => exact fun _ _ _ => Or.inl rfl
    | cons first rest ih =>
      intro nVotes script enough
      unfold mostVotes
      split
      · rename_i more
        have firstEnough : mnPaymentsSignaturesRequired ≤ first.nVotes := by omega
        obtain same | ⟨best, there, rest⟩ := ih first.nVotes first.scriptPubKey firstEnough
        · exact Or.inr ⟨first, mem_cons_self, firstEnough, same⟩
        · exact Or.inr ⟨best, mem_cons_of_mem _ there, rest⟩
      · obtain same | ⟨best, there, rest⟩ := ih nVotes script enough
        · exact Or.inl same
        · exact Or.inr ⟨best, mem_cons_of_mem _ there, rest⟩
  induction vecPayments generalizing nVotes payee with
  | nil =>
    obtain ⟨best, there, _⟩ := quorum
    cases there
  | cons first rest ih =>
    unfold mostVotes
    by_cases enough : mnPaymentsSignaturesRequired ≤ first.nVotes
    · rw [if_pos (by omega)]
      rcases leading rest first.nVotes first.scriptPubKey enough with
        same | ⟨best, there, found⟩
      · exact ⟨first, mem_cons_self, enough, same⟩
      · exact ⟨best, mem_cons_of_mem _ there, found⟩
    · have later : HasQuorum rest := by
        obtain ⟨best, there, votes⟩ := quorum
        obtain here | inRest := mem_cons.mp there
        · rw [here] at votes
          exact absurd votes enough
        · exact ⟨best, inRest, votes⟩
      split
      · rcases ih first.nVotes (some first.scriptPubKey) later (by omega) with
          ⟨best, there, found⟩
        exact ⟨best, mem_cons_of_mem _ there, found⟩
      · obtain ⟨best, there, found⟩ := ih nVotes payee later few
        exact ⟨best, mem_cons_of_mem _ there, found⟩

end Votes

section Amounts

variable (params : CChainParams)

/-- The height at which the share of the masternodes starts: 200 on the test
network and 11 on the others. -/
def startHeight : Int := if params.networkID = .testnet then 200 else 11

def requiredPayment (nHeight : Int) : CAmount :=
  getMasternodePayment params nHeight (getBlockValue params nHeight) 0 false

variable (nHeight : Int) (blockValue : CAmount)

theorem getMasternodePayment_cases (count : Int)
    (isZZNNStake : Bool) :
    getMasternodePayment params nHeight blockValue count isZZNNStake =
      if startHeight params ≤ nHeight then timesSeventyPercent blockValue else 0 := by
  unfold getMasternodePayment startHeight
  by_cases test : params.networkID = .testnet
  · simp only [test, true_and, if_true]
    by_cases early : nHeight < 200
    · rw [if_pos early, if_neg (by omega)]
    · rw [if_neg early, if_neg (by omega), if_pos (by omega), if_pos (by omega)]
  · simp only [test, false_and, if_false, Int.mul_zero]
    by_cases start : nHeight = 0
    · rw [if_pos start, if_neg (by omega)]
    · rw [if_neg start]
      by_cases late : 10 < nHeight
      · rw [if_pos late, if_pos (by omega)]
      · rw [if_neg late, if_neg (by omega)]

theorem payment_of_tip (isZZNNStake : Bool)
    (apart : nHeight + 1 ≠ startHeight params) :
    getMasternodePayment params nHeight blockValue 0 isZZNNStake =
      getMasternodePayment params (nHeight + 1) blockValue 0 false := by
  rw [getMasternodePayment_cases, getMasternodePayment_cases]
  apply if_congr
  · omega
  · rfl
  · rfl

/-- At that height the tip's share is nothing, and the block has to pay seven
of its ten coins. -/
theorem payment_at_start (isZZNNStake : Bool)
    (start : nHeight + 1 = startHeight params) :
    getMasternodePayment params nHeight blockValue 0 isZZNNStake = 0 ∧
      getBlockValue params (nHeight + 1) = 10 * coin ∧
      requiredPayment params (nHeight + 1) = 7 * coin := by
  have seventy : timesSeventyPercent (10 * coin) = 7 * coin := by decide +kernel
  unfold startHeight at start
  unfold requiredPayment getMasternodePayment getBlockValue
  by_cases test : params.networkID = .testnet
  · rw [if_pos test] at start
    have tip : nHeight = 199 := by omega
    subst tip
    simp [test, seventy]
  · rw [if_neg test] at start
    have tip : nHeight = 10 := by omega
    subst tip
    simp [test, seventy]

end Amounts

section Filling

variable (services : PaymentServices) (view : RewardView) (payments : CMasternodePayments)

def payeeOf (nBlockHeight : Int) : Option CScript :=
  (getBlockPayee payments nBlockHeight).or
    (view.getCurrentMasterNode.map fun winningNode =>
      getScriptForDestination (services.signer.getID winningNode.pubKeyCollateralAddress))

/-- The outputs of the reward apart from the payment, while that is nothing. -/
def keptOutputs (fProofOfStake : Bool) (nBlockHeight : Int) (vout : List CTxOut) : List CTxOut :=
  if fProofOfStake then vout
  else [{ vout.headD CTxOut.null with nValue := getBlockValue view.params nBlockHeight }]

theorem takeFromStake_zero (i : Nat) (vout : List CTxOut) : takeFromStake 0 i vout = vout := by
  have same : ∀ (change : Nat → CTxOut → CTxOut), (∀ j out, change j out = out) →
      vout.mapIdx change = vout := by
    intro change unchanged
    apply ext_getElem?
    intro j
    rw [getElem?_mapIdx]
    cases vout[j]? with
    | none => rfl
    | some out => rw [Option.map_some, unchanged]
  unfold takeFromStake
  split
  · apply same
    intro j out
    split
    · rw [Int.sub_zero]
    · rfl
  · split
    · apply same
      intro j out
      simp
    · rfl

theorem takeFromStake_paid (masternodePayment : CAmount) (vout : List CTxOut) (paid : CTxOut) :
    paid ∈ takeFromStake masternodePayment vout.length (vout ++ [paid]) := by
  have last : (vout ++ [paid])[vout.length]? = some paid := by simp
  have kept : ∀ (change : Nat → CTxOut → CTxOut), change vout.length paid = paid →
      paid ∈ (vout ++ [paid]).mapIdx change := by
    intro change unchanged
    apply mem_iff_getElem?.mpr
    refine ⟨vout.length, ?_⟩
    rw [getElem?_mapIdx, last, Option.map_some, unchanged]
  unfold takeFromStake
  split
  · apply kept
    rw [if_neg (by omega)]
  · split
    · apply kept
      rw [if_neg (by omega), if_neg (by omega)]
    · simp

variable (fProofOfStake fZZNNStake : Bool) (vout filled : List CTxOut) (nHeight : Int)
  (script : CScript)

theorem fillOutputs_paid (tip : view.tipHeight = some nHeight)
    (payee : payeeOf services view payments (nHeight + 1) = some script)
    (done : fillOutputs services view payments fProofOfStake fZZNNStake vout = some filled) :
    { nValue := getMasternodePayment view.params nHeight
        (getBlockValue view.params (nHeight + 1)) 0 fZZNNStake
      scriptPubKey := script } ∈ filled := by
  unfold payeeOf at payee
  unfold fillOutputs at done
  rw [tip] at done
  dsimp only at done
  rw [payee] at done
  dsimp only at done
  cases fProofOfStake with
  | false =>
    rw [if_neg (by decide)] at done
    cases done
    simp
  | true =>
    rw [if_pos rfl] at done
    obtain ⟨second, _, result⟩ := Option.map_eq_some_iff.mp done
    split at result
    · cases result
      simp
    · cases result
      exact takeFromStake_paid _ vout _

theorem fillOutputs_nothing (tip : view.tipHeight = some nHeight)
    (payee : payeeOf services view payments (nHeight + 1) = some script)
    (nothing : getMasternodePayment view.params nHeight
      (getBlockValue view.params (nHeight + 1)) 0 fZZNNStake = 0)
    (done : fillOutputs services view payments fProofOfStake fZZNNStake vout = some filled) :
    filled = keptOutputs view fProofOfStake (nHeight + 1) vout ++
      [{ nValue := 0, scriptPubKey := script }] := by
  unfold payeeOf at payee
  unfold fillOutputs at done
  rw [tip] at done
  dsimp only at done
  rw [payee, nothing] at done
  dsimp only at done
  unfold keptOutputs
  cases fProofOfStake with
  | false =>
    rw [if_neg (by decide)] at done ⊢
    cases done
    rw [Int.sub_zero]
    rfl
  | true =>
    rw [if_pos rfl] at done ⊢
    obtain ⟨second, _, result⟩ := Option.map_eq_some_iff.mp done
    rw [takeFromStake_zero, ite_self] at result
    exact result.symm

theorem fillOutputs_done (fProofOfStake fZZNNStake : Bool) (vout : List CTxOut)
    (stake : fProofOfStake = true → vout ≠ []) :
    ∃ filled, fillOutputs services view payments fProofOfStake fZZNNStake vout = some filled := by
  unfold fillOutputs
  cases view.tipHeight with
  | none => exact ⟨vout, rfl⟩
  | some nHeight =>
    dsimp only
    split
    · exact ⟨vout, rfl⟩
    · cases fProofOfStake with
      | false => exact ⟨_, rfl⟩
      | true =>
        cases vout with
        | nil => exact absurd rfl (stake rfl)
        | cons first rest =>
          rw [if_pos rfl]
          cases rest with
          | nil => exact ⟨_, rfl⟩
          | cons second rest => exact ⟨_, rfl⟩

end Filling

section Agreement

variable (services : PaymentServices) (view : RewardView) (payments : CMasternodePayments)

/-- A payee with six votes has an output with at least the share of the
height. -/
def PaysQuorum (vecPayments : List CMasternodePayee) (nHeight : Int) (vout : List CTxOut) :
    Prop :=
  ∃ payee ∈ vecPayments, mnPaymentsSignaturesRequired ≤ payee.nVotes ∧
    ∃ out ∈ vout, payee.scriptPubKey = out.scriptPubKey ∧
      requiredPayment view.params nHeight ≤ out.nValue

theorem isTransactionValid_iff (txNew : CTransaction) (nBlockHeight : Int)
    (filed : Filed payments) :
    isTransactionValid view payments txNew nBlockHeight = true ↔
      (HasQuorum (payments.blockPayees nBlockHeight).vecPayments →
        PaysQuorum view (payments.blockPayees nBlockHeight).vecPayments nBlockHeight
          txNew.vout) := by
  unfold isTransactionValid blockPayees
  cases found : payments.mapMasternodeBlocks.lookup nBlockHeight with
  | none => simp [HasQuorum]
  | some payees =>
    have height := filed nBlockHeight payees found
    unfold CMasternodeBlockPayees.isTransactionValid
    rw [Option.getD_some]
    dsimp only
    rw [height]
    by_cases few : maxSignatures payees.vecPayments < mnPaymentsSignaturesRequired
    · have noQuorum : ¬ HasQuorum payees.vecPayments := by
        intro quorum
        have enough := (maxSignatures_quorum payees.vecPayments).mpr quorum
        omega
      rw [if_pos few]
      exact ⟨fun _ quorum => absurd quorum noQuorum, fun _ => rfl⟩
    · have quorum := (maxSignatures_quorum payees.vecPayments).mp (by omega)
      rw [if_neg few]
      simp only [quorum, true_implies]
      unfold PaysQuorum requiredPayment getMasternodePayment
      simp

theorem payeeOf_quorum (nBlockHeight : Int)
    (quorum : HasQuorum (payments.blockPayees nBlockHeight).vecPayments) :
    ∃ best ∈ (payments.blockPayees nBlockHeight).vecPayments,
      mnPaymentsSignaturesRequired ≤ best.nVotes ∧
        payeeOf services view payments nBlockHeight = some best.scriptPubKey := by
  obtain ⟨best, there, enough, found⟩ := mostVotes_quorum _ (-1) none quorum (by decide)
  refine ⟨best, there, enough, ?_⟩
  unfold payeeOf getBlockPayee getPayee
  unfold blockPayees at quorum found
  cases present : payments.mapMasternodeBlocks.lookup nBlockHeight with
  | none =>
    rw [present] at quorum
    simp [HasQuorum] at quorum
  | some payees =>
    rw [present] at found
    rw [Option.bind_some, ← Option.getD_some (a := payees), found]
    rfl

variable (fProofOfStake fZZNNStake : Bool) (vout filled : List CTxOut) (nHeight : Int)

/-- Apart from the height at which the share starts, the payment is what the block has to pay, to a
payee with six votes. -/
theorem filled_pays_quorum (tip : view.tipHeight = some nHeight)
    (apart : nHeight + 1 ≠ startHeight view.params)
    (quorum : HasQuorum (payments.blockPayees (nHeight + 1)).vecPayments)
    (done : fillOutputs services view payments fProofOfStake fZZNNStake vout = some filled) :
    PaysQuorum view (payments.blockPayees (nHeight + 1)).vecPayments (nHeight + 1) filled := by
  rcases payeeOf_quorum services view payments (nHeight + 1) quorum with
    ⟨best, there, enough, payee⟩
  have paid := fillOutputs_paid services view payments fProofOfStake fZZNNStake vout filled
    nHeight best.scriptPubKey tip payee done
  refine ⟨best, there, enough, _, paid, rfl, ?_⟩
  rw [payment_of_tip view.params nHeight _ fZZNNStake apart]
  exact Int.le_refl _

/-- At that height the payment is nothing, and what is paid was in the reward
before. -/
theorem filled_at_start (tip : view.tipHeight = some nHeight)
    (start : nHeight + 1 = startHeight view.params)
    (quorum : HasQuorum (payments.blockPayees (nHeight + 1)).vecPayments)
    (done : fillOutputs services view payments fProofOfStake fZZNNStake vout = some filled) :
    PaysQuorum view (payments.blockPayees (nHeight + 1)).vecPayments (nHeight + 1) filled ↔
      PaysQuorum view (payments.blockPayees (nHeight + 1)).vecPayments (nHeight + 1)
        (keptOutputs view fProofOfStake (nHeight + 1) vout) := by
  obtain ⟨best, _, _, payee⟩ := payeeOf_quorum services view payments (nHeight + 1) quorum
  rcases payment_at_start view.params nHeight (getBlockValue view.params (nHeight + 1))
    fZZNNStake start with ⟨nothing, _, required⟩
  have outputs := fillOutputs_nothing services view payments fProofOfStake fZZNNStake vout filled
    nHeight best.scriptPubKey tip payee nothing done
  have positive : ¬ (7 * coin ≤ 0) := by decide
  unfold PaysQuorum
  rw [outputs, required]
  simp [positive]

end Agreement

def votingNode : PaymentView :=
  { exampleNode with
    tipHeight := some 10
    mnodeman :=
      { exampleNode.mnodeman with
        vMasternodes := (List.range 6).map fun number =>
          exampleMasternode (BitVec.ofNat 256 number) [1] } }

def sixVotes (nBlockHeight : Int) : List Event :=
  (List.range 6).map fun number =>
    .mnw votingNode
      { exampleWinner nBlockHeight [1, 2] [1] with
        vinMasternode :=
          { prevout := { hash := BitVec.ofNat 256 number, n := 0 }
            scriptSig := []
            nSequence := 0xffffffff } }

/-- What the reward of the block after a tip of the main network is filled
from. -/
def rewardView (nHeight : Int) : RewardView where
  params := mainParams
  tipHeight := some nHeight
  getCurrentMasterNode := none
  sporkPaymentEnforcement := true
  stableSize := 6
  size := 6
  nMasternodeCountDrift := 20

def stakeTx : CTransaction where
  hash := 31
  nVersion := 1
  vin := [{ prevout := { hash := 30, n := 0 }, scriptSig := [], nSequence := 0xffffffff }]
  vout := [CTxOut.null, { nValue := 15 * coin, scriptPubKey := [3] }]
  nLockTime := 0

end ZenonCore.BlockPayee
