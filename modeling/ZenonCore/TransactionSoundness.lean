import ZenonCore.ReadsInside

/-!
# What an accepted transaction is like

`CheckTransaction` while zerocoin is active keeps the sums within the money there is and the
outpoints distinct, those of private spends apart.
-/

namespace ZenonCore.TransactionSoundness

open ChainParams CheckBlock Chainstate Primitives List
open ReadsInside (checkTransaction_ok isCoinBase_vin)
open BlockReads (checkTransactionBasics)
open Validation Zerocoin

def IsMoney (params : CChainParams) (amount : CAmount) : Prop :=
  (0 : Int) ≤ amount ∧ (amount : Int) ≤ params.nMaxMoneyOut

def valueOfFirst (vout : List CTxOut) (count : Nat) : CAmount :=
  ((vout.take count).map CTxOut.nValue).sum

/-- The outpoints of the inputs that are not private zerocoin spends. -/
def ordinaryPrevouts (vin : List CTxIn) : List COutPoint :=
  (vin.filter fun txin => !txin.isZerocoinSpend).map CTxIn.prevout

/-- What `CheckTransaction` is to guarantee without any context. -/
structure Sound (params : CChainParams) (tx : CTransaction) : Prop where
  outputs : ∀ out ∈ tx.vout, IsMoney params out.nValue
  sums : ∀ count, IsMoney params (valueOfFirst tx.vout count)
  prevouts : (ordinaryPrevouts tx.vin).Nodup
  zerocoins : (∃ txin ∈ tx.vin, txin.spendsZerocoin = true) →
    ∀ txin ∈ tx.vin, txin.spendsZerocoin = true
  coinBaseScript : tx.isCoinBase = true →
    ∀ txin ∈ tx.vin, 2 ≤ txin.scriptSig.length ∧ txin.scriptSig.length ≤ 150
  nullPrevouts : tx.isCoinBase = false →
    ∀ txin ∈ tx.vin, txin.prevout.isNull = true → txin.spendsZerocoin = true

section Outputs

variable (services : Services) (tx : CTransaction) (fZerocoinActive : Bool)

theorem checkTxOut_money (nValueOut next : CAmount) (txout : CTxOut)
    (checked : checkTxOut services tx fZerocoinActive nValueOut txout = .ok next) :
    IsMoney services.params txout.nValue ∧ next = nValueOut + txout.nValue ∧
      IsMoney services.params next := by
  unfold checkTxOut at checked
  simp only [bind_eq_ok, require_eq_ok, onlyIf_eq_ok, dos, exists_and_left, exists_const]
    at checked
  obtain ⟨_, lower, upper, inRange, _, result⟩ := checked
  have sum := (Except.ok.inj result.2).symm
  unfold CChainParams.moneyRange at inRange
  simp only [Bool.and_eq_true, decide_eq_true_eq] at inRange
  rw [← sum] at inRange
  exact ⟨⟨of_decide_eq_true lower, of_decide_eq_true upper⟩, sum, inRange⟩

theorem checkTxOuts_money (vout : List CTxOut) (nValueOut last : CAmount)
    (start : IsMoney services.params nValueOut)
    (checked : vout.foldlM (checkTxOut services tx fZerocoinActive) nValueOut = .ok last) :
    (∀ out ∈ vout, IsMoney services.params out.nValue) ∧
      ∀ count, IsMoney services.params (nValueOut + valueOfFirst vout count) := by
  induction vout generalizing nValueOut with
  | nil =>
    constructor
    · intro out outside
      cases outside
    · intro count
      have nothing : nValueOut + valueOfFirst [] count = nValueOut := by
        unfold valueOfFirst
        rw [take_nil, map_nil, sum_nil, Int.add_zero]
      rw [nothing]
      exact start
  | cons txout rest ih =>
    rw [foldlM_cons, bind_eq_ok] at checked
    obtain ⟨next, taken, later⟩ := checked
    rcases checkTxOut_money services tx fZerocoinActive nValueOut next txout taken with
      ⟨first, sum, inRange⟩
    obtain ⟨outputs, sums⟩ := ih next inRange later
    constructor
    · intro out there
      obtain here | behind := mem_cons.mp there
      · rw [here]
        exact first
      · exact outputs out behind
    · intro count
      cases count with
      | zero =>
        have nothing : nValueOut + valueOfFirst (txout :: rest) 0 = nValueOut := by
          unfold valueOfFirst
          rw [take_zero, map_nil, sum_nil, Int.add_zero]
        rw [nothing]
        exact start
      | succ count =>
        have one : nValueOut + valueOfFirst (txout :: rest) (count + 1) =
            next + valueOfFirst rest count := by
          unfold valueOfFirst
          rw [take_succ_cons, map_cons, sum_cons, sum, Int.add_assoc]
        rw [one]
        exact sums count

end Outputs

theorem checkDuplicateInputs_nodup (vin : List CTxIn) (vInOutPoints : List COutPoint)
    (checked : checkDuplicateInputs vInOutPoints vin = .ok ()) :
    (ordinaryPrevouts vin).Nodup ∧ ∀ out ∈ ordinaryPrevouts vin, out ∉ vInOutPoints := by
  induction vin generalizing vInOutPoints with
  | nil => exact ⟨nodup_nil, fun _ outside => absurd outside not_mem_nil⟩
  | cons txin rest ih =>
    unfold checkDuplicateInputs at checked
    simp only [bind_eq_ok, dos, require_eq_ok, exists_and_left, exists_const] at checked
    obtain ⟨fresh, later⟩ := checked
    have unseen : txin.prevout ∉ vInOutPoints := by simpa using fresh
    obtain ⟨distinct, apart⟩ := ih _ later
    by_cases isPrivate : txin.isZerocoinSpend = true
    · rw [if_pos isPrivate] at apart
      have same : ordinaryPrevouts (txin :: rest) = ordinaryPrevouts rest := by
        unfold ordinaryPrevouts
        rw [filter_cons_of_neg (by simp [isPrivate])]
      rw [same]
      exact ⟨distinct, apart⟩
    · rw [if_neg isPrivate] at apart
      have added : ordinaryPrevouts (txin :: rest) = txin.prevout :: ordinaryPrevouts rest := by
        unfold ordinaryPrevouts
        rw [filter_cons_of_pos (by simp [isPrivate]), map_cons]
      rw [added]
      constructor
      · apply nodup_cons.mpr
        refine ⟨?_, distinct⟩
        intro again
        exact apart _ again mem_cons_self
      · intro out there
        obtain here | behind := mem_cons.mp there
        · rw [here]
          exact unseen
        · intro seen
          exact apart out behind (mem_cons_of_mem _ seen)

section Kinds

variable (services : Services) (tx : CTransaction)

theorem checkInputCounts_script (coinBase : tx.isCoinBase = true)
    (checked : checkInputCounts services tx true = .ok ()) :
    ∀ txin ∈ tx.vin, 2 ≤ txin.scriptSig.length ∧ txin.scriptSig.length ≤ 150 := by
  obtain ⟨only, inputs⟩ := isCoinBase_vin tx coinBase
  unfold checkInputCounts at checked
  rw [if_pos coinBase, inputs] at checked
  simp only [dos, require_eq_ok, headD_cons, Bool.and_eq_true] at checked
  rw [inputs]
  intro txin there
  rw [mem_singleton.mp there]
  exact ⟨of_decide_eq_true checked.1, of_decide_eq_true checked.2⟩

theorem checkInputCounts_prevouts (notCoinBase : tx.isCoinBase = false)
    (plain : tx.hasZerocoinSpendInputs = false)
    (checked : checkInputCounts services tx true = .ok ()) :
    ∀ txin ∈ tx.vin, txin.prevout.isNull = true → txin.spendsZerocoin = true := by
  unfold checkInputCounts at checked
  rw [notCoinBase, plain] at checked
  simp only [Bool.false_eq_true, if_false, Bool.and_false, dos, require_eq_ok] at checked
  intro txin there null
  have round := all_eq_true.mp checked txin there
  unfold CTxIn.spendsZerocoin
  cases spend : txin.isZerocoinSpend with
  | true => rfl
  | false => simp [null, spend] at round

end Kinds

/-- A transaction that `CheckTransaction` accepts while zerocoin is active is sound, in the range of
the attack or not. -/
theorem accepted_transaction_sound (services : Services) (here : LocalState) (node : NodeState)
    (tx : CTransaction) (fFakeSerialAttack : Bool)
    (accepted : checkTransaction services here node tx true fFakeSerialAttack = .ok ()) :
    Sound services.params tx := by
  rcases (checkTransaction_ok services here node tx true fFakeSerialAttack).mp accepted with
    ⟨basics, zerocoins, counts⟩
  unfold checkTransactionBasics at basics
  simp only [bind_eq_ok, dos, require_eq_ok, exists_and_left, exists_const] at basics
  obtain ⟨_, someOutput, _, last, outputs, duplicates⟩ := basics
  have zerocoinInputs := zerocoins rfl
  unfold checkZerocoinInputs at zerocoinInputs
  simp only [bind_eq_ok, dos, require_eq_ok, onlyIf_eq_ok, orDos_eq_ok, exists_and_left,
    exists_const] at zerocoinInputs
  have allSpend : tx.hasZerocoinSpendInputs = true →
      ∀ txin ∈ tx.vin, txin.spendsZerocoin = true := by
    intro spends
    exact all_eq_true.mp (zerocoinInputs.2 spends).1
  -- the range is not empty, since the first output is in it
  have nothing : IsMoney services.params 0 := by
    cases made : tx.vout with
    | nil => simp [made] at someOutput
    | cons txout rest =>
      rw [made, foldlM_cons, bind_eq_ok] at outputs
      obtain ⟨next, taken, _⟩ := outputs
      have first := (checkTxOut_money services tx true 0 next txout taken).1
      exact ⟨Int.le_refl 0, Int.le_trans first.1 first.2⟩
  obtain ⟨values, sums⟩ := checkTxOuts_money services tx true tx.vout 0 last nothing outputs
  refine
    { outputs := values
      sums := ?_
      prevouts := (checkDuplicateInputs_nodup tx.vin [] duplicates).1
      zerocoins := ?_
      coinBaseScript := fun coinBase => checkInputCounts_script services tx coinBase counts
      nullPrevouts := ?_ }
  · intro count
    have sum := sums count
    rw [Int.zero_add] at sum
    exact sum
  · intro someSpend
    exact allSpend (any_eq_true.mpr someSpend)
  · intro notCoinBase txin there null
    cases spends : tx.hasZerocoinSpendInputs with
    | true => exact allSpend spends txin there
    | false => exact checkInputCounts_prevouts services tx notCoinBase spends counts txin there null

theorem mint_transaction_sound : Sound ValueGate.mainnetServices.params ValueGate.mintTx :=
  accepted_transaction_sound ValueGate.mainnetServices ValueGate.quietNode ValueGate.mintedNode
    ValueGate.mintTx true (by decide +kernel)

end ZenonCore.TransactionSoundness
