import Mathlib.Algebra.Order.BigOperators.Group.List
import ZenonCore.ValueGate

/-!
# The value sums of a block

`ConnectBlock` adds up in 64 bits without a check. Here the sums are unbounded, so that a sum
that does not fit is seen.
-/

namespace ZenonCore.BlockValueSums

open Primitives ChainParams Coins Chain List Option
open Validation Zerocoin Chainstate CheckBlock
open ConnectBlock ValueGate
open Script (op1)

def FitsInt64 (n : Int) : Prop := -2 ^ 63 ≤ n ∧ n < 2 ^ 63

instance (n : Int) : Decidable (FitsInt64 n) := inferInstanceAs (Decidable (_ ∧ _))

section Sums

variable (services : Services) (node : NodeState) (nHeight : Int)

def creditOf (tx : CTransaction) (txin : CTxIn) : Int :=
  if txin.spendsZerocoin then
    match readSpend services node tx txin with
    | .error _ => 0
    | .ok spend => zerocoinDenominationToInt spend.coinSpend.denomination * coin
  else 0

/-- What a transaction brings in: its denominations, or the outputs it spends. -/
def valueIn (view : CCoinsView) (tx : CTransaction) : Int :=
  if tx.hasZerocoinSpendInputs then (tx.vin.map (creditOf services node tx)).sum
  else (getValueIn view tx).getD 0

/-- What the transactions bring in, each over the view the earlier ones leave. -/
def valuesIn : CCoinsView → List CTransaction → Int
  | _, [] => 0
  | view, tx :: rest =>
    valueIn services node view tx +
      match updateCoins tx view nHeight with
      | none => 0
      | some (next, _) => valuesIn next rest

/-- What the transactions make, but for the two blocks that are corrected. -/
def valuesOut : Nat → Int → List CTransaction → Int
  | _, total, [] => total
  | i, total, tx :: rest =>
    valuesOut (i + 1) (correctedValueOut nHeight i (total + tx.getValueOut.getD 0)) rest

end Sums

section Steps

variable (services : Services) (here : LocalState) (node : NodeState)

theorem denomination_nonneg (denomination : CoinDenomination) :
    0 ≤ zerocoinDenominationToInt denomination * coin := by
  cases denomination <;> decide

theorem creditOf_nonneg (tx : CTransaction) (txin : CTxIn) : 0 ≤ creditOf services node tx txin := by
  unfold creditOf
  split_ifs
  · cases readSpend services node tx txin with
    | error failure => exact Int.le_refl 0
    | ok spend => exact denomination_nonneg spend.coinSpend.denomination
  · exact Int.le_refl 0

variable (nHeight : Int) (tx : CTransaction)

theorem connectSpends_value (vin : List CTxIn)
    (acc last : Connecting)
    (done : vin.foldlM (connectSpend services node nHeight tx) acc = .ok last) :
    last.nValueIn = acc.nValueIn + (vin.map (creditOf services node tx)).sum ∧
      last.view = acc.view ∧ last.nFees = acc.nFees ∧ last.nValueOut = acc.nValueOut := by
  induction vin generalizing acc with
  | nil =>
    cases done
    exact ⟨(Int.add_zero _).symm, rfl, rfl, rfl⟩
  | cons txin rest ih =>
    rw [foldlM_cons, bind_eq_ok] at done
    obtain ⟨next, taken, later⟩ := done
    obtain ⟨total, view, fees, out⟩ := ih next later
    rw [map_cons, sum_cons]
    rcases connectSpend_ok services node nHeight tx acc next txin taken with
      ⟨ordinary, same⟩ | ⟨zerocoin, spend, accepted, credits⟩
    · have nothing : creditOf services node tx txin = 0 := by
        unfold creditOf
        rw [ordinary]
        rfl
      rw [same] at total view fees out
      rw [nothing, Int.zero_add]
      exact ⟨total, view, fees, out⟩
    · have credit : creditOf services node tx txin =
          zerocoinDenominationToInt spend.coinSpend.denomination * coin := by
        unfold creditOf
        rw [if_pos zerocoin, accepted.read]
      rw [credits] at total view fees out
      rw [credit, ← Int.add_assoc]
      exact ⟨total, view, fees, out⟩

variable (params : CChainParams) (inputs : CCoinsView) (nSpendHeight : Int)

theorem checkInputValue_ok (before after : CAmount) (txin : CTxIn) (txout : CTxOut)
    (checked : checkInputValue params inputs nSpendHeight before txin = .ok after)
    (found : inputs.getOutputFor txin.prevout = some txout) :
    after = before + txout.nValue ∧ (0 : Int) ≤ txout.nValue ∧ (after : Int) ≤ params.nMaxMoneyOut := by
  unfold checkInputValue at checked
  simp only [bind_eq_ok, ofOption_eq_ok, require_eq_ok, dos, exists_and_left, exists_const]
    at checked
  obtain ⟨coins, entry, _, other, there, inRange, result⟩ := checked
  unfold CCoinsView.getOutputFor at found
  have coinsEntry : inputs.coins txin.prevout.hash = some coins := entry
  rw [coinsEntry] at found
  dsimp only at found
  split_ifs at found
  rw [found] at there
  cases there
  unfold CChainParams.moneyRange at inRange
  simp only [Bool.and_eq_true, decide_eq_true_eq] at inRange
  have sum := (Except.ok.inj result).symm
  refine ⟨sum, inRange.1.1, ?_⟩
  rw [sum]
  exact inRange.2.2

theorem checkInputValues_sum (vin : List CTxIn) (before checked summed : CAmount)
    (checks : vin.foldlM (checkInputValue params inputs nSpendHeight) before = .ok checked)
    (sums : vin.foldlM (fun nResult txin =>
      (inputs.getOutputFor txin.prevout).map fun txout => nResult + txout.nValue) before =
        some summed) :
    checked = summed ∧ (before : Int) ≤ checked ∧
      ((before : Int) ≤ params.nMaxMoneyOut → (checked : Int) ≤ params.nMaxMoneyOut) := by
  induction vin generalizing before with
  | nil =>
    cases checks
    cases sums
    exact ⟨rfl, Int.le_refl _, id⟩
  | cons txin rest ih =>
    rw [foldlM_cons, bind_eq_ok] at checks
    obtain ⟨next, taken, later⟩ := checks
    rw [foldlM_cons, bind_eq_bind, bind_eq_some_iff] at sums
    obtain ⟨other, added, rest⟩ := sums
    obtain ⟨txout, found, same⟩ := map_eq_some_iff.mp added
    rcases checkInputValue_ok params inputs nSpendHeight before next txin txout taken found with
      ⟨step, nonneg, bound⟩
    rw [← same, ← step] at rest
    obtain ⟨equal, least, most⟩ := ih next later rest
    have first : (before : Int) ≤ next := by
      rw [step]
      exact Int.le_add_of_nonneg_right nonneg
    exact ⟨equal, Int.le_trans first least, fun _ => most bound⟩

theorem getValueOut_range (tx : CTransaction) (total : CAmount) (summed : tx.getValueOut = some total) :
    (0 : Int) ≤ total ∧ (total : Int) < 2 ^ 63 := by
  have loop : ∀ (vout : List CTxOut) (before after : CAmount), (0 : Int) ≤ before →
      (before : Int) < 2 ^ 63 → vout.foldlM (fun nValueOut txout =>
        if txout.nValue < 0 then none
        else if 2 ^ 63 ≤ nValueOut + txout.nValue then none
        else some (nValueOut + txout.nValue)) before = some after →
      (0 : Int) ≤ after ∧ (after : Int) < 2 ^ 63 := by
    intro vout
    induction vout with
    | nil =>
      intro before after least most done
      cases done
      exact ⟨least, most⟩
    | cons txout rest ih =>
      intro before after least most done
      rw [foldlM_cons, bind_eq_bind, bind_eq_some_iff] at done
      obtain ⟨next, taken, later⟩ := done
      split_ifs at taken with negative large
      apply ih next after _ _ later
      · rw [← some.inj taken]
        exact Int.add_nonneg least (Int.not_lt.mp negative)
      · rw [← some.inj taken]
        exact Int.not_le.mp large
  exact loop tx.vout 0 total (Int.le_refl 0) (by decide) summed

structure Added (nHeight : Int) (i : Nat) (tx : CTransaction) (acc next : Connecting) : Prop where
  coins : ∃ undo, updateCoins tx acc.view nHeight = some (next.view, undo)
  spent : next.nValueIn = acc.nValueIn + valueIn services node acc.view tx
  spentNonneg : 0 ≤ valueIn services node acc.view tx
  spentMost : tx.hasZerocoinSpendInputs = false → (0 : Int) ≤ services.params.nMaxMoneyOut →
    valueIn services node acc.view tx ≤ services.params.nMaxMoneyOut
  made : ∃ total, tx.getValueOut = some total ∧
    next.nValueOut = correctedValueOut nHeight i (acc.nValueOut + total)
  feesLeast : (acc.nFees : Int) ≤ next.nFees
  feesMost : (next.nFees : Int) ≤ acc.nFees + valueIn services node acc.view tx

theorem connectMints_keeps (acc last : Connecting)
    (done : connectMints services node nHeight tx acc = .ok last) :
    last.view = acc.view ∧ last.nValueIn = acc.nValueIn ∧ last.nFees = acc.nFees ∧
      last.nValueOut = acc.nValueOut := by
  obtain ⟨mints, _, after⟩ := connectMints_ok services node nHeight tx acc last done
  rw [after]
  exact ⟨rfl, rfl, rfl, rfl⟩

structure Taken (tx : CTransaction) (acc next : Connecting) : Prop where
  view : next.view = acc.view
  out : next.nValueOut = acc.nValueOut
  spent : next.nValueIn = acc.nValueIn + valueIn services node acc.view tx
  spentNonneg : 0 ≤ valueIn services node acc.view tx
  spentMost : tx.hasZerocoinSpendInputs = false → (0 : Int) ≤ services.params.nMaxMoneyOut →
    valueIn services node acc.view tx ≤ services.params.nMaxMoneyOut
  feesLeast : (acc.nFees : Int) ≤ next.nFees
  feesMost : (next.nFees : Int) ≤ acc.nFees + valueIn services node acc.view tx

theorem connectZerocoin_taken (acc last : Connecting)
    (zerocoin : tx.hasZerocoinSpendInputs = true)
    (done : connectZerocoin services node nHeight tx acc = .ok last) :
    Taken services node tx acc last := by
  unfold connectZerocoin at done
  simp only [bind_eq_ok] at done
  obtain ⟨_, _, spent, spending, minting⟩ := done
  rcases connectSpends_value services node nHeight tx tx.vin acc spent spending with
    ⟨total, view, fees, out⟩
  rcases connectMints_keeps services node nHeight tx spent last minting with
    ⟨sameView, sameIn, sameFees, sameOut⟩
  have value : valueIn services node acc.view tx = (tx.vin.map (creditOf services node tx)).sum := by
    unfold valueIn
    rw [if_pos zerocoin]
  have nonneg : 0 ≤ valueIn services node acc.view tx := by
    rw [value]
    apply sum_nonneg
    intro credit member
    obtain ⟨txin, _, same⟩ := mem_map.mp member
    rw [← same]
    exact creditOf_nonneg services node tx txin
  exact
    { view := sameView.trans view
      out := sameOut.trans out
      spent := by rw [sameIn, total, value]
      spentNonneg := nonneg
      spentMost := fun ordinary => absurd zerocoin (by rw [ordinary]; exact Bool.false_ne_true)
      feesLeast := by
        rw [sameFees, fees]
      feesMost := by
        rw [sameFees, fees]
        exact Int.le_add_of_nonneg_right nonneg }

theorem checkInputs_value (tx : CTransaction) (inputs : CCoinsView) (nSpendHeight : Int)
    (scripts threads : Bool) (flags : UInt32) (checks : List CScriptCheck) (nTxValueIn : CAmount)
    (coinBase : tx.isCoinBase = false) (zerocoin : tx.hasZerocoinSpendInputs = false)
    (value : getValueIn inputs tx = some nTxValueIn)
    (passed : checkInputs services tx inputs nSpendHeight scripts flags threads = .ok checks) :
    (0 : Int) ≤ nTxValueIn ∧
      ((0 : Int) ≤ services.params.nMaxMoneyOut →
        (nTxValueIn : Int) ≤ services.params.nMaxMoneyOut) ∧
      (tx.isCoinStake = false → ∀ nTxValueOut, tx.getValueOut = some nTxValueOut →
        (nTxValueOut : Int) ≤ nTxValueIn) := by
  unfold checkInputs at passed
  unfold getValueIn at value
  rw [coinBase, zerocoin] at passed value
  rw [if_neg Bool.false_ne_true, if_neg Bool.false_ne_true] at value
  rw [if_pos (by rfl)] at passed
  simp only [bind_eq_ok, onlyIf_eq_ok] at passed
  obtain ⟨_, _, checked, checks, _, fee, _⟩ := passed
  rcases checkInputValues_sum services.params inputs nSpendHeight tx.vin 0 checked nTxValueIn
    checks value with ⟨same, least, most⟩
  rw [← same]
  refine ⟨least, most, ?_⟩
  intro ordinary nTxValueOut made
  have feeChecked := fee (by rw [ordinary]; rfl)
  unfold checkFee at feeChecked
  simp only [bind_eq_ok, ofOption_eq_ok, require_eq_ok, dos, made, some.injEq,
    exists_eq_left', exists_and_left, exists_const, decide_eq_true_eq] at feeChecked
  exact feeChecked.1

theorem connectOrdinary_taken (nHeight : Int) (scripts : Bool) (flags : UInt32)
    (tx : CTransaction) (acc last : Connecting) (coinBase : tx.isCoinBase = false)
    (zerocoin : tx.hasZerocoinSpendInputs = false)
    (done : connectOrdinary services here node nHeight scripts flags tx acc = .ok last) :
    Taken services node tx acc last := by
  unfold connectOrdinary at done
  simp only [bind_eq_ok, ofOption_eq_ok] at done
  rcases done with ⟨_, _, _, _, minted, minting, _, _, nTxValueIn, brought, nTxValueOut, made,
    vChecks, checked, result⟩
  rcases connectMints_keeps services node nHeight tx acc minted minting with
    ⟨sameView, sameIn, sameFees, sameOut⟩
  rw [sameView] at brought checked
  rcases checkInputs_value services tx acc.view nHeight scripts _ flags vChecks nTxValueIn coinBase
    zerocoin brought checked with ⟨nonneg, most, fee⟩
  have least := (getValueOut_range tx nTxValueOut made).1
  have value : valueIn services node acc.view tx = nTxValueIn := by
    unfold valueIn
    rw [zerocoin, if_neg Bool.false_ne_true, brought, getD_some]
  cases result
  refine ⟨sameView, sameOut, ?_, ?_, ?_, ?_, ?_⟩
  · show minted.nValueIn + nTxValueIn = _
    rw [sameIn, value]
  · rw [value]
    exact nonneg
  · intro _
    rw [value]
    exact most
  · show (acc.nFees : Int) ≤ if tx.isCoinStake then minted.nFees
      else minted.nFees + (nTxValueIn - nTxValueOut)
    rw [sameFees]
    split_ifs with staking
    · exact Int.le_refl _
    · exact Int.le_add_of_nonneg_right
        (Int.sub_nonneg_of_le (fee (Bool.eq_false_iff.mpr staking) nTxValueOut made))
  · show (if tx.isCoinStake then minted.nFees else minted.nFees + (nTxValueIn - nTxValueOut)) ≤ _
    rw [sameFees, value]
    split_ifs with staking
    · exact Int.le_add_of_nonneg_right nonneg
    · exact Int.add_le_add_left (Int.sub_le_self _ least) _

theorem connectTransaction_added (block : CBlock) (nHeight : Int) (scripts : Bool) (flags : UInt32)
    (i : Nat) (tx : CTransaction) (acc next : Connecting)
    (taken : connectTransaction services here node block nHeight scripts flags i tx acc =
      .ok next) : Added services node nHeight i tx acc next := by
  unfold connectTransaction at taken
  simp only [bind_eq_ok, ofOption_eq_ok] at taken
  obtain ⟨_, _, _, _, checked, checking, total, made, ⟨view, undo⟩, updated, result⟩ := taken
  have round : Taken services node tx
      { acc with nSigOps := acc.nSigOps + services.getLegacySigOpCount tx } checked := by
    split_ifs at checking with zerocoin coinBase
    · exact connectZerocoin_taken services node nHeight tx _ checked zerocoin checking
    · exact connectOrdinary_taken services here node nHeight scripts flags tx _ checked
        (by simpa using coinBase) (by simpa using zerocoin) checking
    · have nothing : valueIn services node acc.view tx = 0 := by
        unfold valueIn getValueIn
        rw [if_neg zerocoin, if_pos (by simpa using coinBase)]
        rfl
      cases checking
      exact
        { view := rfl
          out := rfl
          spent := by
            rw [nothing]
            exact (Int.add_zero _).symm
          spentNonneg := nothing.ge
          spentMost := by
            intro _ positive
            rw [nothing]
            exact positive
          feesLeast := Int.le_refl _
          feesMost := by
            rw [nothing]
            exact (Int.add_zero _).ge }
  cases result
  exact
    { coins := ⟨undo, by rw [← round.view]; exact updated⟩
      spent := round.spent
      spentNonneg := round.spentNonneg
      spentMost := round.spentMost
      made := ⟨total, made, by rw [← round.out]⟩
      feesLeast := round.feesLeast
      feesMost := round.feesMost }

end Steps

section Runs

variable (services : Services) (here : LocalState) (node : NodeState) (block : CBlock)
variable (nHeight : Int) (scripts : Bool) (flags : UInt32)

theorem correctedValueOut_cases (i : Nat) (total : Int) :
    correctedValueOut nHeight i total = total ∨
      (total < 2 ^ 63 ∧ 0 ≤ correctedValueOut nHeight i total) := by
  unfold correctedValueOut
  split_ifs with first second
  · right
    rw [first.2.1]
    decide
  · right
    rw [second.2.1]
    decide
  · exact Or.inl rfl

theorem getValueOut_nonneg (tx : CTransaction) : (0 : Int) ≤ tx.getValueOut.getD 0 := by
  cases made : tx.getValueOut with
  | none => exact Int.le_refl 0
  | some total => exact (getValueOut_range tx total made).1

theorem valuesOut_bounds (i : Nat) (total : Int) (txs : List CTransaction) (least : 0 ≤ total) :
    0 ≤ valuesOut nHeight i total txs ∧ (valuesOut nHeight i total txs < 2 ^ 63 → total < 2 ^ 63) := by
  induction txs generalizing i total with
  | nil => exact ⟨least, id⟩
  | cons tx rest ih =>
    rw [valuesOut]
    have made := getValueOut_nonneg tx
    rcases correctedValueOut_cases nHeight i (total + tx.getValueOut.getD 0) with same | ⟨small, nonneg⟩
    · rw [same]
      rcases ih (i + 1) (total + tx.getValueOut.getD 0) (Int.add_nonneg least made) with
        ⟨nonneg, below⟩
      refine ⟨nonneg, ?_⟩
      intro most
      exact Int.lt_of_le_of_lt (Int.le_add_of_nonneg_right made) (below most)
    · refine ⟨(ih (i + 1) _ nonneg).1, ?_⟩
      intro _
      exact Int.lt_of_le_of_lt (Int.le_add_of_nonneg_right made) small

theorem connectTransactions_sums (i : Nat) (txs : List CTransaction) (acc last : Connecting)
    (done : connectTransactions services here node block nHeight scripts flags i txs acc =
      .ok last) :
    last.nValueIn = acc.nValueIn + valuesIn services node nHeight acc.view txs ∧
      last.nValueOut = valuesOut nHeight i acc.nValueOut txs ∧
      0 ≤ valuesIn services node nHeight acc.view txs ∧ (acc.nFees : Int) ≤ last.nFees ∧
      (last.nFees : Int) ≤ acc.nFees + valuesIn services node nHeight acc.view txs := by
  induction txs generalizing i acc with
  | nil =>
    cases done
    exact ⟨(Int.add_zero _).symm, rfl, Int.le_refl 0, Int.le_refl _, (Int.add_zero _).ge⟩
  | cons tx rest ih =>
    rw [connectTransactions, bind_eq_ok] at done
    obtain ⟨next, taken, later⟩ := done
    have added := connectTransaction_added services here node block nHeight scripts flags i tx acc
      next taken
    obtain ⟨sumIn, sumOut, nonneg, feesLeast, feesMost⟩ := ih (i + 1) next later
    obtain ⟨undo, updated⟩ := added.coins
    obtain ⟨total, made, out⟩ := added.made
    have split : valuesIn services node nHeight acc.view (tx :: rest) =
        valueIn services node acc.view tx + valuesIn services node nHeight next.view rest := by
      rw [valuesIn, updated]
    have least := added.spentNonneg
    rw [split]
    refine ⟨?_, ?_, Int.add_nonneg least nonneg, Int.le_trans added.feesLeast feesLeast, ?_⟩
    · rw [sumIn, added.spent, Int.add_assoc]
    · rw [sumOut, out, valuesOut, made, getD_some]
    · rw [← Int.add_assoc]
      exact Int.le_trans feesMost (Int.add_le_add_right added.feesMost _)

theorem connectTransactions_append (i : Nat) (first second : List CTransaction)
    (acc last : Connecting)
    (done : connectTransactions services here node block nHeight scripts flags i (first ++ second)
      acc = .ok last) :
    ∃ middle, connectTransactions services here node block nHeight scripts flags i first acc =
        .ok middle ∧
      connectTransactions services here node block nHeight scripts flags (i + first.length) second
        middle = .ok last := by
  induction first generalizing i acc with
  | nil => exact ⟨acc, rfl, done⟩
  | cons tx rest ih =>
    rw [cons_append, connectTransactions, bind_eq_ok] at done
    obtain ⟨next, taken, later⟩ := done
    obtain ⟨middle, before, behind⟩ := ih (i + 1) next later
    refine ⟨middle, ?_, ?_⟩
    · rw [connectTransactions, bind_eq_ok]
      exact ⟨next, taken, before⟩
    · rw [length_cons, ← Nat.succ_eq_add_one, Nat.add_succ, ← Nat.succ_add]
      exact behind

end Runs

section Block

variable (services : Services) (here : LocalState) (node : NodeState) (block : CBlock)
variable (pprev : CBlockIndex) (view : CCoinsView)

/-- The loop of `ConnectBlock`, up to some transaction of the block. -/
def connectFirst (count : Nat) : Validated Connecting :=
  connectTransactions services here node block (pprev.nHeight + 1)
    (fScriptChecks services (pprev.nHeight + 1)) (blockFlags services pprev) 0
    (block.vtx.take count) (Connecting.start view)

structure TotalsFit (acc : Connecting) : Prop where
  nValueIn : FitsInt64 acc.nValueIn
  nValueOut : FitsInt64 acc.nValueOut
  nFees : FitsInt64 acc.nFees

def nMoneySupply (nMoneySupplyPrev : CAmount) (acc : Connecting) : CAmount :=
  nMoneySupplyPrev + acc.nValueOut - acc.nValueIn

def nMint (nMoneySupplyPrev : CAmount) (acc : Connecting) : CAmount :=
  nMoneySupply nMoneySupplyPrev acc - nMoneySupplyPrev + acc.nFees

/-- The totals fit all through the first transactions of a block, with the supply and the mint
behind them. -/
structure SumsFit (nMoneySupplyPrev : CAmount) (count : Nat) : Prop where
  running : ∀ upTo acc, upTo ≤ count →
    connectFirst services here node block pprev view upTo = .ok acc → TotalsFit acc
  supply : ∀ acc, connectFirst services here node block pprev view count = .ok acc →
    FitsInt64 (nMoneySupply nMoneySupplyPrev acc) ∧ FitsInt64 (nMint nMoneySupplyPrev acc)

def blockIn (count : Nat) : Int :=
  valuesIn services node (pprev.nHeight + 1) view (block.vtx.take count)

def blockOut (count : Nat) : Int := valuesOut (pprev.nHeight + 1) 0 0 (block.vtx.take count)

theorem connectFirst_sums (count : Nat) (acc : Connecting)
    (passed : connectFirst services here node block pprev view count = .ok acc) :
    acc.nValueIn = blockIn services node block pprev view count ∧
      acc.nValueOut = blockOut block pprev count ∧ (0 : Int) ≤ acc.nValueIn ∧
      (0 : Int) ≤ acc.nValueOut ∧ (0 : Int) ≤ acc.nFees ∧ (acc.nFees : Int) ≤ acc.nValueIn := by
  rcases connectTransactions_sums services here node block _ _ _ 0 _ _ acc passed with
    ⟨sumIn, sumOut, nonneg, feesLeast, feesMost⟩
  have inSame : acc.nValueIn = blockIn services node block pprev view count :=
    sumIn.trans (Int.zero_add _)
  have outSame : acc.nValueOut = blockOut block pprev count := sumOut
  refine ⟨inSame, outSame, ?_, ?_, feesLeast, ?_⟩
  · rw [inSame]
    exact nonneg
  · rw [outSame]
    exact (valuesOut_bounds _ 0 0 _ (Int.le_refl 0)).1
  · rw [inSame]
    exact Int.le_trans feesMost (Int.zero_add _).le

theorem totals_of_more (count upTo : Nat) (fewer : upTo ≤ count) (acc before : Connecting)
    (passed : connectFirst services here node block pprev view count = .ok acc)
    (earlier : connectFirst services here node block pprev view upTo = .ok before)
    (inFits : (acc.nValueIn : Int) < 2 ^ 63) (outFits : (acc.nValueOut : Int) < 2 ^ 63) :
    TotalsFit before := by
  have split : block.vtx.take count =
      block.vtx.take upTo ++ (block.vtx.take count).drop upTo := by
    have shorter := take_append_drop upTo (block.vtx.take count)
    rw [take_take, Nat.min_eq_left fewer] at shorter
    exact shorter.symm
  have done := passed
  unfold connectFirst at done
  rw [split] at done
  rcases connectTransactions_append services here node block _ _ _ 0 _ _ _ acc done with
    ⟨middle, first, second⟩
  have same : middle = before := Except.ok.inj (first.symm.trans earlier)
  rw [same] at second
  rcases connectTransactions_sums services here node block _ _ _ _ _ before acc second with
    ⟨sumIn, sumOut, nonneg, _, _⟩
  rcases connectFirst_sums services here node block pprev view upTo before earlier with
    ⟨_, _, inLeast, outLeast, feesLeast, feesMost⟩
  have inMost : (before.nValueIn : Int) < 2 ^ 63 := by
    rw [sumIn] at inFits
    exact Int.lt_of_le_of_lt (Int.le_add_of_nonneg_right nonneg) inFits
  have outMost : (before.nValueOut : Int) < 2 ^ 63 := by
    rw [sumOut] at outFits
    exact (valuesOut_bounds _ _ _ _ outLeast).2 outFits
  have low : (-2 ^ 63 : Int) ≤ 0 := by decide
  exact
    { nValueIn := ⟨Int.le_trans low inLeast, inMost⟩
      nValueOut := ⟨Int.le_trans low outLeast, outMost⟩
      nFees := ⟨Int.le_trans low feesLeast, Int.lt_of_le_of_lt feesMost inMost⟩ }

end Block

section Bounded

variable (services : Services) (here : LocalState) (node : NodeState)

end Bounded

def unspentValue (entry : CCoins) : Int :=
  ((entry.vout.filter fun txout => !txout.isNull).map CTxOut.nValue).sum

/-- The unspent outputs of a view are worth at most some amount. -/
def TotalAtMost (view : CCoinsView) (bound : Int) : Prop :=
  ∃ txids : List Uint256, txids.Nodup ∧ (∀ txid, view.coins txid ≠ none → txid ∈ txids) ∧
    (txids.map fun txid => ((view.coins txid).map unspentValue).getD 0).sum ≤ bound

def wholeSupply : CTxOut := { nValue := 398360470 * coin, scriptPubKey := [op1] }

def supplyView : CCoinsView where
  hashBlock := 101
  coins := fun txid =>
    if txid = 2000 then
      some { fCoinBase := false, fCoinStake := false, vout := [wholeSupply], nHeight := 1,
             nVersion := 1 }
    else none

/-- The `k`-th transaction moves what the one before it made. -/
def moveTx (k : Nat) : CTransaction where
  hash := BitVec.ofNat 256 (2001 + k)
  nVersion := 1
  vin := [{ prevout := { hash := BitVec.ofNat 256 (2000 + k), n := 0 }, scriptSig := [],
            nSequence := 0xffffffff }]
  vout := [wholeSupply]
  nLockTime := 0

def movingBlock : CBlock :=
  exampleBlock 103 101 1600000060 (coinbaseTx 14 :: (List.range 232).map moveTx)

/-- The sizes of these transactions, and of a block of fewer than 253 of them. -/
def movingServices : Services :=
  { mainnetServices with
    getSerializeSize := fun tx => if tx.isCoinBase then 63 else 61
    getBlockSerializeSize := fun block => 83 + 61 * block.vtx.length }

def movingTip : CBlockIndex := [mintBlock, genesisBlock]

def firstOfMoving (count : Nat) : Validated Connecting :=
  connectFirst movingServices quietNode mintedNode movingBlock movingTip supplyView count

end ZenonCore.BlockValueSums
