import ZenonCore.BlockFees
import ZenonCore.CoinStake
import ZenonCore.RewardSchedule
import ZenonCore.ValueVerdict

/-!
# What an assembled block mints

The reward functions take the subsidy of the block's own height, `ConnectBlock` that of the
height before. The two agree apart from the tips at which the subsidy rises.
-/

namespace ZenonCore.AssembledMint

open AssembledBlocks BlockFees BlockOrder BlockPayee List
open BlockTemplate BlockValueSums Chain ChainParams
open Chainstate CheckBlock CoinStake Coins
open ConnectBlock Primitives RewardSchedule
open TrackedConnect Validation ValueVerdict
open MasternodePayments (CMasternodePayments PaymentServices examplePayments)
open JustCheck (headerState mainnetSupply)
open MoneySupply (IndexedState SupplyServices)
open Script (CScript op1 opCheckSig)
open ValueGate (genesisBlock mintedNode quietNode)

theorem getValueOut_sum (tx : CTransaction) (total : CAmount)
    (summed : tx.getValueOut = some total) : (total : Int) = (tx.vout.map CTxOut.nValue).sum := by
  have loop : ∀ (vout : List CTxOut) (before after : CAmount),
      vout.foldlM (fun nValueOut txout =>
        if txout.nValue < 0 then none
        else if 2 ^ 63 ≤ nValueOut + txout.nValue then none
        else some (nValueOut + txout.nValue)) before = some after →
      (after : Int) = before + (vout.map CTxOut.nValue).sum := by
    intro vout
    induction vout with
    | nil =>
      intro before after done
      cases done
      exact (Int.add_zero _).symm
    | cons txout rest ih =>
      intro before after done
      rw [foldlM_cons, Option.bind_eq_bind, Option.bind_eq_some_iff] at done
      obtain ⟨next, taken, later⟩ := done
      split_ifs at taken
      rw [ih next after later, ← Option.some.inj taken, map_cons, sum_cons]
      exact Int.add_assoc _ _ _
  rw [loop tx.vout 0 total summed]
  exact Int.zero_add _

/-- What is taken off the value of the first two transactions of a block, by the
totals of all. -/
def corrections (nHeight : Int) : List Int → Int
  | first :: second :: _ => first + second - correctedValueOut nHeight 1 (first + second)
  | _ => 0

theorem correctedValueOut_apart (nHeight : Int) (i : Nat) (total : CAmount) (apart : i ≠ 1) :
    correctedValueOut nHeight i total = total := by
  unfold correctedValueOut
  rw [if_neg (fun both => apart both.2.2), if_neg (fun both => apart both.2.2)]

theorem valuesOut_late (nHeight : Int) (i : Nat) (total : Int) (txs : List CTransaction)
    (late : 2 ≤ i) : valuesOut nHeight i total txs = total + (txs.map valueOf).sum := by
  induction txs generalizing i total with
  | nil => exact (Int.add_zero _).symm
  | cons tx rest ih =>
    rw [valuesOut, correctedValueOut_apart nHeight i _ (by omega),
      ih (i + 1) _ (Nat.le_succ_of_le late), map_cons, sum_cons]
    exact Int.add_assoc _ _ _

theorem valuesOut_block (nHeight : Int) (txs : List CTransaction) :
    valuesOut nHeight 0 0 txs =
      (txs.map valueOf).sum - corrections nHeight (txs.map valueOf) := by
  cases txs with
  | nil => rfl
  | cons first rest =>
    rw [valuesOut, correctedValueOut_apart nHeight 0 _ (by decide)]
    cases rest with
    | nil =>
      rw [valuesOut, map_cons, map_nil, sum_cons, sum_nil]
      show 0 + valueOf first = valueOf first + 0 - 0
      omega
    | cons second others =>
      rw [valuesOut, valuesOut_late nHeight _ _ others (by decide)]
      simp only [map_cons, sum_cons, corrections]
      unfold valueOf
      rw [Int.zero_add, Nat.zero_add]
      omega

section Minted

variable (services : Services) (here : LocalState) (node : NodeState) (block : CBlock)
  (nHeight : Int) (scripts : Bool) (flags : UInt32)

theorem rewards_fees (view : CCoinsView) (own : List CTransaction)
    (rewards : ∀ tx ∈ own, tx.isCoinBase = true ∨ tx.isCoinStake = true) :
    feesOf nHeight view own = 0 := by
  induction own generalizing view with
  | nil => rfl
  | cons tx rest ih =>
    rw [feesOf, feeOf_reward view tx (rewards tx mem_cons_self), Int.zero_add]
    cases updateCoins tx view nHeight with
    | none => rfl
    | some next => exact ih next.1 fun other member => rewards other (mem_cons_of_mem _ member)

theorem connected_valueOf (i : Nat) (txs : List CTransaction) (acc last : Connecting)
    (done : connectTransactions services here node block nHeight scripts flags i txs acc =
      .ok last) (tx : CTransaction) (member : tx ∈ txs) :
    valueOf tx = (tx.vout.map CTxOut.nValue).sum := by
  induction txs generalizing i acc with
  | nil => cases member
  | cons first rest ih =>
    rw [connectTransactions, bind_eq_ok] at done
    obtain ⟨next, taken, later⟩ := done
    obtain same | behind := mem_cons.mp member
    · have added := connectTransaction_added services here node block nHeight scripts flags i
        first acc next taken
      obtain ⟨total, made, _⟩ := added.made
      rw [same]
      unfold valueOf
      rw [made, Option.getD_some]
      exact getValueOut_sum first total made
    · exact ih (i + 1) next later behind

theorem minted_eq (view : CCoinsView) (own txs : List CTransaction) (acc : Connecting)
    (rewards : ∀ tx ∈ own, tx.isCoinBase = true ∨ tx.isCoinStake = true)
    (plain : ∀ tx ∈ txs, IsPlain tx)
    (done : connectTransactions services here node block nHeight scripts flags 0 (own ++ txs)
      (Connecting.start view) = .ok acc) :
    (mintedValue acc : Int) =
      (own.map valueOf).sum - valuesIn services node nHeight view own -
        (txs.map (zerocoinFee services node)).sum -
        corrections nHeight ((own ++ txs).map valueOf) := by
  have whole := connectTransactions_sums services here node block nHeight scripts flags 0 _ _ acc
    done
  rcases connectTransactions_append services here node block nHeight scripts flags 0 own txs _ acc
    done with ⟨middle, first, second⟩
  have before := connectTransactions_sums services here node block nHeight scripts flags 0 own _
    middle first
  have fees := connectTransactions_fees services here node block nHeight scripts flags 0 own _
    middle first
  have balance := connectTransactions_balance services here node block nHeight scripts flags _ txs
    middle acc plain second
  have startIn : (Connecting.start view).nValueIn = 0 := rfl
  have startOut : (Connecting.start view).nValueOut = 0 := rfl
  have startFees : (Connecting.start view).nFees = 0 := rfl
  have startView : (Connecting.start view).view = view := rfl
  have out := whole.2.1
  rw [startOut, valuesOut_block] at out
  have spent := before.1
  rw [startIn, startView, Int.zero_add] at spent
  rw [startFees, startView, rewards_fees nHeight view own rewards] at fees
  rw [spent, fees] at balance
  unfold mintedValue
  rw [out, map_append, sum_append]
  have left : (acc.nValueIn : Int) = acc.nFees + (valuesIn services node nHeight view own - (0 + 0) +
      (txs.map valueOf).sum + (txs.map (zerocoinFee services node)).sum) := by
    rw [← balance]
    ring
  rw [left]
  ring

end Minted

section Own

variable (services : Services) (node : NodeState) (nHeight : Int)

variable (tx : CTransaction) (view : CCoinsView)

theorem coinBase_update (coinBase : tx.isCoinBase = true) :
    updateCoins tx view nHeight = some (addOutputs view tx nHeight, []) := by
  unfold updateCoins
  rw [coinBase]
  rfl

theorem coinBase_valueIn
    (coinBase : tx.isCoinBase = true) : valueIn services node view tx = 0 := by
  unfold valueIn getValueIn
  rw [(coinBase_no_zerocoin tx coinBase).1, coinBase]
  rfl

/-- A coinbase leaves a view like the one before it, where that has no output
of its hash. -/
theorem coinBase_alike
    (absent : ∀ n, view.hasOutput { hash := tx.hash, n := n } = false) :
    Alike tx.hash view (addOutputs view tx nHeight) := by
  refine ⟨?_, Or.inl absent⟩
  intro hash apart
  unfold addOutputs CCoinsView.update
  dsimp only
  rw [if_neg apart]

theorem hasOutput_of_getOutputFor (view : CCoinsView) (prevout : COutPoint) (txout : CTxOut)
    (found : view.getOutputFor prevout = some txout) : view.hasOutput prevout = true := by
  unfold CCoinsView.getOutputFor at found
  unfold CCoinsView.hasOutput
  cases entry : view.coins prevout.hash with
  | none =>
    rw [entry] at found
    cases found
  | some coins =>
    rw [entry] at found
    dsimp only at found
    split_ifs at found with available
    exact available

theorem coinStake_valueIn (supply : SupplyServices) (view : CCoinsView)
    (stakeInput : StakeInput view) (height : Int) (coinbase tx : CTransaction)
    (stakes : Stakes supply height stakeInput tx) (notCoinBase : tx.isCoinBase = false)
    (absent : ∀ n, view.hasOutput { hash := coinbase.hash, n := n } = false) :
    valueIn services node (addOutputs view coinbase nHeight) tx = stakeInput.txOut.nValue := by
  obtain ⟨txin, single, prevout, ordinary⟩ := stakes.input
  have noZerocoin : tx.hasZerocoinSpendInputs = false := by
    unfold CTransaction.hasZerocoinSpendInputs
    rw [single, any_cons, ordinary]
    rfl
  have apart : stakeInput.prevout.hash ≠ coinbase.hash := by
    intro same
    have output := hasOutput_of_getOutputFor view _ _ stakeInput.unspent
    have none := absent stakeInput.prevout.n
    rw [← same] at none
    rw [none] at output
    cases output
  have kept : (addOutputs view coinbase nHeight).getOutputFor txin.prevout =
      some stakeInput.txOut := by
    rw [prevout, ← stakeInput.unspent]
    unfold CCoinsView.getOutputFor
    rw [(coinBase_alike nHeight coinbase view absent).1 _ apart]
  unfold valueIn getValueIn
  rw [noZerocoin, notCoinBase, single]
  simp [kept]

end Own

section Agreement

variable (services : SupplyServices) (node : NodeState) (hasPayment : Bool)
  (nKernelValue : CAmount) (fProofOfStake : Bool) (txs : List CTransaction)

def countedFees : Int :=
  feesOf (nHeight node) node.pcoinsTip txs + (txs.map statedFee).sum

def ownTotals : List Int :=
  if fProofOfStake then [0, nKernelValue + getBlockValue services.params (nHeight node)]
  else if hasPayment then [getBlockValue services.params (nHeight node)]
  else [countedFees node txs + getBlockValue services.params node.chainActive.nHeight]

/-- What the zerocoins leave over and what is taken off lowers what is minted. -/
def lostValue : Int :=
  (txs.map (zerocoinFee services.toServices node)).sum +
    corrections (nHeight node)
      (ownTotals services node hasPayment nKernelValue fProofOfStake txs ++ txs.map valueOf)

/-- The block's subsidy is covered by that of the tip and the fees of proof of work; without a payee
it is the tip's, and the zerocoins are worth what was counted. -/
def SubsidyCovered : Prop :=
  if fProofOfStake then
    getBlockValue services.params (nHeight node) ≤
      getBlockValue services.params node.chainActive.nHeight +
        lostValue services node hasPayment nKernelValue fProofOfStake txs
  else if hasPayment then
    getBlockValue services.params (nHeight node) ≤
      getBlockValue services.params node.chainActive.nHeight +
        feesOf (nHeight node) node.pcoinsTip txs +
        lostValue services node hasPayment nKernelValue fProofOfStake txs
  else
    (txs.map statedFee).sum ≤
      lostValue services node hasPayment nKernelValue fProofOfStake txs

/-- The subsidy rises behind the heights between two ranges, and behind the
premine of the test network. -/
theorem subsidy_rises_iff (params : CChainParams) (height : Int) (least : 0 ≤ height) :
    getBlockValue params (height + 1) ≤ getBlockValue params height ↔
      height ∉ borderHeights ∧ ¬ (height = 0 ∧ params.networkID = .testnet) := by
  obtain above | zero := Int.lt_or_eq_of_le least
  · have falls := getBlockValue_le_iff params height (height + 1) above (Int.le.intro 1 rfl)
    have next : height ∈ borderHeights → height + 1 ∉ borderHeights := by
      unfold borderHeights
      simp only [mem_cons, not_mem_nil, or_false]
      omega
    have notZero : height ≠ 0 := Int.ne_of_gt above
    rw [falls]
    constructor
    · intro rises
      exact ⟨fun border => next border (rises border), fun both => notZero both.1⟩
    · intro both border
      exact absurd border both.1
  · subst zero
    have apart : (0 : Int) ∉ borderHeights := by decide
    have first : getBlockValue params 0 = 70001 * coin := by
      unfold getBlockValue
      rw [if_neg (fun both => absurd both.2.2 (by decide)), if_pos rfl]
    rw [first]
    by_cases test : params.networkID = .testnet
    · have second : getBlockValue params (0 + 1) = 250000 * coin := by
        unfold getBlockValue
        rw [if_pos ⟨test, by decide, by decide⟩]
      rw [second]
      simp only [test, and_self, not_true, and_false, iff_false]
      decide
    · have second : getBlockValue params (0 + 1) = 10 * coin := by
        unfold getBlockValue
        rw [if_neg (fun both => test both.1), if_neg (by decide), if_pos (by decide)]
      rw [second]
      simp only [apart, test, not_false_eq_true, and_false, and_self, iff_true]
      decide

end Agreement

section Templates

variable (services : SupplyServices) (here : LocalState) (node : NodeState) (block : CBlock)

theorem stake_compare (kernel next tip zerocoins corrected : Int) :
    0 + (kernel + next + 0) - kernel - zerocoins - corrected ≤ tip + 0 ↔
      next ≤ tip + (zerocoins + corrected) := by
  omega

theorem stake_agrees (hasPayment : Bool) (stakeInput : StakeInput node.pcoinsTip)
    (coinstake : CTransaction) (txs : List CTransaction) (acc : Connecting)
    (stakes : Stakes services node.chainActive.nHeight stakeInput coinstake)
    (plain : ∀ tx ∈ txs, IsPlain tx)
    (vtx : block.vtx = stakeCoinbase services node.chainActive :: coinstake :: txs)
    (shape : checkBlockShape block = .ok ())
    (looped : connectLoop services here node block (.dummy node.chainActive) node.pcoinsTip =
      .ok acc) :
    mintedValue acc ≤ expectedMint services.toServices block node.chainActive acc ↔
      SubsidyCovered services node hasPayment stakeInput.txOut.nValue true txs := by
  obtain ⟨coinBase, others⟩ := checkBlockShape_coinBase block _ _ vtx shape
  have notCoinBase := others coinstake mem_cons_self
  rcases connectLoop_connects services here node block _ _ acc looped with
    ⟨overwrites, scripts, flags, connected⟩
  have absent := overwritesNothing_absent node.pcoinsTip block overwrites
    (stakeCoinbase services node.chainActive) (by rw [vtx]; exact mem_cons_self)
  have split : block.vtx = [stakeCoinbase services node.chainActive, coinstake] ++ txs := vtx
  rw [split] at connected
  have totals := connected_valueOf services.toServices here node block _ scripts flags 0 _ _ acc
    connected
  have first : valueOf (stakeCoinbase services node.chainActive) = 0 := by
    rw [totals _ (by simp)]
    rfl
  have second : valueOf coinstake = stakeInput.txOut.nValue +
      getBlockValue services.params (node.chainActive.nHeight + 1) := by
    rw [totals _ (by simp)]
    exact stakes.value
  have spent : valuesIn services.toServices node (node.chainActive.nHeight + 1) node.pcoinsTip
      [stakeCoinbase services node.chainActive, coinstake] = stakeInput.txOut.nValue := by
    rw [valuesIn, coinBase_valueIn _ _ _ _ coinBase, coinBase_update _ _ _ coinBase]
    dsimp only
    rw [valuesIn, coinStake_valueIn services.toServices node _ services _ stakeInput _ _ coinstake
      stakes notCoinBase absent]
    cases updateCoins coinstake _ (node.chainActive.nHeight + 1) with
    | none => exact (Int.zero_add _).trans (Int.add_zero _)
    | some next => exact (Int.zero_add _).trans (Int.add_zero _)
  have minted := minted_eq services.toServices here node block _ scripts flags node.pcoinsTip
    [stakeCoinbase services node.chainActive, coinstake] txs acc
    (by
      intro tx member
      obtain same | behind := mem_cons.mp member
      · exact Or.inl (same ▸ coinBase)
      · exact Or.inr (mem_singleton.mp behind ▸ stakes.isCoinStake))
    plain connected
  have work : block.isProofOfWork = false := by
    unfold CBlock.isProofOfWork CBlock.isProofOfStake
    rw [vtx]
    dsimp only
    rw [stakes.isCoinStake]
    rfl
  unfold expectedMint SubsidyCovered lostValue ownTotals nHeight
  rw [work, minted, spent, map_append, map_cons, map_cons, map_nil, first,
    second]
  simp only [if_true, Bool.false_eq_true, if_false, sum_cons, sum_nil]
  exact stake_compare _ _ _ _ _

theorem work_compare (own tip fees zerocoins corrected : Int) :
    own + 0 - 0 - zerocoins - corrected ≤ tip + fees ↔
      own ≤ tip + fees + (zerocoins + corrected) := by
  omega

theorem unpaid_compare (tip fees stated lost : Int) :
    fees + stated + tip ≤ tip + fees + lost ↔ stated ≤ lost := by
  omega

/-- A block whose coinbase has the value of the subsidy or, without a payee, of
the tip's subsidy and the counted fees. -/
theorem work_agrees (hasPayment : Bool) (nKernelValue : CAmount) (coinbase : CTransaction)
    (txs : List CTransaction) (last : Placed) (acc : Connecting)
    (value : (coinbase.vout.map CTxOut.nValue).sum =
      if hasPayment then getBlockValue services.params (nHeight node)
      else countedFees node txs + getBlockValue services.params node.chainActive.nHeight)
    (plain : ∀ tx ∈ txs, IsPlain tx)
    (placed : placeAll services.toServices (nHeight node) node.pcoinsTip txs = some last)
    (vtx : block.vtx = coinbase :: txs) (shape : checkBlockShape block = .ok ())
    (looped : connectLoop services here node block (.dummy node.chainActive) node.pcoinsTip =
      .ok acc) :
    mintedValue acc ≤ expectedMint services.toServices block node.chainActive acc ↔
      SubsidyCovered services node hasPayment nKernelValue false txs := by
  have coinBase := (checkBlockShape_coinBase block _ _ vtx shape).1
  rcases connectLoop_connects services here node block _ _ acc looped with
    ⟨overwrites, scripts, flags, connected⟩
  have absent := overwritesNothing_absent node.pcoinsTip block overwrites coinbase
    (by rw [vtx]; exact mem_cons_self)
  have split : block.vtx = [coinbase] ++ txs := vtx
  rw [split] at connected
  have totals := connected_valueOf services.toServices here node block _ scripts flags 0 _ _ acc
    connected coinbase (by simp)
  have spent : valuesIn services.toServices node (node.chainActive.nHeight + 1) node.pcoinsTip
      [coinbase] = 0 := by
    rw [valuesIn, coinBase_valueIn _ _ _ _ coinBase, coinBase_update _ _ _ coinBase]
    dsimp only
    rw [valuesIn, Int.zero_add]
  have minted := minted_eq services.toServices here node block _ scripts flags node.pcoinsTip
    [coinbase] txs acc (fun tx member => Or.inl (mem_singleton.mp member ▸ coinBase)) plain
    connected
  have fees : acc.nFees = feesOf (nHeight node) node.pcoinsTip txs := by
    have counted := connectTransactions_fees services.toServices here node block _ scripts flags 0
      _ _ acc connected
    have nothing := feeOf_reward node.pcoinsTip coinbase (Or.inl coinBase)
    have same := feesOf_alike services.toServices (nHeight node) coinbase.hash txs
      { view := node.pcoinsTip, nSigOps := 0 } last _
      (coinBase_alike (nHeight node) coinbase node.pcoinsTip absent) placed
    have start : (Connecting.start node.pcoinsTip).view = node.pcoinsTip := rfl
    have none : (Connecting.start node.pcoinsTip).nFees = 0 := rfl
    rw [start, none, singleton_append, feesOf, nothing, coinBase_update _ _ _ coinBase]
      at counted
    rw [counted, ← same]
    exact (Int.zero_add _).trans (Int.zero_add _)
  have work : block.isProofOfWork = true := by
    unfold CBlock.isProofOfWork CBlock.isProofOfStake
    rw [vtx]
    cases txs with
    | nil => rfl
    | cons second rest =>
      dsimp only
      rw [(plain second mem_cons_self).2]
      rfl
  have own : [valueOf coinbase] = ownTotals services node hasPayment nKernelValue false txs := by
    rw [totals, value]
    unfold ownTotals
    cases hasPayment with
    | true => rfl
    | false => rfl
  unfold expectedMint SubsidyCovered lostValue
  rw [work, minted, spent, fees, map_append, map_cons, map_nil, ← own, totals, value]
  simp only [if_true, Bool.false_eq_true, if_false, sum_cons, sum_nil]
  rw [work_compare]
  cases hasPayment with
  | true => rfl
  | false => exact unpaid_compare _ _ _ _

end Templates

section Makers

variable (services : SupplyServices) (payment : PaymentServices) (view : RewardView)
  (payments : CMasternodePayments) (node : NodeState) (wallet : StakeWallet node.pcoinsTip)
  (maker : BlockMaker)

def hasPayment : Bool :=
  (payeeOf payment (atTip services view node) payments (nHeight node)).isSome

def nKernelValue : CAmount :=
  ((findKernel wallet).map fun kernel => kernel.1.txOut.nValue).getD 0

theorem paidCoinbase_value (scriptPubKeyIn : CScript) (nFees : CAmount)
    (active : node.chainActive.isEmpty = false) :
    ((paidCoinbase services (rewardMaker services payment view payments node wallet maker)
      node.chainActive scriptPubKeyIn nFees).vout.map CTxOut.nValue).sum =
      if hasPayment services payment view payments node then
        getBlockValue services.params (nHeight node)
      else nFees + getBlockValue services.params node.chainActive.nHeight := by
  have tip : (atTip services view node).tipHeight = some node.chainActive.nHeight := by
    unfold atTip
    rw [active]
    rfl
  unfold paidCoinbase rewardMaker hasPayment nHeight
  dsimp only
  rw [fillOutputs_work payment (atTip services view node) payments _ _ tip]
  cases payeeOf payment (atTip services view node) payments (node.chainActive.nHeight + 1) with
  | none => simp [coinbaseTx]
  | some script =>
    have params : (atTip services view node).params = services.params := rfl
    simp [coinbaseTx, params]

end Makers

/-- An assembled block mints no more than `ConnectBlock` expects exactly if the subsidy of its
height is covered, as it is apart from the heights between two ranges and the genesis block of the
test network. -/
theorem assembled_mint_agrees_iff {δ : Type} (mining : Mining δ) (services : SupplyServices)
    (here : LocalState) (payment : PaymentServices) (view : RewardView)
    (payments : CMasternodePayments) (state : IndexedState)
    (wallet : StakeWallet state.node.pcoinsTip) (maker : BlockMaker) (scriptPubKeyIn : CScript)
    (fProofOfStake : Bool) (collected : Assembling δ) (template : CBlockTemplate)
    (acc : Connecting)
    (taken : collect mining services.toServices here state.node = .ok collected)
    (made : assemble mining services here
      (rewardMaker services payment view payments state.node wallet maker) scriptPubKeyIn
      fProofOfStake state.node = .ok template)
    (shape : checkBlockShape template.block = .ok ())
    (looped : connectLoop services here state.node template.block
      (.dummy state.node.chainActive) state.node.pcoinsTip = .ok acc) :
    (mintedValue acc ≤
        expectedMint services.toServices template.block state.node.chainActive acc ↔
      SubsidyCovered services state.node (hasPayment services payment view payments state.node)
        (nKernelValue state.node wallet) fProofOfStake collected.vtx) ∧
    (getBlockValue services.params (nHeight state.node) ≤
        getBlockValue services.params state.node.chainActive.nHeight ↔
      state.node.chainActive.nHeight ∉ borderHeights ∧
        ¬ (state.node.chainActive.nHeight = 0 ∧ services.params.networkID = .testnet)) := by
  have active : state.node.chainActive.isEmpty = false := by
    unfold assemble at made
    rw [bind_eq_ok] at made
    obtain ⟨_, nonempty, _⟩ := made
    cases empty : state.node.chainActive.isEmpty with
    | false => rfl
    | true =>
      rw [empty] at nonempty
      cases nonempty
  have least : 0 ≤ state.node.chainActive.nHeight := by
    unfold CBlockIndex.nHeight
    have length : 0 < state.node.chainActive.length := by
      apply length_pos_iff.mpr
      intro empty
      rw [empty] at active
      cases active
    omega
  refine ⟨?_, subsidy_rises_iff services.params _ least⟩
  have charged := collect_charged mining services.toServices here state.node collected taken
  have plain : ∀ tx ∈ collected.vtx, IsPlain tx := collected_plain charged.filled
  rcases assemble_vtx mining services here _ scriptPubKeyIn fProofOfStake state template made with
    ⟨other, alsoTaken, staked, vtx⟩
  have same : other = collected := Except.ok.inj (alsoTaken.symm.trans taken)
  rw [same] at vtx
  unfold ownTransactions at vtx
  cases fProofOfStake with
  | true =>
    obtain ⟨⟨coinstake, nTime⟩, created⟩ := Option.isSome_iff_exists.mp (staked rfl)
    rw [created] at vtx
    rcases createCoinStake_stakes wallet services payment _ payments _ coinstake nTime created with
      ⟨kernel, found, stakes⟩
    have value : nKernelValue state.node wallet = kernel.1.txOut.nValue := by
      unfold nKernelValue
      rw [found]
      rfl
    rw [value]
    exact stake_agrees services here state.node template.block _ kernel.1 coinstake collected.vtx
      acc stakes plain vtx shape looped
  | false =>
    obtain ⟨nSigOps, placed, _⟩ := charged.filled.placed
    have value := paidCoinbase_value services payment view payments state.node wallet maker
      scriptPubKeyIn collected.nFees active
    have counted : countedFees state.node collected.vtx = collected.nFees := charged.fees.symm
    rw [← counted] at value
    apply work_agrees services here state.node template.block _ _ _ collected.vtx _ acc value
      plain placed _ shape looped
    rw [counted]
    exact vtx

def walletTx : CTransaction where
  hash := 30
  nVersion := 1
  vin := [{ prevout := { hash := 29, n := 0 }, scriptSig := [], nSequence := 0xffffffff }]
  vout := [{ nValue := 5 * coin, scriptPubKey := 33 :: (List.replicate 33 2 ++ [opCheckSig]) }]
  nLockTime := 0

def walletView : CCoinsView where
  hashBlock := genesisBlock.hash
  coins := fun txid => if txid = walletTx.hash then some (CCoins.fromTx walletTx 1) else none

/-- A node with an empty pool at a height of the main network. -/
def stakeState (height : Nat) : IndexedState :=
  { headerState with
    node :=
      { mintedNode with
        chainActive := List.replicate (height + 1) genesisBlock
        pcoinsTip := walletView } }

def stakeWallet : StakeWallet walletView where
  isLocked := false
  listInputs :=
    [{ prevout := { hash := 30, n := 0 }
       txOut := { nValue := 5 * coin, scriptPubKey := 33 :: (List.replicate 33 2 ++ [opCheckSig]) }
       nTxNewTime := some 1600000000
       unspent := by decide +kernel
       notNull := by decide }]
  getPubKey := fun _ => none
  signSignature := fun _ _ => some ⟨[1, 1], by decide⟩

def stakeMaker : BlockMaker := { workMaker with signBlock := fun _ => some [] }

/-- The stake that is assembled on a tip of some height, and what `ConnectBlock`
makes of it. -/
def stakeOutcome (height : Nat) : Validated (CBlockTemplate × Connecting) := do
  let template ← assemble (miningBelow 750000) mainnetSupply quietNode
    (rewardMaker mainnetSupply examplePayments (rewardView 0) .empty (stakeState height).node
      stakeWallet stakeMaker) [op1] true (stakeState height).node
  checkBlockShape template.block
  let acc ← connectLoop mainnetSupply quietNode (stakeState height).node template.block
    (.dummy (stakeState height).node.chainActive) (stakeState height).node.pcoinsTip
  .ok (template, acc)

/-- The first block of the proof-of-stake phase mints ten coins where one is
expected. -/
theorem first_stake_mints_too_much :
    ¬ ∀ (mining : Mining Int) (services : SupplyServices) (here : LocalState)
        (payment : PaymentServices) (view : RewardView) (payments : CMasternodePayments)
        (state : IndexedState) (wallet : StakeWallet state.node.pcoinsTip) (maker : BlockMaker)
        (scriptPubKeyIn : CScript) (fProofOfStake : Bool) (template : CBlockTemplate)
        (acc : Connecting),
      assemble mining services here
        (rewardMaker services payment view payments state.node wallet maker) scriptPubKeyIn
        fProofOfStake state.node = .ok template →
      checkBlockShape template.block = .ok () →
      connectLoop services here state.node template.block (.dummy state.node.chainActive)
        state.node.pcoinsTip = .ok acc →
      mintedValue acc ≤
        expectedMint services.toServices template.block state.node.chainActive acc := by
  intro agrees
  have values : ((stakeOutcome 321).toOption.map fun outcome => decide
      (mintedValue outcome.2 ≤ expectedMint mainnetSupply.toServices outcome.1.block
        (stakeState 321).node.chainActive outcome.2)) = some false := by
    decide +kernel
  cases result : stakeOutcome 321 with
  | error failure =>
    rw [result] at values
    cases values
  | ok outcome =>
    rw [result] at values
    have exceeds := of_decide_eq_false (Option.some.inj values)
    unfold stakeOutcome at result
    simp only [bind_eq_ok] at result
    obtain ⟨template, made, _, shape, acc, looped, same⟩ := result
    cases same
    exact exceeds (agrees _ _ _ _ _ _ _ _ _ _ _ template acc made shape looped)

/-- The block behind it mints what is expected. -/
theorem second_stake_mints_enough :
    ∃ outcome, stakeOutcome 322 = .ok outcome ∧
      mintedValue outcome.2 ≤ expectedMint mainnetSupply.toServices outcome.1.block
        (stakeState 322).node.chainActive outcome.2 := by
  have runs : (stakeOutcome 322).isOk = true := by decide +kernel
  have collects : ((collect (miningBelow 750000) mainnetSupply.toServices quietNode
      (stakeState 322).node).toOption.map fun collected => collected.vtx) = some [] := by
    decide +kernel
  cases result : stakeOutcome 322 with
  | error failure =>
    rw [result] at runs
    cases runs
  | ok outcome =>
    cases taken : collect (miningBelow 750000) mainnetSupply.toServices quietNode
        (stakeState 322).node with
    | error failure =>
      rw [taken] at collects
      cases collects
    | ok collected =>
      rw [taken] at collects
      have empty : collected.vtx = [] := Option.some.inj collects
      refine ⟨outcome, rfl, ?_⟩
      unfold stakeOutcome at result
      simp only [bind_eq_ok] at result
      obtain ⟨template, made, _, shape, acc, looped, same⟩ := result
      cases same
      apply (assembled_mint_agrees_iff (miningBelow 750000) mainnetSupply quietNode
        examplePayments (rewardView 0) .empty (stakeState 322) stakeWallet stakeMaker [op1] true
        collected template acc taken made shape looped).1.mpr
      rw [empty]
      unfold SubsidyCovered
      decide +kernel

end ZenonCore.AssembledMint
