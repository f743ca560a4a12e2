import ZenonCore.BlockPayee
import ZenonCore.BlockTemplate

/-!
# The reward transactions of a new block

`CreateCoinStake` stakes the first output of the wallet that is a kernel; `FillBlockPayee`
takes the masternode's payment from that. Zerocoins are not staked.
-/

namespace ZenonCore.CoinStake

open BlockPayee BlockTemplate Chain ChainParams Option
open Chainstate Coins ConnectBlock Primitives
open Script Standard
open MasternodePayments (CMasternodePayments PaymentServices)
open MoneySupply (SupplyServices)

abbrev WalletKey := { vch : Bytes // vch.length = 33 ∨ vch.length = 65 }

def createTxOuts (getPubKey : Bytes → Option WalletKey) (scriptPubKeyKernel : CScript) :
    Option (List CTxOut) :=
  match solver scriptPubKeyKernel with
  | .error _ => none
  | .ok solution =>
    if !solution.result then none
    else if solution.typeRet ≠ .pubkey ∧ solution.typeRet ≠ .pubkeyhash then none
    else if solution.typeRet = .pubkeyhash then
      (getPubKey (solution.vSolutionsRet.headD [])).map fun key =>
        [{ nValue := 0
           scriptPubKey := UInt8.ofNat key.1.length :: (key.1 ++ [opCheckSig]) }]
    else some [{ nValue := 0, scriptPubKey := scriptPubKeyKernel }]

structure StakeInput (view : CCoinsView) where
  prevout : COutPoint
  txOut : CTxOut
  /-- The time that `Stake` finds for it, if it is a kernel. -/
  nTxNewTime : Option UInt32
  unspent : view.getOutputFor prevout = some txOut
  notNull : prevout.isNull = false

abbrev SignatureScript :=
  { scriptSig : CScript // Script.isZerocoinSpend scriptSig = false ∧
    Script.isZerocoinPublicSpend scriptSig = false }

structure StakeWallet (view : CCoinsView) where
  isLocked : Bool
  listInputs : List (StakeInput view)
  getPubKey : Bytes → Option WalletKey
  signSignature : List CTxIn → List CTxOut → Option SignatureScript

section Staking

variable {view : CCoinsView} (wallet : StakeWallet view)

/-- The first input that is a kernel and whose script can be paid again, with
its time and the output for it. -/
def findKernel : Option (StakeInput view × UInt32 × List CTxOut) :=
  wallet.listInputs.findSome? fun stakeInput => do
    let nTxNewTime ← stakeInput.nTxNewTime
    let vout ← createTxOuts wallet.getPubKey stakeInput.txOut.scriptPubKey
    some (stakeInput, nTxNewTime, vout)

def cent : CAmount := 1000000

/-- The credit goes to the output behind the empty one, or to two of them. -/
def setCredit (nCredit : CAmount) (vout : List CTxOut) : List CTxOut :=
  if vout.length = 3 then
    let half := (nCredit.tdiv 2).tdiv cent * cent
    vout.mapIdx fun j out =>
      if j = 1 then { out with nValue := half }
      else if j = 2 then { out with nValue := nCredit - half }
      else out
  else vout.mapIdx fun j out => if j = 1 then { out with nValue := nCredit } else out

def defaultBlockMaxSize : Nat := 750000

variable (services : SupplyServices)

def stakeTx (vin : List CTxIn) (vout : List CTxOut) : CTransaction where
  hash := services.lib.getHash 1 vin vout 0
  nVersion := 1
  vin := vin
  vout := vout
  nLockTime := 0

/-- `CreateCoinStake` on a tip of some height, by what `FillBlockPayee` does. -/
def createCoinStake (nHeight : Int) (fillBlockPayee : List CTxOut → Option (List CTxOut)) :
    Option (CTransaction × UInt32) :=
  if wallet.isLocked then none
  else do
    let (stakeInput, nTxNewTime, outputs) ← findKernel wallet
    let nCredit := stakeInput.txOut.nValue + getBlockValue services.params (nHeight + 1)
    let credited := setCredit nCredit ({ nValue := 0, scriptPubKey := [] } :: outputs)
    if defaultBlockMaxSize / 5 ≤ services.getSerializeSize (stakeTx services [] credited) then none
    else do
      let vout ← fillBlockPayee credited
      let txIn : CTxIn :=
        { prevout := stakeInput.prevout, scriptSig := [], nSequence := 0xffffffff }
      let scriptSig ← wallet.signSignature [txIn] vout
      some (stakeTx services [{ txIn with scriptSig := scriptSig.1 }] vout, nTxNewTime)

end Staking

section Rewards

variable (services : SupplyServices) (payment : PaymentServices) (view : RewardView)
  (payments : CMasternodePayments) (node : NodeState)

def atTip : RewardView :=
  { view with
    params := services.params
    tipHeight := if node.chainActive.isEmpty then none else some node.chainActive.nHeight }

/-- `CreateNewBlock` with `FillBlockPayee` and `CreateCoinStake`. -/
def rewardMaker (wallet : StakeWallet node.pcoinsTip) (maker : BlockMaker) : BlockMaker :=
  { maker with
    fillBlockPayee := fun vout _ =>
      (fillOutputs payment (atTip services view node) payments false false vout).getD vout
    createCoinStake := createCoinStake wallet services node.chainActive.nHeight
      (fillOutputs payment (atTip services view node) payments true false) }

end Rewards

section Outputs

theorem createTxOuts_single (getPubKey : Bytes → Option WalletKey) (scriptPubKeyKernel : CScript)
    (vout : List CTxOut) (made : createTxOuts getPubKey scriptPubKeyKernel = some vout) :
    ∃ out : CTxOut, vout = [out] ∧ out.isZerocoinMint = false := by
  unfold createTxOuts at made
  cases solved : solver scriptPubKeyKernel with
  | error fault =>
    rw [solved] at made
    cases made
  | ok solution =>
    rw [solved] at made
    dsimp only at made
    split_ifs at made with failed other hashed
    · obtain ⟨key, _, result⟩ := map_eq_some_iff.mp made
      refine ⟨_, result.symm, ?_⟩
      have length : UInt8.ofNat key.1.length = 33 ∨ UInt8.ofNat key.1.length = 65 := by
        obtain compressed | full := key.2
        · exact Or.inl (by rw [compressed]; rfl)
        · exact Or.inr (by rw [full]; rfl)
      unfold CTxOut.isZerocoinMint Script.isZerocoinMint startsWithOpcode
      obtain same | same := length
      · rw [same]
        rfl
      · rw [same]
        rfl
    · refine ⟨_, (some.inj made).symm, ?_⟩
      rw [Bool.eq_false_iff]
      intro mint
      have isMint : Script.isZerocoinMint scriptPubKeyKernel = true := mint
      have key : solution.typeRet = .pubkey := by
        by_contra notKey
        exact other ⟨notKey, hashed⟩
      have kind := solver_mint scriptPubKeyKernel solution isMint solved
      rw [key] at kind
      obtain kind | kind := kind
      · cases kind
      · cases kind

variable (payment : PaymentServices) (view : RewardView) (payments : CMasternodePayments)

theorem fillOutputs_stake (mark out : CTxOut) (filled : List CTxOut)
    (ordinary : out.isZerocoinMint = false)
    (done : fillOutputs payment view payments true false [mark, out] = some filled) :
    ∃ second rest, filled = mark :: second :: rest ∧
      (filled.map CTxOut.nValue).sum = mark.nValue + out.nValue := by
  have whole : ∃ second rest, [mark, out] = mark :: second :: rest ∧
      (([mark, out] : List CTxOut).map CTxOut.nValue).sum = mark.nValue + out.nValue := by
    refine ⟨out, [], rfl, ?_⟩
    simp
  unfold fillOutputs at done
  cases tip : view.tipHeight with
  | none =>
    rw [tip] at done
    cases done
    exact whole
  | some nHeight =>
    rw [tip] at done
    dsimp only at done
    split at done
    · cases done
      exact whole
    · rw [if_pos rfl] at done
      simp only [List.cons_append, List.nil_append, List.getElem?_cons_succ,
        List.getElem?_cons_zero, map_some, ordinary, Bool.false_eq_true, if_false,
        some.injEq] at done
      rw [← done]
      refine ⟨_, _, rfl, ?_⟩
      simp only [takeFromStake, List.length_cons, List.length_nil]
      simp

theorem fillOutputs_work (vout : List CTxOut) (nHeight : Int)
    (tip : view.tipHeight = some nHeight) :
    fillOutputs payment view payments false false vout =
      match payeeOf payment view payments (nHeight + 1) with
      | none => some vout
      | some script => some
          [{ vout.headD CTxOut.null with
              nValue := getBlockValue view.params (nHeight + 1) -
                getMasternodePayment view.params nHeight
                  (getBlockValue view.params (nHeight + 1)) 0 false },
            { nValue := getMasternodePayment view.params nHeight
                (getBlockValue view.params (nHeight + 1)) 0 false
              scriptPubKey := script }] := by
  unfold fillOutputs payeeOf
  rw [tip]
  rfl

end Outputs

section Coinstakes

variable {view : CCoinsView} (wallet : StakeWallet view) (services : SupplyServices)

/-- A coinstake of the wallet: what it spends, and that it makes the subsidy of
the next height. -/
structure Stakes (nHeight : Int) (stakeInput : StakeInput view) (tx : CTransaction) : Prop where
  input : ∃ txin : CTxIn, tx.vin = [txin] ∧ txin.prevout = stakeInput.prevout ∧
    txin.spendsZerocoin = false
  isCoinStake : tx.isCoinStake = true
  value : (tx.vout.map CTxOut.nValue).sum =
    stakeInput.txOut.nValue + getBlockValue services.params (nHeight + 1)

theorem findKernel_outputs (stakeInput : StakeInput view) (nTxNewTime : UInt32)
    (outputs : List CTxOut) (found : findKernel wallet = some (stakeInput, nTxNewTime, outputs)) :
    createTxOuts wallet.getPubKey stakeInput.txOut.scriptPubKey = some outputs := by
  unfold findKernel at found
  obtain ⟨candidate, _, made⟩ := List.exists_of_findSome?_eq_some found
  simp only [bind_eq_bind, bind_eq_some_iff] at made
  obtain ⟨time, _, vout, created, result⟩ := made
  cases result
  exact created

theorem createCoinStake_stakes (payment : PaymentServices) (rewards : RewardView)
    (payments : CMasternodePayments) (nHeight : Int) (tx : CTransaction) (nTime : UInt32)
    (created : createCoinStake wallet services nHeight
      (fillOutputs payment rewards payments true false) = some (tx, nTime)) :
    ∃ kernel, findKernel wallet = some kernel ∧ Stakes services nHeight kernel.1 tx := by
  unfold createCoinStake at created
  split_ifs at created
  rw [bind_eq_bind, bind_eq_some_iff] at created
  obtain ⟨⟨stakeInput, nTxNewTime, outputs⟩, found, rest⟩ := created
  refine ⟨_, found, ?_⟩
  rcases createTxOuts_single _ _ _ (findKernel_outputs wallet stakeInput nTxNewTime outputs found)
    with ⟨out, single, ordinary⟩
  subst single
  dsimp only at rest
  split_ifs at rest
  simp only [bind_eq_bind, bind_eq_some_iff] at rest
  obtain ⟨vout, filled, scriptSig, _, result⟩ := rest
  let paid : CTxOut :=
    { out with
      nValue := stakeInput.txOut.nValue + getBlockValue services.params (nHeight + 1) }
  have noMint : paid.isZerocoinMint = false := ordinary
  have credited : setCredit paid.nValue [{ nValue := 0, scriptPubKey := [] }, out] =
      [{ nValue := 0, scriptPubKey := [] }, paid] := rfl
  rw [credited] at filled
  rcases fillOutputs_stake payment rewards payments _ paid vout noMint filled with
    ⟨second, others, shape, sum⟩
  cases result
  exact
    { input := by
        refine ⟨_, rfl, rfl, ?_⟩
        unfold CTxIn.spendsZerocoin CTxIn.isZerocoinSpend CTxIn.isZerocoinPublicSpend
        dsimp only
        rw [scriptSig.2.1, scriptSig.2.2, Bool.and_false]
        rfl
      isCoinStake := by
        unfold CTransaction.isCoinStake stakeTx
        rw [shape]
        dsimp only
        rw [stakeInput.notNull]
        rfl
      value := by
        rw [show (stakeTx services _ vout).vout = vout from rfl, sum]
        exact Int.zero_add _ }

end Coinstakes

end ZenonCore.CoinStake
