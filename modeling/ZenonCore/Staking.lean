import ZenonCore.ForkSerials

/-!
# The staker and the validator

`Stake` looks for a time and an input, which have to pass `CheckProofOfStake` and
`CheckBlockTime` by their own rules.
-/

namespace ZenonCore.Staking

open Script Primitives ChainParams Coins Chain
open Validation Zerocoin Chainstate ConnectBlock
open BoundedReads BlockReads ProofOfWork StakeInput AcceptBlock
open ValueGate ForkSerials

def toUnsigned (number : Int) : UInt32 := UInt32.ofNat (number % 2 ^ 32).toNat

def getTimeSlot (params : CChainParams) (nTime : Int) : Int :=
  Int.tdiv nTime params.nTimeSlotLength * params.nTimeSlotLength

/-- `MaxFutureBlockTime` of the parameters, for proof of stake. -/
def maxFutureStakeTime (params : CChainParams) (time : Int) : Int :=
  time + params.nFutureTimeDriftPoS

def timeBefore (nTimeTx : Int) : UInt32 := toUnsigned (nTimeTx - 1)

def maxTime (params : CChainParams) (here : LocalState) (nTimeTx : Int) : UInt32 :=
  toUnsigned (min (nTimeTx + 60) (maxFutureStakeTime params here.getAdjustedTime))

section Stake

variable (services : StakeServices) (here : LocalState) (node : NodeState)
  (stakeEntry : CBlockIndex → StakeEntry)

def checkpointEntry : CBlockIndex :=
  node.chainActive.atHeight (node.chainActive.nHeight - services.nZerocoinRequiredStakeDepth)

/-- A mint is staked with a block that is dereferenced without a check. -/
def dereferencesNull : CStakeInput → Bool
  | .znnStake _ _ => false
  | .zznnStake fMint _ _ _ => fMint && (checkpointEntry services node).isEmpty

/-- The loop of `Stake`, from the time behind `nTryTime` on. -/
def searchKernel (pindexPrev : CBlockIndex) (nBits : UInt32) (stakeInput : CStakeInput) :
    Nat → UInt32 → Reading (UInt32 × Uint256)
  | 0, _ => attempt refuse
  | rounds + 1, nTryTime =>
    if node.chainActive.nHeight ≠ pindexPrev.nHeight then attempt refuse
    else match checkStakeKernelHash services node stakeEntry pindexPrev nBits stakeInput
        (nTryTime + 1) with
    | .ok hashProofOfStake => .ok (nTryTime + 1, hashProofOfStake)
    | .error (.failed _) => searchKernel pindexPrev nBits stakeInput rounds (nTryTime + 1)
    | .error (.outside site) => .error (.outside site)

/-- `Stake`, with the time and the hash of the kernel it finds. -/
def stake (pindexPrev : CBlockIndex) (stakeInput : CStakeInput) (nBits : UInt32)
    (nTimeTx : Int) : Reading (Int × Uint256) := do
  let nHeight := pindexPrev.nHeight + 1
  attempt (require (!dereferencesNull services node stakeInput) (.error .assertion))
  let pindexFrom := getIndexFrom services node stakeInput
  attempt (require (!pindexFrom.isEmpty && decide (1 ≤ pindexFrom.nHeight)) refuse)
  if services.params.isTimeProtocolV2 nHeight then do
    attempt (require (pindexFrom.nHeight + services.params.nStakeMinDepth ≤ nHeight) refuse)
    let nTimeSlot := getTimeSlot services.params here.getAdjustedTime
    attempt (require (decide ((entryTime pindexPrev).toNat < nTimeSlot) ||
      services.params.networkID == .regtest) refuse)
    let hashProofOfStake ← checkStakeKernelHash services node stakeEntry pindexPrev nBits
      stakeInput (toUnsigned nTimeSlot)
    .ok (nTimeSlot, hashProofOfStake)
  else do
    attempt (require (!services.params.isStakeModifierV2 pindexPrev.nHeight ||
      services.params.hasStakeMinAgeOrDepth nHeight (toUnsigned nTimeTx) pindexFrom.nHeight
        (entryTime pindexFrom)) refuse)
    let before := timeBefore nTimeTx
    let found ← searchKernel services node stakeEntry pindexPrev nBits stakeInput
      ((maxTime services.params here nTimeTx).toNat - before.toNat) before
    .ok (found.1.toNat, found.2)

end Stake

section Search

variable (services : StakeServices) (node : NodeState) (stakeEntry : CBlockIndex → StakeEntry)
  (pindexPrev : CBlockIndex) (nBits : UInt32) (stakeInput : CStakeInput)

def MeetsKernel (time : UInt32) : Prop :=
  ∃ hash, checkStakeKernelHash services node stakeEntry pindexPrev nBits stakeInput time = .ok hash

theorem searchKernel_first (rounds : Nat) (nTryTime time : UInt32) (hash : Uint256)
    (room : nTryTime.toNat + rounds < 2 ^ 32)
    (found : searchKernel services node stakeEntry pindexPrev nBits stakeInput rounds nTryTime =
      .ok (time, hash)) :
    nTryTime.toNat < time.toNat ∧ time.toNat ≤ nTryTime.toNat + rounds ∧
      checkStakeKernelHash services node stakeEntry pindexPrev nBits stakeInput time = .ok hash ∧
      ∀ earlier : UInt32, nTryTime.toNat < earlier.toNat → earlier.toNat < time.toNat →
        ¬ MeetsKernel services node stakeEntry pindexPrev nBits stakeInput earlier := by
  induction rounds generalizing nTryTime with
  | zero => cases found
  | succ rounds ih =>
    have next : (nTryTime + 1).toNat = nTryTime.toNat + 1 := by
      rw [UInt32.toNat_add, UInt32.toNat_one, Nat.mod_eq_of_lt (by omega)]
    unfold searchKernel at found
    split at found
    · cases found
    · split at found
      · rename_i hashFound met
        cases found
        refine ⟨by omega, by omega, met, ?_⟩
        intro earlier above below
        omega
      · rename_i missed
        have later := ih (nTryTime + 1) (by omega) found
        rw [next] at later
        refine ⟨by omega, by omega, later.2.2.1, ?_⟩
        intro earlier above below meets
        by_cases here : earlier.toNat = nTryTime.toNat + 1
        · have same : earlier = nTryTime + 1 := UInt32.toNat_inj.mp (here.trans next.symm)
          obtain ⟨other, met⟩ := meets
          rw [same, missed] at met
          cases met
        · exact later.2.2.2 earlier (by omega) below meets
      · cases found

end Search

section Validator

variable (services : StakeServices) (node : NodeState)

/-- The forms of an input that is staked: an output, or a mint of the wallet. -/
def isCandidate : CStakeInput → Bool
  | .znnStake _ _ => true
  | .zznnStake fMint _ _ _ => fMint

/-- `GetTransaction` finds the transaction of an output that is staked, and no
other one with its hash. -/
def FoundByHash : CStakeInput → Prop
  | .znnStake txFrom _ =>
    ∀ found hashBlock, getTransaction node txFrom.hash = some (found, hashBlock) → found = txFrom
  | .zznnStake _ _ _ _ => True

def mintChecksum (denom : CoinDenomination) : UInt32 :=
  parseDenominationChecksum (checkpointEntry services node).nAccumulatorCheckpoint denom

def SpendsStake (txin : CTxIn) : CStakeInput → Prop
  | .znnStake txFrom nPosition =>
    txin.isZerocoinSpend = false ∧ txin.prevout = { hash := txFrom.hash, n := nPosition }
  | .zznnStake _ _ denom coinSerialNumber =>
    txin.isZerocoinSpend = true ∧ ∃ spend, txInToZerocoinSpend services.lib txin = .ok spend ∧
      spend.spendType = .stake ∧ spend.denomination = denom ∧
      spend.coinSerialNumber = coinSerialNumber ∧
      spend.accChecksum = mintChecksum services node denom

def SignatureValid (tx : CTransaction) : CStakeInput → Prop
  | .znnStake txFrom nPosition => ∀ txout, txFrom.vout[nPosition.toNat]? = some txout →
      services.scriptCheck txout tx 0 standardScriptVerifyFlags = true
  | .zznnStake _ _ _ _ => True

/-- A block with the time and the target of a stake and its input as kernel. -/
structure StakedBlock (block : CBlock) (stakeInput : CStakeInput) (nBits : UInt32) (t : Int) :
    Prop where
  nTime : (block.nTime.toNat : Int) = t
  nBits : block.nBits = nBits
  kernel : ∃ tx txin, block.vtx[1]? = some tx ∧ tx.isCoinStake = true ∧
    tx.vin[0]? = some txin ∧ SpendsStake services node txin stakeInput ∧
    SignatureValid services tx stakeInput

def deepEnough : CStakeInput → Bool
  | .znnStake _ _ => true
  | .zznnStake fMint nChecksum denom coinSerialNumber =>
    decide (services.nZerocoinRequiredStakeDepth ≤ node.chainActive.nHeight + 1 -
      (getIndexFrom services node (.zznnStake fMint nChecksum denom coinSerialNumber)).nHeight)

def validatorInput : CStakeInput → CStakeInput
  | .znnStake txFrom nPosition => .znnStake txFrom nPosition
  | .zznnStake _ _ denom coinSerialNumber =>
    .zznnStake false (mintChecksum services node denom) denom coinSerialNumber

theorem getIndexFrom_validatorInput (stakeInput : CStakeInput)
    (candidate : isCandidate stakeInput = true) :
    getIndexFrom services node (validatorInput services node stakeInput) =
      getIndexFrom services node stakeInput := by
  cases stakeInput with
  | znnStake txFrom nPosition => rfl
  | zznnStake fMint nChecksum denom coinSerialNumber =>
    have mint : fMint = true := candidate
    rw [mint]
    rfl

theorem checkStakeKernelHash_validatorInput (stakeEntry : CBlockIndex → StakeEntry)
    (pindexPrev : CBlockIndex) (nBits nTime : UInt32) (stakeInput : CStakeInput)
    (candidate : isCandidate stakeInput = true) :
    checkStakeKernelHash services node stakeEntry pindexPrev nBits
        (validatorInput services node stakeInput) nTime =
      checkStakeKernelHash services node stakeEntry pindexPrev nBits stakeInput nTime := by
  unfold checkStakeKernelHash getHashProofOfStake
  rw [getIndexFrom_validatorInput services node stakeInput candidate]
  cases stakeInput with
  | znnStake txFrom nPosition => rfl
  | zznnStake fMint nChecksum denom coinSerialNumber => rfl

theorem amountToZerocoinDenomination_toAmount (denom : CoinDenomination) :
    amountToZerocoinDenomination (zerocoinDenominationToAmount denom) = denom := by
  cases denom <;> rfl

/-- A block that a zerocoin stake comes from is at the height where zerocoins
start, or above it. -/
theorem getIndexFrom_zznn_height (fMint : Bool) (nChecksum : UInt32) (denom : CoinDenomination)
    (coinSerialNumber : Int)
    (present : getIndexFrom services node (.zznnStake fMint nChecksum denom coinSerialNumber) ≠ []) :
    services.params.nZerocoinStartHeight ≤ node.chainActive.nHeight := by
  by_contra below
  apply present
  unfold getIndexFrom
  apply if_pos
  omega

/-- `ContextualCheckZerocoinStake` of a mint's own spend comes down to the
depth. -/
theorem contextualCheckZerocoinStake_iff
    (starts : services.params.nBlockZerocoinV2 ≤ services.params.nZerocoinStartHeight)
    (nChecksum : UInt32) (denom : CoinDenomination) (coinSerialNumber : Int)
    (notNull : (checkpointEntry services node).isEmpty = false)
    (present : getIndexFrom services node (.zznnStake true nChecksum denom coinSerialNumber) ≠ []) :
    contextualCheckZerocoinStake services node node.chainActive.nHeight
        (validatorInput services node (.zznnStake true nChecksum denom coinSerialNumber)) = .ok () ↔
      deepEnough services node (.zznnStake true nChecksum denom coinSerialNumber) = true := by
  have height := getIndexFrom_zznn_height services node true nChecksum denom coinSerialNumber present
  have same := getIndexFrom_validatorInput services node
    (.zznnStake true nChecksum denom coinSerialNumber) rfl
  have started : services.params.nBlockZerocoinV2 ≤ node.chainActive.nHeight := by omega
  have isPresent : (getIndexFrom services node
      (.zznnStake true nChecksum denom coinSerialNumber)).isEmpty = false :=
    List.isEmpty_eq_false_iff.mpr present
  unfold validatorInput at same
  dsimp only at same
  unfold validatorInput contextualCheckZerocoinStake deepEnough
  dsimp only
  rw [same, amountToZerocoinDenomination_toAmount]
  unfold checkpointEntry at notNull
  simp only [bind_eq_ok, refuse, require_eq_ok, exists_const, started, isPresent,
    notNull, mintChecksum, checkpointEntry, decide_true, Bool.not_false, beq_self_eq_true,
    true_and, and_true]

theorem transaction_found (txFrom : CTransaction) (nPosition : UInt32)
    (found : FoundByHash node (.znnStake txFrom nPosition))
    (present : getIndexFrom services node (.znnStake txFrom nPosition) ≠ []) :
    ∃ hashBlock, getTransaction node txFrom.hash = some (txFrom, hashBlock) := by
  cases looked : getTransaction node txFrom.hash with
  | none =>
    exfalso
    apply present
    unfold getIndexFrom
    dsimp only
    rw [looked]
  | some pair =>
    have same := found pair.1 pair.2 looked
    exact ⟨pair.2, by rw [← same]⟩

theorem initStakeInput_iff
    (starts : services.params.nBlockZerocoinV2 ≤ services.params.nZerocoinStartHeight)
    (stakeInput : CStakeInput) (candidate : isCandidate stakeInput = true)
    (found : FoundByHash node stakeInput)
    (notNull : dereferencesNull services node stakeInput = false)
    (present : getIndexFrom services node stakeInput ≠ [])
    (value : ∃ nValue, getValue stakeInput = .ok nValue) (tx : CTransaction) (txin : CTxIn)
    (isCoinStake : tx.isCoinStake = true) (first : tx.vin[0]? = some txin)
    (spends : SpendsStake services node txin stakeInput)
    (signature : SignatureValid services tx stakeInput) (read : CStakeInput) :
    initStakeInput services node tx node.chainActive.nHeight = .ok read ↔
      read = validatorInput services node stakeInput ∧
        deepEnough services node stakeInput = true := by
  unfold initStakeInput
  simp only [refuse, bind_eq_ok, attempt_eq_ok, readAt_eq_ok, require_eq_ok, isCoinStake, first,
    exists_const, true_and, Option.some.injEq, exists_eq_left']
  cases stakeInput with
  | znnStake txFrom nPosition =>
    obtain ⟨ordinary, prevout⟩ := spends
    obtain ⟨nValue, taken⟩ := value
    unfold getValue at taken
    simp only [bind_eq_ok, readAt_eq_ok] at taken
    obtain ⟨txout, output, _⟩ := taken
    rcases transaction_found services node txFrom nPosition found present with
      ⟨hashBlock, lookup⟩
    have scripts := signature txout output
    rw [ordinary, if_neg (by decide)]
    simp only [bind_eq_ok, attempt_eq_ok, readAt_eq_ok, require_eq_ok, ofOption_eq_ok, prevout,
      lookup, Option.some.injEq, exists_eq_left', output, scripts, true_and, exists_const]
    exact ⟨fun same => ⟨(Except.ok.inj same).symm, rfl⟩, fun both => by rw [both.1]; rfl⟩
  | zznnStake fMint nChecksum denom coinSerialNumber =>
    have mint : fMint = true := candidate
    subst mint
    obtain ⟨zerocoin, spend, readSpend, spendType, denomination, serial, checksum⟩ := spends
    have checkpoint : (checkpointEntry services node).isEmpty = false := notNull
    have contextual := contextualCheckZerocoinStake_iff services node starts nChecksum denom
      coinSerialNumber checkpoint present
    rw [zerocoin, if_pos rfl]
    simp only [bind_eq_ok, attempt_eq_ok, ofFault_eq_ok, require_eq_ok, readSpend, spendType,
      denomination, serial, checksum, Except.ok.injEq, exists_eq_left', beq_self_eq_true,
      true_and, exists_const]
    unfold validatorInput at contextual ⊢
    dsimp only at contextual ⊢
    constructor
    · intro reads
      obtain ⟨_, passes, same⟩ := reads
      exact ⟨same.symm, contextual.mp passes⟩
    · intro both
      exact ⟨(), contextual.mpr both.2, both.1.symm⟩

variable (stakeEntry : CBlockIndex → StakeEntry)

theorem hasStakeMinAgeOrDepth_iff (params : CChainParams) (nHeight : Int) (contextTime : UInt32)
    (fromHeight : Int) (fromTime : UInt32) (modifierV2 : params.isStakeModifierV2 nHeight = true) :
    params.hasStakeMinAgeOrDepth (nHeight + 1) contextTime fromHeight fromTime = true ↔
      params.nStakeMinDepth ≤ nHeight + 1 - fromHeight := by
  have next : params.isStakeModifierV2 (nHeight + 1) = true := by
    unfold CChainParams.isStakeModifierV2 at modifierV2 ⊢
    rw [decide_eq_true_iff] at modifierV2 ⊢
    omega
  unfold CChainParams.hasStakeMinAgeOrDepth
  rw [next, if_neg (by decide), decide_eq_true_iff]

theorem checkStakeKernelHash_value (pindexPrev : CBlockIndex) (nBits nTime : UInt32)
    (stakeInput : CStakeInput) (hash : Uint256)
    (met : checkStakeKernelHash services node stakeEntry pindexPrev nBits stakeInput nTime =
      .ok hash) : ∃ nValue, getValue stakeInput = .ok nValue := by
  unfold checkStakeKernelHash at met
  simp only [bind_eq_ok] at met
  obtain ⟨_, _, nValue, value, _⟩ := met
  exact ⟨nValue, value⟩

theorem checkProofOfStake_iff
    (starts : services.params.nBlockZerocoinV2 ≤ services.params.nZerocoinStartHeight)
    (block : CBlock) (stakeInput : CStakeInput) (nBits : UInt32) (t : Int) (hash : Uint256)
    (candidate : isCandidate stakeInput = true) (found : FoundByHash node stakeInput)
    (notNull : dereferencesNull services node stakeInput = false)
    (present : getIndexFrom services node stakeInput ≠ [])
    (aged : services.params.isStakeModifierV2 node.chainActive.nHeight = true →
      services.params.nStakeMinDepth ≤
        node.chainActive.nHeight + 1 - (getIndexFrom services node stakeInput).nHeight)
    (met : checkStakeKernelHash services node stakeEntry node.chainActive nBits stakeInput
      block.nTime = .ok hash)
    (staked : StakedBlock services node block stakeInput nBits t) :
    checkProofOfStake services node stakeEntry block node.chainActive node.chainActive.nHeight =
        .ok hash ↔
      deepEnough services node stakeInput = true := by
  obtain ⟨tx, txin, second, isCoinStake, first, spends, signature⟩ := staked.kernel
  have reads := initStakeInput_iff services node starts stakeInput candidate found notNull present
    (checkStakeKernelHash_value services node stakeEntry _ _ _ stakeInput hash met) tx txin
    isCoinStake first spends signature
  have isPresent : (getIndexFrom services node stakeInput).isEmpty = false :=
    List.isEmpty_eq_false_iff.mpr present
  have age : (!services.params.isStakeModifierV2 node.chainActive.nHeight ||
      services.params.hasStakeMinAgeOrDepth (node.chainActive.nHeight + 1) block.nTime
        (getIndexFrom services node stakeInput).nHeight
        (entryTime (getIndexFrom services node stakeInput))) = true := by
    cases modifierV2 : services.params.isStakeModifierV2 node.chainActive.nHeight with
    | false => rfl
    | true =>
      exact (hasStakeMinAgeOrDepth_iff _ _ _ _ _ modifierV2).mpr (aged modifierV2)
  unfold checkProofOfStake
  simp only [refuse, bind_eq_ok, attempt_eq_ok, readAt_eq_ok, require_eq_ok, onlyIf_eq_ok, second,
    first, Option.some.injEq, exists_eq_left', reads]
  rw [staked.nBits]
  constructor
  · intro passes
    obtain ⟨_, read, _⟩ := passes
    exact read.2
  · intro deep
    refine ⟨validatorInput services node stakeInput, ⟨rfl, deep⟩, ?_⟩
    rw [getIndexFrom_validatorInput services node stakeInput candidate, isPresent,
      checkStakeKernelHash_validatorInput services node stakeEntry _ _ _ stakeInput candidate]
    exact ⟨(), rfl, (), fun _ => age, met⟩

end Validator

section Found

variable (services : StakeServices) (here : LocalState) (node : NodeState)
  (stakeEntry : CBlockIndex → StakeEntry) (pindexPrev : CBlockIndex) (stakeInput : CStakeInput)
  (nBits : UInt32) (nTimeTx t : Int) (hash : Uint256)

theorem stake_origin
    (staked : stake services here node stakeEntry pindexPrev stakeInput nBits nTimeTx =
      .ok (t, hash)) :
    dereferencesNull services node stakeInput = false ∧
      getIndexFrom services node stakeInput ≠ [] ∧
      (services.params.isStakeModifierV2 pindexPrev.nHeight = true →
        services.params.nStakeMinDepth ≤
          pindexPrev.nHeight + 1 - (getIndexFrom services node stakeInput).nHeight) := by
  unfold stake at staked
  simp only [refuse, bind_eq_ok, attempt_eq_ok, require_eq_ok, exists_const, Bool.and_eq_true,
    Bool.not_eq_true', List.isEmpty_eq_false_iff] at staked
  obtain ⟨notNull, origin, rest⟩ := staked
  refine ⟨notNull, origin.1, ?_⟩
  intro modifierV2
  split at rest
  · simp only [bind_eq_ok, attempt_eq_ok, require_eq_ok, exists_const, decide_eq_true_eq] at rest
    omega
  · simp only [bind_eq_ok, attempt_eq_ok, require_eq_ok, exists_const, modifierV2, Bool.not_true,
      Bool.false_or] at rest
    exact (hasStakeMinAgeOrDepth_iff _ _ _ _ _ modifierV2).mp rest.1

theorem stake_slot
    (timeV2 : services.params.isTimeProtocolV2 (pindexPrev.nHeight + 1) = true)
    (staked : stake services here node stakeEntry pindexPrev stakeInput nBits nTimeTx =
      .ok (t, hash)) :
    t = getTimeSlot services.params here.getAdjustedTime ∧
      ((entryTime pindexPrev).toNat < t ∨ services.params.networkID = .regtest) ∧
      checkStakeKernelHash services node stakeEntry pindexPrev nBits stakeInput (toUnsigned t) =
        .ok hash := by
  unfold stake at staked
  simp only [refuse, bind_eq_ok, attempt_eq_ok, require_eq_ok, exists_const, timeV2, if_true,
    Except.ok.injEq, Prod.mk.injEq, Bool.or_eq_true, decide_eq_true_eq, beq_iff_eq] at staked
  obtain ⟨_, _, _, later, found, met, slot, same⟩ := staked
  rw [← slot, ← same]
  exact ⟨rfl, later, met⟩

theorem stake_first
    (timeV1 : services.params.isTimeProtocolV2 (pindexPrev.nHeight + 1) = false)
    (staked : stake services here node stakeEntry pindexPrev stakeInput nBits nTimeTx =
      .ok (t, hash)) :
    ∃ time : UInt32, t = time.toNat ∧ timeBefore nTimeTx < time ∧
      time ≤ maxTime services.params here nTimeTx ∧
      checkStakeKernelHash services node stakeEntry pindexPrev nBits stakeInput time = .ok hash ∧
      ∀ earlier : UInt32, timeBefore nTimeTx < earlier → earlier < time →
        ¬ MeetsKernel services node stakeEntry pindexPrev nBits stakeInput earlier := by
  unfold stake at staked
  simp only [refuse, bind_eq_ok, attempt_eq_ok, require_eq_ok, exists_const, timeV1,
    Bool.false_eq_true, if_false, Except.ok.injEq, Prod.mk.injEq] at staked
  obtain ⟨_, _, _, found, search, time, same⟩ := staked
  have bound : (maxTime services.params here nTimeTx).toNat < 2 ^ 32 := UInt32.toNat_lt _
  have start : (timeBefore nTimeTx).toNat < 2 ^ 32 := UInt32.toNat_lt _
  have first := searchKernel_first services node stakeEntry pindexPrev nBits stakeInput
    ((maxTime services.params here nTimeTx).toNat - (timeBefore nTimeTx).toNat)
    (timeBefore nTimeTx) found.1 found.2 (by omega) search
  refine ⟨found.1, time.symm, first.1, ?_, ?_, first.2.2.2⟩
  · rw [UInt32.le_iff_toNat_le]
    omega
  · rw [← same]
    exact first.2.2.1

end Found

section Time

variable (services : AcceptServices) (here : LocalState) (node : NodeState)
  (stakeEntry : CBlockIndex → StakeEntry) (stakeInput : CStakeInput) (nBits : UInt32)
  (nTimeTx : Int)

theorem toUnsigned_le (number : Int) (positive : 0 ≤ number) :
    ((toUnsigned number).toNat : Int) ≤ number := by
  unfold toUnsigned
  rw [UInt32.toNat_ofNat']
  omega

theorem toUnsigned_toNat (word : UInt32) : toUnsigned word.toNat = word := by
  have bound : word.toNat < 2 ^ 32 := UInt32.toNat_lt _
  apply UInt32.toNat_inj.mp
  unfold toUnsigned
  rw [UInt32.toNat_ofNat']
  omega

theorem entryTime_toNat (pindex : CBlockIndex) :
    ((entryTime pindex).toNat : Int) = pindex.getBlockTime := by
  cases pindex with
  | nil => rfl
  | cons block pprev => rfl

theorem checkBlockTime_iff (mainnet : services.params.networkID = .main) (block : CBlock)
    (pindexPrev : CBlockIndex) :
    checkBlockTime services here block pindexPrev = .ok () ↔
      block.getBlockTime ≤ pindexPrev.maxFutureBlockTime services.params here.getAdjustedTime ∧
      pindexPrev.minPastBlockTime services.params < block.getBlockTime ∧
      services.params.isValidBlockTimeStamp block.getBlockTime (pindexPrev.nHeight + 1) = true := by
  unfold checkBlockTime
  rw [if_neg (fun other => other mainnet)]
  simp only [dos, bind_eq_ok, require_eq_ok, exists_const, decide_eq_true_eq]

theorem slot_passes (mainnet : services.params = mainParams) (block : CBlock)
    (pindexPrev : CBlockIndex)
    (timeV2 : services.params.isTimeProtocolV2 (pindexPrev.nHeight + 1) = true)
    (slot : block.getBlockTime = getTimeSlot services.params here.getAdjustedTime)
    (later : pindexPrev.getBlockTime < block.getBlockTime) :
    checkBlockTime services here block pindexPrev = .ok () := by
  have onMain : services.params.networkID = .main := by rw [mainnet]; rfl
  have length : services.params.nTimeSlotLength = 15 := by rw [mainnet]; rfl
  have drifts : 15 - 1 ≤ services.params.nFutureTimeDriftPoS ∧
      services.params.nFutureTimeDriftPoS ≤ services.params.nFutureTimeDriftPoW := by
    rw [mainnet]
    decide
  unfold getTimeSlot at slot
  rw [length] at slot
  have whole := Int.tdiv_mul_add_tmod here.getAdjustedTime 15
  have remainder := Int.lt_tmod_of_pos here.getAdjustedTime (show (0 : Int) < 15 by decide)
  apply (checkBlockTime_iff services here onMain block pindexPrev).mpr
  refine ⟨?_, ?_, ?_⟩
  · unfold CBlockIndex.maxFutureBlockTime CChainParams.futureBlockTimeDrift
    rw [timeV2, if_pos rfl, length]
    omega
  · unfold CBlockIndex.minPastBlockTime CChainParams.futureBlockTimeDrift
    rw [timeV2, length]
    simp only [Bool.not_true, Bool.false_eq_true, if_false, if_true]
    split
    · split
      · omega
      · split
        · omega
        · omega
    · exact later
  · unfold CChainParams.isValidBlockTimeStamp
    rw [timeV2, length, slot, Int.mul_tmod_left]
    rfl

theorem checkBlockTime_first (mainnet : services.params = mainParams)
    (clock : 0 ≤ here.getAdjustedTime) (starts : 0 ≤ nTimeTx) (block : CBlock)
    (pindexPrev : CBlockIndex)
    (timeV1 : services.params.isTimeProtocolV2 (pindexPrev.nHeight + 1) = false)
    (inWindow : block.nTime ≤ maxTime services.params here nTimeTx) :
    checkBlockTime services here block pindexPrev = .ok () ↔
      pindexPrev.getMedianTimePast < block.getBlockTime := by
  have onMain : services.params.networkID = .main := by rw [mainnet]; rfl
  have drifts : services.params.nFutureTimeDriftPoS = 180 ∧
      services.params.nFutureTimeDriftPoW = 7200 := by
    rw [mainnet]
    exact ⟨rfl, rfl⟩
  have window : block.getBlockTime ≤ here.getAdjustedTime + 180 := by
    have most := toUnsigned_le
      (min (nTimeTx + 60) (maxFutureStakeTime services.params here.getAdjustedTime)) (by
        unfold maxFutureStakeTime
        omega)
    rw [UInt32.le_iff_toNat_le] at inWindow
    unfold maxTime at inWindow
    unfold maxFutureStakeTime at inWindow most
    unfold CBlock.getBlockTime
    omega
  have inTime : block.getBlockTime ≤
      pindexPrev.maxFutureBlockTime services.params here.getAdjustedTime := by
    unfold CBlockIndex.maxFutureBlockTime CChainParams.futureBlockTimeDrift
    rw [timeV1, if_neg (by decide)]
    split
    · omega
    · omega
  have stamp : services.params.isValidBlockTimeStamp block.getBlockTime
      (pindexPrev.nHeight + 1) = true := by
    unfold CChainParams.isValidBlockTimeStamp
    rw [timeV1]
    rfl
  have past : pindexPrev.minPastBlockTime services.params = pindexPrev.getMedianTimePast := by
    unfold CBlockIndex.minPastBlockTime
    rw [timeV1]
    rfl
  rw [checkBlockTime_iff services here onMain, past, stamp]
  exact ⟨fun passes => passes.2.1, fun above => ⟨inTime, above, rfl⟩⟩

/-- No time that `Stake` tries and that is not above the median time past of
the tip meets the target. -/
def NoStaleKernel : Prop :=
  ∀ time : UInt32, timeBefore nTimeTx < time → time ≤ maxTime services.params here nTimeTx →
    (time.toNat : Int) ≤ node.chainActive.getMedianTimePast →
    ¬ MeetsKernel services.toStakeServices node stakeEntry node.chainActive nBits stakeInput time

end Time

/-- The block of a stake passes exactly if the time protocol is V2 or no time up to the median meets
the target, and a mint is deep enough. -/
theorem staked_block_passes_iff (services : AcceptServices)
    (mainnet : services.params = mainParams) (here : LocalState) (node : NodeState)
    (stakeEntry : CBlockIndex → StakeEntry) (stakeInput : CStakeInput)
    (candidate : isCandidate stakeInput = true) (found : FoundByHash node stakeInput)
    (nBits : UInt32) (nTimeTx t : Int) (hash : Uint256) (clock : 0 ≤ here.getAdjustedTime)
    (starts : 0 ≤ nTimeTx)
    (staked : stake services.toStakeServices here node stakeEntry node.chainActive stakeInput nBits
      nTimeTx = .ok (t, hash))
    (block : CBlock)
    (kernel : StakedBlock services.toStakeServices node block stakeInput nBits t) :
    (checkProofOfStake services.toStakeServices node stakeEntry block node.chainActive
        node.chainActive.nHeight = .ok hash ∧
      checkBlockTime services here block node.chainActive = .ok ()) ↔
    (services.params.isTimeProtocolV2 (node.chainActive.nHeight + 1) = true ∨
      NoStaleKernel services here node stakeEntry stakeInput nBits nTimeTx) ∧
    deepEnough services.toStakeServices node stakeInput = true := by
  have starting : services.params.nBlockZerocoinV2 ≤ services.params.nZerocoinStartHeight := by
    rw [mainnet]
    decide
  rcases stake_origin _ here node stakeEntry _ stakeInput nBits nTimeTx t hash staked with
    ⟨notNull, present, aged⟩
  have validator : ∀ met : checkStakeKernelHash services.toStakeServices node stakeEntry
      node.chainActive nBits stakeInput block.nTime = .ok hash,
      checkProofOfStake services.toStakeServices node stakeEntry block node.chainActive
          node.chainActive.nHeight = .ok hash ↔
        deepEnough services.toStakeServices node stakeInput = true := fun met =>
    checkProofOfStake_iff services.toStakeServices node stakeEntry starting block stakeInput nBits
      t hash candidate found notNull present aged met kernel
  cases protocol : services.params.isTimeProtocolV2 (node.chainActive.nHeight + 1) with
  | true =>
    rcases stake_slot _ here node stakeEntry _ stakeInput nBits nTimeTx t hash protocol staked with
      ⟨slot, later, met⟩
    rw [← kernel.nTime, toUnsigned_toNat] at met
    have behind : node.chainActive.getBlockTime < block.getBlockTime := by
      obtain later | regtest := later
      · rw [entryTime_toNat, ← kernel.nTime] at later
        exact later
      · rw [mainnet] at regtest
        cases regtest
    have passes := slot_passes services here mainnet block node.chainActive protocol
      (kernel.nTime.trans slot) behind
    rw [validator met]
    exact ⟨fun deep => ⟨Or.inl rfl, deep.1⟩, fun both => ⟨both.2, passes⟩⟩
  | false =>
    rcases stake_first _ here node stakeEntry _ stakeInput nBits nTimeTx t hash protocol staked with
      ⟨time, isTime, above, below, met, first⟩
    have own : block.nTime = time := by
      apply UInt32.toNat_inj.mp
      have same := kernel.nTime.trans isTime
      omega
    rw [← own] at above below met first
    rw [validator met, checkBlockTime_first services here nTimeTx mainnet clock starts block
      node.chainActive protocol below]
    constructor
    · intro both
      refine ⟨Or.inr ?_, both.1⟩
      intro early afterStart _ stale meets
      apply first early afterStart _ meets
      rw [UInt32.lt_iff_toNat_lt]
      have fresh := both.2
      unfold CBlock.getBlockTime at fresh
      omega
    · intro both
      refine ⟨both.2, ?_⟩
      obtain other | noStale := both.1
      · cases other
      · by_contra stale
        apply noStale block.nTime above below _ ⟨hash, met⟩
        unfold CBlock.getBlockTime at stale
        omega

def minuteBlock (height : Nat) : CBlock :=
  exampleBlock (if height = 0 then mainParams.hashGenesisBlock else BitVec.ofNat 256 (1000 + height))
    (if height = 1 then mainParams.hashGenesisBlock else BitVec.ofNat 256 (999 + height))
    (UInt32.ofNat (1553068993 + 60 * min height 324))
    (if height = 1 then [coinbaseTx 31, stakedTx] else [])

def minuteChain : CBlockIndex := (List.range 330).reverse.map minuteBlock

def stakingNode : NodeState :=
  { mintedNode with
    mapBlockIndex := fun hash => if hash = 1001 then some (minuteChain.drop 328) else none
    chainActive := minuteChain
    fTxIndex := true
    txIndex := fun hash => if hash = 30 then some (1001, stakedTx) else none }

def minuteEntry : CBlockIndex → StakeEntry := fun _ =>
  { nStakeModifier := 1, fGeneratedStakeModifier := true, nStakeModifierV2 := 0 }

def nodeAt (time : Int) : LocalState := { quietNode with getAdjustedTime := time }

def stakedBlock (nTime : UInt32) : CBlock :=
  { stakingBlock 2000 1329 nTime [emptyCoinbaseTx 2001, stakingTx 2002 []] with
    nBits := 0x1e0fffff }

theorem stakedBlock_kernel (nTime : UInt32) :
    StakedBlock mainnetAccepting.toStakeServices stakingNode (stakedBlock nTime)
      (.znnStake stakedTx 0) 0x1e0fffff nTime.toNat where
  nTime := rfl
  nBits := rfl
  kernel :=
    ⟨stakingTx 2002 [], _, rfl, by decide +kernel, rfl, ⟨by decide +kernel, rfl⟩, fun _ _ => rfl⟩

theorem stakedTx_found : FoundByHash stakingNode (.znnStake stakedTx 0) := by
  intro found hashBlock looked
  have own : getTransaction stakingNode stakedTx.hash = some (stakedTx, 1001) := by decide +kernel
  rw [own] at looked
  cases looked
  rfl

/-- `Stake` starts at the time of the tip, which is the median time past. -/
theorem stake_finds_median_time :
    ¬ ∀ (services : AcceptServices) (_ : services.params = mainParams) (here : LocalState)
        (node : NodeState) (stakeEntry : CBlockIndex → StakeEntry) (stakeInput : CStakeInput)
        (nBits : UInt32) (t : Int) (hash : Uint256) (block : CBlock),
      isCandidate stakeInput = true → FoundByHash node stakeInput → 0 ≤ here.getAdjustedTime →
      stake services.toStakeServices here node stakeEntry node.chainActive stakeInput nBits
        (max here.getAdjustedTime node.chainActive.getBlockTime) = .ok (t, hash) →
      StakedBlock services.toStakeServices node block stakeInput nBits t →
      checkProofOfStake services.toStakeServices node stakeEntry block node.chainActive
          node.chainActive.nHeight = .ok hash ∧
        checkBlockTime services here block node.chainActive = .ok () := by
  intro passes
  have staked : stake mainnetAccepting.toStakeServices (nodeAt 1553088433) stakingNode minuteEntry
      minuteChain (.znnStake stakedTx 0) 0x1e0fffff 1553088433 = .ok (1553088433, 0) := by
    decide +kernel
  have start : max (nodeAt 1553088433).getAdjustedTime stakingNode.chainActive.getBlockTime =
      1553088433 := by
    decide +kernel
  have inTime := (passes mainnetAccepting rfl (nodeAt 1553088433) stakingNode minuteEntry
    (.znnStake stakedTx 0) 0x1e0fffff 1553088433 0 (stakedBlock 1553088433) rfl stakedTx_found
    (by decide) (by rw [start]; exact staked) (stakedBlock_kernel 1553088433)).2
  have tooOld : checkBlockTime mainnetAccepting (nodeAt 1553088433) (stakedBlock 1553088433)
      minuteChain = dos 50 "time-too-old" := by
    decide +kernel
  have apart := tooOld.symm.trans inTime
  cases apart

/-- A kernel found a second later passes. -/
theorem stake_after_median_time_passes :
    checkProofOfStake mainnetAccepting.toStakeServices stakingNode minuteEntry
        (stakedBlock 1553088434) minuteChain minuteChain.nHeight = .ok 0 ∧
      checkBlockTime mainnetAccepting (nodeAt 1553088434) (stakedBlock 1553088434) minuteChain =
        .ok () := by
  have staked : stake mainnetAccepting.toStakeServices (nodeAt 1553088434) stakingNode minuteEntry
      minuteChain (.znnStake stakedTx 0) 0x1e0fffff 1553088434 = .ok (1553088434, 0) := by
    decide +kernel
  have median : minuteChain.getMedianTimePast = 1553088433 := by decide +kernel
  have before : timeBefore 1553088434 = 1553088433 := by decide
  have noStale : NoStaleKernel mainnetAccepting (nodeAt 1553088434) stakingNode minuteEntry
      (.znnStake stakedTx 0) 0x1e0fffff 1553088434 := by
    intro time above _ stale
    have onMedian : (time.toNat : Int) ≤ 1553088433 := stale.trans (le_of_eq median)
    rw [before, UInt32.lt_iff_toNat_lt, show (1553088433 : UInt32).toNat = 1553088433 from rfl]
      at above
    omega
  exact (staked_block_passes_iff mainnetAccepting rfl (nodeAt 1553088434) stakingNode minuteEntry
    (.znnStake stakedTx 0) rfl stakedTx_found 0x1e0fffff 1553088434 1553088434 0 (by decide)
    (by decide) staked (stakedBlock 1553088434) (stakedBlock_kernel 1553088434)).mpr
    ⟨Or.inr noStale, rfl⟩

end ZenonCore.Staking
