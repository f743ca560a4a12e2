import ZenonCore.Interpreter
import ZenonCore.ValueGate

/-!
# Script flags only restrict

What passes under some flags passes under fewer, but for `OP_NOP2`.
-/

namespace ZenonCore.ScriptFlags

open Interpreter List
open Chain (CBlockIndex)
open Chainstate (Services)
open Coins (CCoinsView)
open ConnectBlock
open Primitives
open Script
open ScriptNum
open Strictness
open Validation (bind_eq_ok)
open ValueGate (mainnetServices)

/-- The masks of the checks that a flag demands, `OP_NOP2` apart. -/
def checkFlags : List UInt32 :=
  [scriptVerifyP2SH, scriptVerifyStrictEnc, scriptVerifyLowS, scriptVerifyNullDummy,
    scriptVerifySigPushOnly, scriptVerifyMinimalData, scriptVerifyDiscourageUpgradableNops,
    scriptVerifyDERSig ||| scriptVerifyLowS ||| scriptVerifyStrictEnc]

/-- The order on flags for `OP_NOP2`: it does nothing, checks the lock time or is refused. -/
structure Relaxes (lax strict : UInt32) : Prop where
  checks : ∀ flag ∈ checkFlags, hasFlag lax flag = true → hasFlag strict flag = true
  lockTime : hasFlag lax scriptVerifyCheckLockTimeVerify = true →
    hasFlag strict scriptVerifyCheckLockTimeVerify = true ∨
      hasFlag strict scriptVerifyDiscourageUpgradableNops = true
  refuses : hasFlag lax scriptVerifyDiscourageUpgradableNops = true →
    hasFlag strict scriptVerifyCheckLockTimeVerify = true →
    hasFlag lax scriptVerifyCheckLockTimeVerify = true

theorem checks_of_all (lax strict : UInt32)
    (all : checkFlags.all (fun flag => !hasFlag lax flag || hasFlag strict flag) = true) :
    ∀ flag ∈ checkFlags, hasFlag lax flag = true → hasFlag strict flag = true := by
  intro flag isCheck has
  have checked := all_eq_true.mp all flag isCheck
  rw [has] at checked
  exact checked

theorem hasFlag_subset (lax strict flag : UInt32) (subset : lax &&& strict = lax)
    (has : hasFlag lax flag = true) : hasFlag strict flag = true := by
  rw [hasFlag, bne_iff_ne] at has ⊢
  intro missing
  apply has
  calc lax &&& flag = lax &&& strict &&& flag := by rw [subset]
    _ = lax &&& (strict &&& flag) := UInt32.and_assoc _ _ _
    _ = 0 := by rw [missing, UInt32.and_zero]

theorem relaxes_of_subset (lax strict : UInt32) (subset : lax &&& strict = lax)
    (refuses : hasFlag lax scriptVerifyDiscourageUpgradableNops = true →
      hasFlag strict scriptVerifyCheckLockTimeVerify = true →
      hasFlag lax scriptVerifyCheckLockTimeVerify = true) : Relaxes lax strict where
  checks := fun flag _ => hasFlag_subset lax strict flag subset
  lockTime := fun has => Or.inl (hasFlag_subset lax strict _ subset has)
  refuses := refuses

section Monotone

variable (crypto : Crypto) (checker : BaseSignatureChecker) (lax strict : UInt32)

/-! ## Encodings -/

theorem checkSignatureEncoding_restricts (relaxes : Relaxes lax strict) (vchSig : Bytes) :
    Restricts (checkSignatureEncoding crypto strict vchSig)
      (checkSignatureEncoding crypto lax vchSig) := by
  apply Restricts.ite
  · intro _
    exact Restricts.refl _
  · intro _
    apply Restricts.bind (Restricts.demand (relaxes.checks _ (by decide)) (Restricts.refl _))
    intro _
    apply Restricts.bind (Restricts.demand (relaxes.checks _ (by decide)) (Restricts.refl _))
    intro _
    exact Restricts.demand (relaxes.checks _ (by decide)) (Restricts.refl _)

theorem checkPubKeyEncoding_restricts (relaxes : Relaxes lax strict) (vchPubKey : Bytes) :
    Restricts (checkPubKeyEncoding strict vchPubKey) (checkPubKeyEncoding lax vchPubKey) :=
  Restricts.demand (relaxes.checks _ (by decide)) (Restricts.refl _)

theorem number_restricts (relaxes : Relaxes lax strict) (nMaxNumSize : Nat) (vch : Bytes) :
    Restricts (scriptNum (fRequireMinimal strict) nMaxNumSize vch)
      (scriptNum (fRequireMinimal lax) nMaxNumSize vch) :=
  scriptNum_restricts (relaxes.checks _ (by decide)) nMaxNumSize vch

/-! ## Opcodes -/

theorem discouraged_restricts (relaxes : Relaxes lax strict) (machine : Machine) :
    Restricts
      (demand (hasFlag strict scriptVerifyDiscourageUpgradableNops)
        (.error .discourageUpgradableNops) >>= fun _ => Except.ok machine)
      (demand (hasFlag lax scriptVerifyDiscourageUpgradableNops)
        (.error ScriptError.discourageUpgradableNops) >>= fun _ => Except.ok machine) := by
  apply Restricts.bind
  · exact Restricts.demand (relaxes.checks _ (by decide)) (Restricts.refl _)
  · intro _
    exact Restricts.refl _

theorem checkLockTimeVerify_restricts (relaxes : Relaxes lax strict) (machine : Machine) :
    Restricts (checkLockTimeVerify strict checker machine)
      (checkLockTimeVerify lax checker machine) := by
  obtain ⟨stack, altstack, vfExec, nOpCount, code⟩ := machine
  cases laxly : hasFlag lax scriptVerifyCheckLockTimeVerify with
  | false =>
    cases strictly : hasFlag strict scriptVerifyCheckLockTimeVerify with
    | false =>
      rw [checkLockTimeVerify, checkLockTimeVerify, laxly, strictly]
      exact discouraged_restricts lax strict relaxes _
    | true =>
      -- The lax flags neither check the lock time nor discourage the opcode.
      have allowed : hasFlag lax scriptVerifyDiscourageUpgradableNops = false := by
        apply Bool.eq_false_iff.mpr
        intro discouraged
        have enabled := relaxes.refuses discouraged strictly
        rw [laxly] at enabled
        cases enabled
      rw [checkLockTimeVerify, checkLockTimeVerify, laxly, strictly, allowed]
      cases stack with
      | nil => exact Restricts.error _ _
      | cons top rest =>
        apply Restricts.after
        intro _
        apply Restricts.after
        intro _
        apply Restricts.after
        intro _
        exact Restricts.refl _
  | true =>
    cases strictly : hasFlag strict scriptVerifyCheckLockTimeVerify with
    | false =>
      have discouraged : hasFlag strict scriptVerifyDiscourageUpgradableNops = true := by
        obtain enabled | discouraged := relaxes.lockTime laxly
        · rw [strictly] at enabled
          cases enabled
        · exact discouraged
      rw [checkLockTimeVerify, strictly, discouraged]
      exact Restricts.error _ _
    | true =>
      rw [checkLockTimeVerify, checkLockTimeVerify, laxly, strictly]
      cases stack with
      | nil => exact Restricts.refl _
      | cons top rest =>
        apply Restricts.bind (number_restricts lax strict relaxes 5 top)
        intro _
        exact Restricts.refl _

theorem pickOrRoll_restricts (relaxes : Relaxes lax strict) (opcode : UInt8)
    (machine : Machine) :
    Restricts (pickOrRoll strict opcode machine) (pickOrRoll lax opcode machine) := by
  obtain ⟨stack, altstack, vfExec, nOpCount, code⟩ := machine
  obtain _ | ⟨top, _ | ⟨second, below⟩⟩ := stack
  · exact Restricts.refl _
  · exact Restricts.refl _
  · apply Restricts.bind (number_restricts lax strict relaxes _ top)
    intro _
    exact Restricts.refl _

theorem unaryNumeric_restricts (relaxes : Relaxes lax strict) (opcode : UInt8)
    (machine : Machine) :
    Restricts (unaryNumeric strict opcode machine) (unaryNumeric lax opcode machine) := by
  obtain ⟨stack, altstack, vfExec, nOpCount, code⟩ := machine
  cases stack with
  | nil => exact Restricts.refl _
  | cons top rest =>
    apply Restricts.bind (number_restricts lax strict relaxes _ top)
    intro _
    exact Restricts.refl _

theorem binaryNumeric_restricts (relaxes : Relaxes lax strict) (opcode : UInt8)
    (machine : Machine) :
    Restricts (binaryNumeric strict opcode machine) (binaryNumeric lax opcode machine) := by
  obtain ⟨stack, altstack, vfExec, nOpCount, code⟩ := machine
  obtain _ | ⟨top, _ | ⟨second, rest⟩⟩ := stack
  · exact Restricts.refl _
  · exact Restricts.refl _
  · apply Restricts.bind (number_restricts lax strict relaxes _ second)
    intro _
    apply Restricts.bind (number_restricts lax strict relaxes _ top)
    intro _
    exact Restricts.refl _

theorem within_restricts (relaxes : Relaxes lax strict) (machine : Machine) :
    Restricts (within strict machine) (within lax machine) := by
  obtain ⟨stack, altstack, vfExec, nOpCount, code⟩ := machine
  obtain _ | ⟨top, _ | ⟨second, _ | ⟨third, rest⟩⟩⟩ := stack
  · exact Restricts.refl _
  · exact Restricts.refl _
  · exact Restricts.refl _
  · apply Restricts.bind (number_restricts lax strict relaxes _ third)
    intro _
    apply Restricts.bind (number_restricts lax strict relaxes _ second)
    intro _
    apply Restricts.bind (number_restricts lax strict relaxes _ top)
    intro _
    exact Restricts.refl _

theorem checkSigOp_restricts (relaxes : Relaxes lax strict) (opcode : UInt8)
    (machine : Machine) :
    Restricts (checkSigOp crypto strict checker opcode machine)
      (checkSigOp crypto lax checker opcode machine) := by
  obtain ⟨stack, altstack, vfExec, nOpCount, code⟩ := machine
  obtain _ | ⟨vchPubKey, _ | ⟨vchSig, rest⟩⟩ := stack
  · exact Restricts.refl _
  · exact Restricts.refl _
  · apply Restricts.bind (checkSignatureEncoding_restricts crypto lax strict relaxes vchSig)
    intro _
    apply Restricts.bind (checkPubKeyEncoding_restricts lax strict relaxes vchPubKey)
    intro _
    exact Restricts.refl _

/-- Both runs try the same signatures on the same keys, whether they match or not. -/
theorem matchSignatures_restricts (relaxes : Relaxes lax strict) (scriptCode : CScript)
    (sigs keys : List Bytes) :
    Restricts (matchSignatures crypto strict checker scriptCode sigs keys)
      (matchSignatures crypto lax checker scriptCode sigs keys) := by
  induction keys generalizing sigs with
  | nil =>
    cases sigs with
    | nil => exact Restricts.refl _
    | cons vchSig sigs => exact Restricts.refl _
  | cons vchPubKey keys ih =>
    cases sigs with
    | nil => exact Restricts.refl _
    | cons vchSig sigs =>
      rw [matchSignatures, matchSignatures]
      apply Restricts.bind
        (checkSignatureEncoding_restricts crypto lax strict relaxes vchSig)
      intro _
      apply Restricts.bind (checkPubKeyEncoding_restricts lax strict relaxes vchPubKey)
      intro _
      apply Restricts.ite
      · intro _
        exact Restricts.refl _
      · intro _
        exact ih _

theorem checkMultiSigOp_restricts (relaxes : Relaxes lax strict) (opcode : UInt8)
    (machine : Machine) :
    Restricts (checkMultiSigOp crypto strict checker opcode machine)
      (checkMultiSigOp crypto lax checker opcode machine) := by
  obtain ⟨stack, altstack, vfExec, nOpCount, code⟩ := machine
  cases stack with
  | nil => exact Restricts.refl _
  | cons top belowCount =>
    apply Restricts.bind (number_restricts lax strict relaxes _ top)
    intro keysNumber
    apply Restricts.bind (Restricts.refl _)
    intro _
    apply Restricts.bind (Restricts.refl _)
    intro _
    cases belowCount.drop (getint keysNumber).toNat with
    | nil => exact Restricts.refl _
    | cons second belowKeys =>
      apply Restricts.bind (number_restricts lax strict relaxes _ second)
      intro sigsNumber
      apply Restricts.bind (Restricts.refl _)
      intro _
      cases belowKeys.drop (getint sigsNumber).toNat with
      | nil => exact Restricts.refl _
      | cons dummy rest =>
        apply Restricts.bind
          (matchSignatures_restricts crypto checker lax strict relaxes _ _ _)
        intro _
        apply Restricts.bind
        · exact Restricts.demand (relaxes.checks _ (by decide)) (Restricts.refl _)
        · intro _
          exact Restricts.refl _

/-- Every opcode accepts under the lax flags what it accepts under the strict
ones, and leaves the same machine. -/
theorem execute_restricts (relaxes : Relaxes lax strict) (opcode : UInt8) (fExec : Bool)
    (pc : CScript) (machine : Machine) :
    Restricts (execute crypto strict checker opcode fExec pc machine)
      (execute crypto lax checker opcode fExec pc machine) := by
  unfold execute
  refine Restricts.ite _ (fun _ => Restricts.refl _) (fun _ => ?_)
  refine Restricts.ite _ (fun _ => Restricts.refl _) (fun _ => ?_)
  refine Restricts.ite _
    (fun _ => checkLockTimeVerify_restricts checker lax strict relaxes machine) (fun _ => ?_)
  refine Restricts.ite _ (fun _ => discouraged_restricts lax strict relaxes machine)
    (fun _ => ?_)
  -- The conditionals, the control opcodes and most stack opcodes read no flag.
  refine Restricts.ite _ (fun _ => Restricts.refl _) (fun _ => ?_)
  refine Restricts.ite _ (fun _ => Restricts.refl _) (fun _ => ?_)
  refine Restricts.ite _ (fun _ => Restricts.refl _) (fun _ => ?_)
  refine Restricts.ite _ (fun _ => Restricts.refl _) (fun _ => ?_)
  refine Restricts.ite _ (fun _ => Restricts.refl _) (fun _ => ?_)
  refine Restricts.ite _ (fun _ => Restricts.refl _) (fun _ => ?_)
  refine Restricts.ite _ (fun _ => pickOrRoll_restricts lax strict relaxes opcode machine)
    (fun _ => ?_)
  refine Restricts.ite _ (fun _ => Restricts.refl _) (fun _ => ?_)
  refine Restricts.ite _ (fun _ => unaryNumeric_restricts lax strict relaxes opcode machine)
    (fun _ => ?_)
  refine Restricts.ite _ (fun _ => binaryNumeric_restricts lax strict relaxes opcode machine)
    (fun _ => ?_)
  refine Restricts.ite _ (fun _ => within_restricts lax strict relaxes machine) (fun _ => ?_)
  refine Restricts.ite _ (fun _ => Restricts.refl _) (fun _ => ?_)
  refine Restricts.ite _ (fun _ => Restricts.refl _) (fun _ => ?_)
  refine Restricts.ite _
    (fun _ => checkSigOp_restricts crypto checker lax strict relaxes opcode machine)
    (fun _ => ?_)
  exact Restricts.ite _
    (fun _ => checkMultiSigOp_restricts crypto checker lax strict relaxes opcode machine)
    (fun _ => Restricts.refl _)

/-! ## Runs -/

theorem pushOrExecute_restricts (relaxes : Relaxes lax strict) (opcode : UInt8)
    (vchPushValue pc : CScript) (fExec : Bool) (machine : Machine) :
    Restricts (pushOrExecute crypto strict checker opcode vchPushValue pc fExec machine)
      (pushOrExecute crypto lax checker opcode vchPushValue pc fExec machine) := by
  apply Restricts.ite
  · intro _
    apply Restricts.bind (Restricts.demand (relaxes.checks _ (by decide)) (Restricts.refl _))
    intro _
    exact Restricts.refl _
  · intro _
    apply Restricts.ite
    · intro _
      exact execute_restricts crypto checker lax strict relaxes opcode fExec pc machine
    · intro _
      exact Restricts.refl _

theorem evalInstruction_restricts (relaxes : Relaxes lax strict) (opcode : UInt8)
    (vchPushValue pc : CScript) (machine : Machine) :
    Restricts (evalInstruction crypto strict checker opcode vchPushValue pc machine)
      (evalInstruction crypto lax checker opcode vchPushValue pc machine) := by
  apply Restricts.bind (Restricts.refl _)
  intro _
  apply Restricts.bind (Restricts.refl _)
  intro _
  apply Restricts.bind (Restricts.refl _)
  intro _
  apply Restricts.bind
  · exact pushOrExecute_restricts crypto checker lax strict relaxes opcode _ pc _ _
  · intro _
    exact Restricts.refl _

theorem evalStep_restricts (relaxes : Relaxes lax strict) (state : CScript × Machine) :
    Restricts (evalStep crypto strict checker state) (evalStep crypto lax checker state) := by
  unfold evalStep
  cases getOp state.1 with
  | none => exact Restricts.refl _
  | some read =>
    obtain ⟨opcode, vchPushValue, pc⟩ := read
    apply Restricts.bind
    · exact evalInstruction_restricts crypto checker lax strict relaxes opcode _ pc _
    · intro _
      exact Restricts.refl _

theorem evalScript_restricts (relaxes : Relaxes lax strict) (stack : List Bytes)
    (script : CScript) :
    Restricts (evalScript crypto strict checker stack script)
      (evalScript crypto lax checker stack script) := by
  apply Restricts.bind (Restricts.refl _)
  intro _
  apply Restricts.bind
  · apply Restricts.loop
    exact evalStep_restricts crypto checker lax strict relaxes
  · intro _
    exact Restricts.refl _

theorem verifyScriptHash_restricts (relaxes : Relaxes lax strict) (scriptSig : CScript)
    (stackCopy : List Bytes) :
    Restricts (verifyScriptHash crypto strict checker scriptSig stackCopy)
      (verifyScriptHash crypto lax checker scriptSig stackCopy) := by
  apply Restricts.bind (Restricts.refl _)
  intro _
  cases stackCopy with
  | nil => exact Restricts.refl _
  | cons pubKeySerialized rest =>
    apply Restricts.bind
    · exact evalScript_restricts crypto checker lax strict relaxes rest pubKeySerialized
    · intro _
      exact Restricts.refl _

theorem verifyScript_restricts (relaxes : Relaxes lax strict)
    (scriptSig scriptPubKey : CScript) :
    Restricts (verifyScript crypto strict checker scriptSig scriptPubKey)
      (verifyScript crypto lax checker scriptSig scriptPubKey) := by
  apply Restricts.bind (Restricts.demand (relaxes.checks _ (by decide)) (Restricts.refl _))
  intro _
  apply Restricts.bind (evalScript_restricts crypto checker lax strict relaxes [] scriptSig)
  intro stackCopy
  apply Restricts.bind
    (evalScript_restricts crypto checker lax strict relaxes stackCopy scriptPubKey)
  intro stack
  apply Restricts.bind (Restricts.refl _)
  intro _
  apply Restricts.demand
  · intro second
    rw [Bool.and_eq_true] at second ⊢
    exact ⟨relaxes.checks _ (by decide) second.1, second.2⟩
  · exact verifyScriptHash_restricts crypto checker lax strict relaxes scriptSig stackCopy

end Monotone

/-! ## The order is exact -/

def allFlags : UInt32 := 1023

def lockTimeScript : CScript := [op0, opCheckLockTimeVerify, opDrop]

def identityCrypto : Crypto where
  ripemd160 := id
  sha1 := id
  sha256 := id
  hash160 := id
  hash256 := id
  checkLowS := fun _ => true

/-- A checker of a transaction that any lock time is open to. -/
def openChecker : BaseSignatureChecker where
  checkSig := fun _ _ _ => true
  checkLockTime := fun _ => true

theorem lockTimeScript_passes (strict : UInt32)
    (enabled : hasFlag strict scriptVerifyCheckLockTimeVerify = true) :
    verifyScript identityCrypto strict openChecker [op1] lockTimeScript = .ok ⟨⟩ := by
  have relaxes : Relaxes strict allFlags :=
    { checks := fun flag isCheck _ =>
        all_eq_true.mp (by decide : checkFlags.all (hasFlag allFlags) = true) flag isCheck
      lockTime := fun _ => Or.inl (by decide)
      refuses := fun _ _ => enabled }
  apply verifyScript_restricts identityCrypto openChecker strict allFlags relaxes
  decide +kernel

theorem lockTimeScript_fails (lax : UInt32)
    (discouraged : hasFlag lax scriptVerifyDiscourageUpgradableNops = true)
    (disabled : hasFlag lax scriptVerifyCheckLockTimeVerify = false) :
    verifyScript identityCrypto lax openChecker [op1] lockTimeScript ≠ .ok ⟨⟩ := by
  intro passes
  have relaxes : Relaxes scriptVerifyDiscourageUpgradableNops lax :=
    { checks := fun flag isCheck has => by
        have all : checkFlags.all (fun flag => !hasFlag scriptVerifyDiscourageUpgradableNops flag ||
            flag == scriptVerifyDiscourageUpgradableNops) = true := by decide
        have only := all_eq_true.mp all flag isCheck
        rw [has] at only
        rw [eq_of_beq only]
        exact discouraged
      lockTime := fun has => absurd has (by decide)
      refuses := fun _ enabled => by
        rw [disabled] at enabled
        cases enabled }
  have first := verifyScript_restricts identityCrypto openChecker _ lax relaxes _ _ _ passes
  revert first
  decide +kernel

/-! ## Transactions from the pool to a block -/

section Transactions

/-- `CScriptCheck::operator()`: the script of the input against that of its output. -/
def verifyInput (crypto : Crypto) (checkerOf : CTransaction → Nat → BaseSignatureChecker)
    (txout : CTxOut) (tx : CTransaction) (nIn : Nat) (flags : UInt32) : Bool :=
  match tx.vin[nIn]? with
  | none => false
  | some txin =>
    (verifyScript crypto flags (checkerOf tx nIn) txin.scriptSig txout.scriptPubKey).isOk

/-- The services with the interpreter as their script check. -/
def interpreting (services : Services) (crypto : Crypto)
    (checkerOf : CTransaction → Nat → BaseSignatureChecker) : Services :=
  { services with scriptCheck := verifyInput crypto checkerOf }

def lockTimeFlag (fCLTVHasMajority : Bool) : UInt32 :=
  if fCLTVHasMajority then scriptVerifyCheckLockTimeVerify else 0

theorem verifyInput_relaxes (crypto : Crypto)
    (checkerOf : CTransaction → Nat → BaseSignatureChecker) (lax strict : UInt32)
    (relaxes : Relaxes lax strict) (txout : CTxOut) (tx : CTransaction) (nIn : Nat)
    (passes : verifyInput crypto checkerOf txout tx nIn strict = true) :
    verifyInput crypto checkerOf txout tx nIn lax = true := by
  unfold verifyInput at passes ⊢
  cases input : tx.vin[nIn]? with
  | none =>
    rw [input] at passes
    cases passes
  | some txin =>
    simp only [input] at passes ⊢
    cases verified : verifyScript crypto strict (checkerOf tx nIn) txin.scriptSig
        txout.scriptPubKey with
    | error failure =>
      rw [verified] at passes
      cases passes
    | ok done =>
      rw [verifyScript_restricts crypto _ lax strict relaxes _ _ done verified]
      rfl

/-- Whatever the lock times of pool and block, the block's flags are laxer than the standard ones.
-/
theorem block_flags_relax (inPool inBlock : Bool) (flags : UInt32)
    (used : flags = scriptVerifyP2SH ∨ flags = scriptVerifyP2SH ||| scriptVerifyDERSig) :
    Relaxes (flags ||| lockTimeFlag inBlock)
      (standardScriptVerifyFlags ||| lockTimeFlag inPool) := by
  obtain mandatory | block := used
  · subst mandatory
    constructor
    · apply checks_of_all
      revert inPool inBlock
      decide
    · revert inPool inBlock
      decide
    · revert inPool inBlock
      decide
  · subst block
    constructor
    · apply checks_of_all
      revert inPool inBlock
      decide
    · revert inPool inBlock
      decide
    · revert inPool inBlock
      decide

variable (services : Services)

theorem scriptFailure_fails (check : CScriptCheck) (done : Unit) :
    scriptFailure services check ≠ .ok done := by
  unfold scriptFailure
  split_ifs
  · exact fun passed => by cases passed
  · exact fun passed => by cases passed

theorem checkInputs_scripts (tx : CTransaction) (view : CCoinsView)
    (nSpendHeight : Int) (flags : UInt32) (checks : List CScriptCheck)
    (ordinary : (!tx.isCoinBase && !tx.hasZerocoinSpendInputs) = true)
    (passed : checkInputs services tx view nSpendHeight true flags false = .ok checks) :
    ∀ check ∈ scriptChecks view tx flags, check.run services = true := by
  unfold checkInputs at passed
  rw [if_pos ordinary] at passed
  simp only [bind_eq_ok] at passed
  obtain ⟨_, _, _, _, _, _, scripts⟩ := passed
  rw [if_pos trivial, if_neg Bool.false_ne_true] at scripts
  intro check member
  by_contra failed
  cases found : (scriptChecks view tx flags).find? fun check => !check.run services with
  | none =>
    have all := find?_eq_none.mp found check member
    exact all (by simpa using failed)
  | some first =>
    rw [found] at scripts
    simp only [bind_eq_ok] at scripts
    obtain ⟨done, refused, _⟩ := scripts
    exact scriptFailure_fails services first done refused

theorem scriptChecks_relax (crypto : Crypto)
    (checkerOf : CTransaction → Nat → BaseSignatureChecker) (tx : CTransaction)
    (pool block : CCoinsView) (lax strict : UInt32) (relaxes : Relaxes lax strict)
    (same : ∀ txin ∈ tx.vin,
      block.getOutputFor txin.prevout = pool.getOutputFor txin.prevout)
    (passed : ∀ check ∈ scriptChecks pool tx strict,
      check.run (interpreting services crypto checkerOf) = true) :
    ∀ check ∈ scriptChecks block tx lax,
      check.run (interpreting services crypto checkerOf) = true := by
  intro check member
  obtain ⟨⟨txin, i⟩, input, isCheck⟩ := mem_map.mp member
  have isInput : txin ∈ tx.vin := (mem_zipIdx input).2.2 ▸ getElem_mem _
  have before := passed _ (mem_map.mpr ⟨(txin, i), input, rfl⟩)
  subst isCheck
  rw [CScriptCheck.run] at before ⊢
  simp only [same txin isInput]
  exact verifyInput_relaxes crypto checkerOf lax strict relaxes _ tx i before

end Transactions

/-- Flags only restrict, but for discouraging `OP_NOP2` without the lock time check; and the
standard flags are stricter than those of a block. -/
theorem script_flags_only_restrict (services : Services) (crypto : Crypto)
    (checkerOf : CTransaction → Nat → BaseSignatureChecker) :
    (∀ lax strict : UInt32, lax &&& strict = lax →
      ((∀ (crypto : Crypto) (checker : BaseSignatureChecker) (scriptSig scriptPubKey : CScript),
          verifyScript crypto strict checker scriptSig scriptPubKey = .ok ⟨⟩ →
          verifyScript crypto lax checker scriptSig scriptPubKey = .ok ⟨⟩) ↔
        (hasFlag lax scriptVerifyDiscourageUpgradableNops = true →
          hasFlag strict scriptVerifyCheckLockTimeVerify = true →
          hasFlag lax scriptVerifyCheckLockTimeVerify = true))) ∧
    ∀ (tx : CTransaction) (pool block : CCoinsView) (nSpendHeight : Int)
      (checks : List CScriptCheck) (inPool inBlock : Bool) (pprev : CBlockIndex),
      (!tx.isCoinBase && !tx.hasZerocoinSpendInputs) = true →
      checkInputs (interpreting services crypto checkerOf) tx pool nSpendHeight true
        (standardScriptVerifyFlags ||| lockTimeFlag inPool) false = .ok checks →
      (∀ txin ∈ tx.vin, block.getOutputFor txin.prevout = pool.getOutputFor txin.prevout) →
      (∀ check ∈ scriptChecks block tx (scriptVerifyP2SH ||| lockTimeFlag inBlock),
        check.run (interpreting services crypto checkerOf) = true) ∧
      ∀ check ∈ scriptChecks block tx (blockFlags services pprev),
        check.run (interpreting services crypto checkerOf) = true := by
  constructor
  · intro lax strict subset
    constructor
    · intro restricts discouraged enabled
      by_contra missing
      have disabled := Bool.eq_false_iff.mpr missing
      exact lockTimeScript_fails lax discouraged disabled
        (restricts identityCrypto openChecker _ _ (lockTimeScript_passes strict enabled))
    · intro refuses crypto checker scriptSig scriptPubKey
      have relaxes := relaxes_of_subset lax strict subset refuses
      exact verifyScript_restricts crypto checker lax strict relaxes scriptSig scriptPubKey ⟨⟩
  · intro tx pool block nSpendHeight checks inPool inBlock pprev ordinary accepted same
    have passed := checkInputs_scripts _ tx pool nSpendHeight _ checks ordinary accepted
    constructor
    · exact scriptChecks_relax services crypto checkerOf tx pool block _ _
        (block_flags_relax inPool inBlock _ (Or.inl rfl)) same passed
    · exact scriptChecks_relax services crypto checkerOf tx pool block _ _
        (block_flags_relax inPool _ _ (Or.inr rfl)) same passed

/-- Coins with a lock time and a transaction that spends them. -/
def lockedCoins : CCoinsView where
  coins := fun hash =>
    if hash = 5 then
      some
        { fCoinBase := false
          fCoinStake := false
          vout := [{ nValue := 10 * coin, scriptPubKey := lockTimeScript }]
          nHeight := 1
          nVersion := 1 }
    else none
  hashBlock := 0

def unlockingTx : CTransaction where
  hash := 6
  nVersion := 1
  vin := [{ prevout := { hash := 5, n := 0 }, scriptSig := [op1], nSequence := 0 }]
  vout := [{ nValue := 10 * coin, scriptPubKey := [op1] }]
  nLockTime := 0

theorem unlockingTx_passes_in_block :
    checkInputs (interpreting mainnetServices identityCrypto fun _ _ => openChecker) unlockingTx
        lockedCoins 9 true (standardScriptVerifyFlags ||| lockTimeFlag true) false = .ok [] ∧
      ∀ check ∈ scriptChecks lockedCoins unlockingTx
          (blockFlags mainnetServices [ValueGate.genesisBlock]),
        check.run (interpreting mainnetServices identityCrypto fun _ _ => openChecker) =
          true := by
  have accepted : checkInputs (interpreting mainnetServices identityCrypto fun _ _ => openChecker)
      unlockingTx lockedCoins 9 true (standardScriptVerifyFlags ||| lockTimeFlag true) false =
        .ok [] := by decide +kernel
  refine ⟨accepted, ?_⟩
  exact ((script_flags_only_restrict mainnetServices identityCrypto fun _ _ => openChecker).2
    unlockingTx lockedCoins lockedCoins 9 [] true false [ValueGate.genesisBlock] (by decide)
    accepted (fun _ _ => rfl)).2

/-- A lock time that is open passes under the lock time flag and, without it, is
discouraged. -/
theorem fewer_flags_refuse_lock_time :
    ∃ lax strict : UInt32, lax &&& strict = lax ∧
      verifyScript identityCrypto strict openChecker [op1] lockTimeScript = .ok ⟨⟩ ∧
      verifyScript identityCrypto lax openChecker [op1] lockTimeScript =
        .error .discourageUpgradableNops := by
  refine ⟨scriptVerifyDiscourageUpgradableNops,
    scriptVerifyDiscourageUpgradableNops ||| scriptVerifyCheckLockTimeVerify, ?_, ?_, ?_⟩
  · decide
  · decide +kernel
  · decide +kernel

end ZenonCore.ScriptFlags
