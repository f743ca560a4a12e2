import ZenonCore.ConnectBlock
import ZenonCore.ScriptNum

/-!
# The script interpreter

`EvalScript` and `VerifyScript`. A stack has its top first; hashes, the low S test and the
signature checker come from elsewhere.
-/

namespace ZenonCore.Interpreter

open ConnectBlock (scriptVerifyP2SH scriptVerifyDERSig scriptVerifyCheckLockTimeVerify)
open Script
open ScriptNum
open Strictness

def scriptVerifyStrictEnc : UInt32 := 2
def scriptVerifyLowS : UInt32 := 8
def scriptVerifyNullDummy : UInt32 := 16
def scriptVerifySigPushOnly : UInt32 := 32
def scriptVerifyMinimalData : UInt32 := 64
def scriptVerifyDiscourageUpgradableNops : UInt32 := 128

def hasFlag (flags flag : UInt32) : Bool := flags &&& flag != 0

/-- The functions of the cryptographic library that scripts call. -/
structure Crypto where
  ripemd160 : Bytes → Bytes
  sha1 : Bytes → Bytes
  sha256 : Bytes → Bytes
  hash160 : Bytes → Bytes
  hash256 : Bytes → Bytes
  checkLowS : Bytes → Bool

structure BaseSignatureChecker where
  checkSig : Bytes → Bytes → CScript → Bool
  checkLockTime : Int → Bool

/-! ## Encodings of signatures, keys and pushes -/

def isCompressedOrUncompressedPubKey (vchPubKey : Bytes) : Bool :=
  if vchPubKey.length < 33 then false
  else if vchPubKey.headD 0 = 0x04 then vchPubKey.length = 65
  else if vchPubKey.headD 0 = 0x02 ∨ vchPubKey.headD 0 = 0x03 then vchPubKey.length = 33
  else false

/-- The demands on the integer of a signature that begins at `start` and has
`size` bytes. -/
def isValidInteger (sig : Bytes) (start size : Nat) : Bool :=
  sig.getD (start - 2) 0 == 0x02 && size != 0 && sig.getD start 0 &&& 0x80 == 0 &&
    !(decide (1 < size) && sig.getD start 0 == 0x00 && sig.getD (start + 1) 0 &&& 0x80 == 0)

def isValidSignatureEncoding (sig : Bytes) : Bool :=
  let lenR := (sig.getD 3 0).toNat
  let lenS := (sig.getD (5 + lenR) 0).toNat
  decide (9 ≤ sig.length) && decide (sig.length ≤ 73) && sig.getD 0 0 == 0x30 &&
    (sig.getD 1 0).toNat == sig.length - 3 && decide (5 + lenR < sig.length) &&
    lenR + lenS + 7 == sig.length && isValidInteger sig 4 lenR &&
    isValidInteger sig (lenR + 6) lenS

def isLowDERSignature (crypto : Crypto) (vchSig : Bytes) : Except ScriptError PUnit := do
  ensure (isValidSignatureEncoding vchSig) .sigDer
  ensure (crypto.checkLowS vchSig.dropLast) .sigHighS

def isDefinedHashtypeSignature (vchSig : Bytes) : Bool :=
  let nHashType := vchSig.getLastD 0 &&& ~~~0x80
  !vchSig.isEmpty && decide (1 ≤ nHashType) && decide (nHashType ≤ 3)

def checkSignatureEncoding (crypto : Crypto) (flags : UInt32) (vchSig : Bytes) :
    Except ScriptError PUnit :=
  if vchSig.isEmpty then .ok ⟨⟩
  else do
    demand (hasFlag flags (scriptVerifyDERSig ||| scriptVerifyLowS ||| scriptVerifyStrictEnc))
      (ensure (isValidSignatureEncoding vchSig) .sigDer)
    demand (hasFlag flags scriptVerifyLowS) (isLowDERSignature crypto vchSig)
    demand (hasFlag flags scriptVerifyStrictEnc)
      (ensure (isDefinedHashtypeSignature vchSig) .sigHashtype)

def checkPubKeyEncoding (flags : UInt32) (vchPubKey : Bytes) : Except ScriptError PUnit :=
  demand (hasFlag flags scriptVerifyStrictEnc)
    (ensure (isCompressedOrUncompressedPubKey vchPubKey) .pubkeyType)

def op1Negate : UInt8 := 0x4f

def checkMinimalPush (data : Bytes) (opcode : UInt8) : Bool :=
  if data.length = 0 then opcode = op0
  else if data.length = 1 ∧ 1 ≤ data.headD 0 ∧ data.headD 0 ≤ 16 then
    opcode = op1 + (data.headD 0 - 1)
  else if data.length = 1 ∧ data.headD 0 = 0x81 then opcode = op1Negate
  else if data.length ≤ 75 then opcode.toNat = data.length
  else if data.length ≤ 255 then opcode = opPushData1
  else if data.length ≤ 65535 then opcode = opPushData2
  else true

/-- `FindAndDelete`: at every instruction the copies of `b` that stand there are
taken out. -/
def findAndDeleteFrom (b : CScript) : Nat → CScript → CScript
  | 0, pc => pc
  | fuel + 1, pc =>
    if b.isPrefixOf pc then findAndDeleteFrom b fuel (pc.drop b.length)
    else match getOp pc with
      | none => pc
      | some (_, _, rest) => pc.take (pc.length - rest.length) ++ findAndDeleteFrom b fuel rest

def findAndDelete (script b : CScript) : CScript :=
  if b.isEmpty then script else findAndDeleteFrom b (script.length + 1) script

/-! ## Opcodes -/

def opNop : UInt8 := 0x61
def opIf : UInt8 := 0x63
def opNotIf : UInt8 := 0x64
def opElse : UInt8 := 0x67
def opEndIf : UInt8 := 0x68
def opVerify : UInt8 := 0x69
def opToAltStack : UInt8 := 0x6b
def opFromAltStack : UInt8 := 0x6c
def op2Drop : UInt8 := 0x6d
def op2Dup : UInt8 := 0x6e
def op3Dup : UInt8 := 0x6f
def op2Over : UInt8 := 0x70
def op2Rot : UInt8 := 0x71
def op2Swap : UInt8 := 0x72
def opIfDup : UInt8 := 0x73
def opDepth : UInt8 := 0x74
def opDrop : UInt8 := 0x75
def opNip : UInt8 := 0x77
def opOver : UInt8 := 0x78
def opPick : UInt8 := 0x79
def opRoll : UInt8 := 0x7a
def opRot : UInt8 := 0x7b
def opSwap : UInt8 := 0x7c
def opTuck : UInt8 := 0x7d
def opSize : UInt8 := 0x82
def op1Add : UInt8 := 0x8b
def op1Sub : UInt8 := 0x8c
def opNegate : UInt8 := 0x8f
def opAbs : UInt8 := 0x90
def opNot : UInt8 := 0x91
def op0NotEqual : UInt8 := 0x92
def opAdd : UInt8 := 0x93
def opSub : UInt8 := 0x94
def opBoolAnd : UInt8 := 0x9a
def opBoolOr : UInt8 := 0x9b
def opNumEqual : UInt8 := 0x9c
def opNumEqualVerify : UInt8 := 0x9d
def opNumNotEqual : UInt8 := 0x9e
def opLessThan : UInt8 := 0x9f
def opGreaterThan : UInt8 := 0xa0
def opLessThanOrEqual : UInt8 := 0xa1
def opGreaterThanOrEqual : UInt8 := 0xa2
def opMin : UInt8 := 0xa3
def opMax : UInt8 := 0xa4
def opWithin : UInt8 := 0xa5
def opRipemd160 : UInt8 := 0xa6
def opSha1 : UInt8 := 0xa7
def opSha256 : UInt8 := 0xa8
def opHash256 : UInt8 := 0xaa
def opCodeSeparator : UInt8 := 0xab
def opCheckSigVerify : UInt8 := 0xad
def opCheckMultiSigVerify : UInt8 := 0xaf
def opCheckLockTimeVerify : UInt8 := 0xb1

/-- `OP_CAT`, `OP_SUBSTR`, `OP_LEFT`, `OP_RIGHT`, `OP_INVERT`, `OP_AND`, `OP_OR`,
`OP_XOR`, `OP_2MUL`, `OP_2DIV`, `OP_MUL`, `OP_DIV`, `OP_MOD`, `OP_LSHIFT` and
`OP_RSHIFT`. -/
def disabledOpcodes : List UInt8 :=
  [0x7e, 0x7f, 0x80, 0x81, 0x83, 0x84, 0x85, 0x86, 0x8d, 0x8e, 0x95, 0x96, 0x97, 0x98, 0x99]

def upgradableNops : List UInt8 := [0xb0, 0xb2, 0xb3, 0xb4, 0xb5, 0xb6, 0xb7, 0xb8, 0xb9]

def vchFalse : Bytes := []

def vchTrue : Bytes := [1]

def vchBool (value : Bool) : Bytes := if value then vchTrue else vchFalse

/-- The stack opcodes that neither fail for another reason than a short stack
nor read a number. -/
def stackOp (opcode : UInt8) (stack : List Bytes) : Option (List Bytes) :=
  if opcode = op2Drop then
    match stack with
    | _ :: _ :: rest => some rest
    | _ => none
  else if opcode = op2Dup then
    match stack with
    | x2 :: x1 :: rest => some (x2 :: x1 :: x2 :: x1 :: rest)
    | _ => none
  else if opcode = op3Dup then
    match stack with
    | x3 :: x2 :: x1 :: rest => some (x3 :: x2 :: x1 :: x3 :: x2 :: x1 :: rest)
    | _ => none
  else if opcode = op2Over then
    match stack with
    | x4 :: x3 :: x2 :: x1 :: rest => some (x2 :: x1 :: x4 :: x3 :: x2 :: x1 :: rest)
    | _ => none
  else if opcode = op2Rot then
    match stack with
    | x6 :: x5 :: x4 :: x3 :: x2 :: x1 :: rest =>
      some (x2 :: x1 :: x6 :: x5 :: x4 :: x3 :: rest)
    | _ => none
  else if opcode = op2Swap then
    match stack with
    | x4 :: x3 :: x2 :: x1 :: rest => some (x2 :: x1 :: x4 :: x3 :: rest)
    | _ => none
  else if opcode = opIfDup then
    match stack with
    | x :: rest => some (if castToBool x then x :: x :: rest else x :: rest)
    | _ => none
  else if opcode = opDepth then some (serialize stack.length :: stack)
  else if opcode = opDrop then
    match stack with
    | _ :: rest => some rest
    | _ => none
  else if opcode = opDup then
    match stack with
    | x :: rest => some (x :: x :: rest)
    | _ => none
  else if opcode = opNip then
    match stack with
    | x2 :: _ :: rest => some (x2 :: rest)
    | _ => none
  else if opcode = opOver then
    match stack with
    | x2 :: x1 :: rest => some (x1 :: x2 :: x1 :: rest)
    | _ => none
  else if opcode = opRot then
    match stack with
    | x3 :: x2 :: x1 :: rest => some (x1 :: x3 :: x2 :: rest)
    | _ => none
  else if opcode = opSwap then
    match stack with
    | x2 :: x1 :: rest => some (x1 :: x2 :: rest)
    | _ => none
  else if opcode = opTuck then
    match stack with
    | x2 :: x1 :: rest => some (x2 :: x1 :: x2 :: rest)
    | _ => none
  else
    match stack with
    | x :: rest => some (serialize x.length :: x :: rest)
    | _ => none

def stackOpcodes : List UInt8 :=
  [op2Drop, op2Dup, op3Dup, op2Over, op2Rot, op2Swap, opIfDup, opDepth, opDrop, opDup, opNip,
    opOver, opRot, opSwap, opTuck, opSize]

def boolNum (value : Bool) : Int := if value then 1 else 0

def unaryOp (opcode : UInt8) (bn : Int) : Int :=
  if opcode = op1Add then bn + 1
  else if opcode = op1Sub then bn - 1
  else if opcode = opNegate then -bn
  else if opcode = opAbs then if bn < 0 then -bn else bn
  else if opcode = opNot then boolNum (bn == 0)
  else boolNum (bn != 0)

def unaryOpcodes : List UInt8 := [op1Add, op1Sub, opNegate, opAbs, opNot, op0NotEqual]

def binaryOp (opcode : UInt8) (bn1 bn2 : Int) : Int :=
  if opcode = opAdd then bn1 + bn2
  else if opcode = opSub then bn1 - bn2
  else if opcode = opBoolAnd then boolNum (bn1 != 0 && bn2 != 0)
  else if opcode = opBoolOr then boolNum (bn1 != 0 || bn2 != 0)
  else if opcode = opNumEqual ∨ opcode = opNumEqualVerify then boolNum (bn1 == bn2)
  else if opcode = opNumNotEqual then boolNum (bn1 != bn2)
  else if opcode = opLessThan then boolNum (decide (bn1 < bn2))
  else if opcode = opGreaterThan then boolNum (decide (bn2 < bn1))
  else if opcode = opLessThanOrEqual then boolNum (decide (bn1 ≤ bn2))
  else if opcode = opGreaterThanOrEqual then boolNum (decide (bn2 ≤ bn1))
  else if opcode = opMin then if bn1 < bn2 then bn1 else bn2
  else if bn2 < bn1 then bn1 else bn2

def binaryOpcodes : List UInt8 :=
  [opAdd, opSub, opBoolAnd, opBoolOr, opNumEqual, opNumEqualVerify, opNumNotEqual, opLessThan,
    opGreaterThan, opLessThanOrEqual, opGreaterThanOrEqual, opMin, opMax]

def hashOp (crypto : Crypto) (opcode : UInt8) : Bytes → Bytes :=
  if opcode = opRipemd160 then crypto.ripemd160
  else if opcode = opSha1 then crypto.sha1
  else if opcode = opSha256 then crypto.sha256
  else if opcode = opHash160 then crypto.hash160
  else crypto.hash256

def hashOpcodes : List UInt8 := [opRipemd160, opSha1, opSha256, opHash160, opHash256]

/-! ## Evaluation -/

/-- The locals of `EvalScript` but the position. The innermost open `OP_IF` comes first in `vfExec`.
-/
structure Machine where
  stack : List Bytes
  altstack : List Bytes
  vfExec : List Bool
  nOpCount : Int
  pbegincodehash : CScript
deriving DecidableEq, Repr

section Evaluation

variable (crypto : Crypto) (flags : UInt32) (checker : BaseSignatureChecker)

def fRequireMinimal : Bool := hasFlag flags scriptVerifyMinimalData

/-- `OP_CHECKLOCKTIMEVERIFY`, a discouraged `OP_NOP2` where it is not enabled. -/
def checkLockTimeVerify (machine : Machine) : Except ScriptError Machine :=
  if !hasFlag flags scriptVerifyCheckLockTimeVerify then do
    demand (hasFlag flags scriptVerifyDiscourageUpgradableNops)
      (.error .discourageUpgradableNops)
    .ok machine
  else match machine.stack with
    | [] => .error .invalidStackOperation
    | top :: _ => do
        let nLockTime ← scriptNum (fRequireMinimal flags) 5 top
        ensure (decide (0 ≤ nLockTime)) .negativeLocktime
        ensure (checker.checkLockTime nLockTime) .unsatisfiedLocktime
        .ok machine

def openConditional (opcode : UInt8) (fExec : Bool) (machine : Machine) :
    Except ScriptError Machine :=
  if fExec then
    match machine.stack with
    | [] => .error .unbalancedConditional
    | vch :: rest =>
      let fValue := if opcode = opNotIf then !castToBool vch else castToBool vch
      .ok { machine with stack := rest, vfExec := fValue :: machine.vfExec }
  else .ok { machine with vfExec := false :: machine.vfExec }

def closeConditional (opcode : UInt8) (machine : Machine) : Except ScriptError Machine :=
  match machine.vfExec with
  | [] => .error .unbalancedConditional
  | fValue :: outer =>
    .ok { machine with vfExec := if opcode = opElse then (!fValue) :: outer else outer }

def altstackOp (opcode : UInt8) (machine : Machine) : Except ScriptError Machine :=
  if opcode = opToAltStack then
    match machine.stack with
    | [] => .error .invalidStackOperation
    | vch :: rest => .ok { machine with stack := rest, altstack := vch :: machine.altstack }
  else
    match machine.altstack with
    | [] => .error .invalidAltstackOperation
    | vch :: rest => .ok { machine with stack := vch :: machine.stack, altstack := rest }

def pickOrRoll (opcode : UInt8) (machine : Machine) : Except ScriptError Machine :=
  match machine.stack with
  | top :: second :: below => do
      let number ← scriptNum (fRequireMinimal flags) nDefaultMaxNumSize top
      let n := getint number
      let stack := second :: below
      ensure (decide (0 ≤ n) && decide (n < stack.length)) .invalidStackOperation
      let vch := stack.getD n.toNat []
      let kept := if opcode = opRoll then stack.eraseIdx n.toNat else stack
      .ok { machine with stack := vch :: kept }
  | _ => .error .invalidStackOperation

/-- What an opcode with a `VERIFY` form does with its result. -/
def finish (verify : Bool) (failure : ScriptError) (result : Bytes) (machine : Machine) :
    Except ScriptError Machine :=
  if verify then do
    ensure (castToBool result) failure
    .ok machine
  else .ok { machine with stack := result :: machine.stack }

def equalOp (opcode : UInt8) (machine : Machine) : Except ScriptError Machine :=
  match machine.stack with
  | vch2 :: vch1 :: rest =>
    finish (opcode = opEqualVerify) .equalVerify (vchBool (vch1 == vch2))
      { machine with stack := rest }
  | _ => .error .invalidStackOperation

def unaryNumeric (opcode : UInt8) (machine : Machine) : Except ScriptError Machine :=
  match machine.stack with
  | top :: rest => do
      let bn ← scriptNum (fRequireMinimal flags) nDefaultMaxNumSize top
      .ok { machine with stack := serialize (unaryOp opcode bn) :: rest }
  | _ => .error .invalidStackOperation

def binaryNumeric (opcode : UInt8) (machine : Machine) : Except ScriptError Machine :=
  match machine.stack with
  | top :: second :: rest => do
      let bn1 ← scriptNum (fRequireMinimal flags) nDefaultMaxNumSize second
      let bn2 ← scriptNum (fRequireMinimal flags) nDefaultMaxNumSize top
      finish (opcode = opNumEqualVerify) .numEqualVerify (serialize (binaryOp opcode bn1 bn2))
        { machine with stack := rest }
  | _ => .error .invalidStackOperation

def within (machine : Machine) : Except ScriptError Machine :=
  match machine.stack with
  | top :: second :: third :: rest => do
      let bn1 ← scriptNum (fRequireMinimal flags) nDefaultMaxNumSize third
      let bn2 ← scriptNum (fRequireMinimal flags) nDefaultMaxNumSize second
      let bn3 ← scriptNum (fRequireMinimal flags) nDefaultMaxNumSize top
      .ok { machine with stack := vchBool (decide (bn2 ≤ bn1) && decide (bn1 < bn3)) :: rest }
  | _ => .error .invalidStackOperation

def checkSigOp (opcode : UInt8) (machine : Machine) : Except ScriptError Machine :=
  match machine.stack with
  | vchPubKey :: vchSig :: rest => do
      let scriptCode := findAndDelete machine.pbegincodehash (pushOf vchSig)
      checkSignatureEncoding crypto flags vchSig
      checkPubKeyEncoding flags vchPubKey
      finish (opcode = opCheckSigVerify) .checkSigVerify
        (vchBool (checker.checkSig vchSig vchPubKey scriptCode)) { machine with stack := rest }
  | _ => .error .invalidStackOperation

/-- The loop of `OP_CHECKMULTISIG`; there are never more signatures than keys when a round begins.
-/
def matchSignatures (scriptCode : CScript) : List Bytes → List Bytes →
    Except ScriptError Bool
  | [], _ => .ok true
  | _ :: _, [] => .ok false
  | vchSig :: sigs, vchPubKey :: keys => do
      checkSignatureEncoding crypto flags vchSig
      checkPubKeyEncoding flags vchPubKey
      let left := if checker.checkSig vchSig vchPubKey scriptCode then sigs else vchSig :: sigs
      if keys.length < left.length then .ok false else matchSignatures scriptCode left keys

/-- `OP_CHECKMULTISIG` and its verifying form. Below the signatures lies an element without a use.
-/
def checkMultiSigOp (opcode : UInt8) (machine : Machine) : Except ScriptError Machine :=
  match machine.stack with
  | [] => .error .invalidStackOperation
  | top :: belowCount => do
      let keysNumber ← scriptNum (fRequireMinimal flags) nDefaultMaxNumSize top
      let nKeysCount := getint keysNumber
      ensure (decide (0 ≤ nKeysCount) && decide (nKeysCount ≤ 20)) .pubkeyCount
      let nOpCount := machine.nOpCount + nKeysCount
      ensure (decide (nOpCount ≤ 201)) .opCount
      match belowCount.drop nKeysCount.toNat with
      | [] => .error .invalidStackOperation
      | second :: belowKeys => do
          let sigsNumber ← scriptNum (fRequireMinimal flags) nDefaultMaxNumSize second
          let nSigsCount := getint sigsNumber
          ensure (decide (0 ≤ nSigsCount) && decide (nSigsCount ≤ nKeysCount)) .sigCount
          let sigs := belowKeys.take nSigsCount.toNat
          match belowKeys.drop nSigsCount.toNat with
          | [] => .error .invalidStackOperation
          | dummy :: rest => do
              let scriptCode :=
                sigs.foldl (fun code vchSig => findAndDelete code (pushOf vchSig))
                  machine.pbegincodehash
              let fSuccess ←
                matchSignatures crypto flags checker scriptCode sigs
                  (belowCount.take nKeysCount.toNat)
              demand (hasFlag flags scriptVerifyNullDummy)
                (ensure dummy.isEmpty .sigNullDummy)
              finish (opcode = opCheckMultiSigVerify) .checkMultiSigVerify (vchBool fSuccess)
                { machine with stack := rest, nOpCount := nOpCount }

/-- The `switch` over the opcodes; `pc` is the position behind the opcode. -/
def execute (opcode : UInt8) (fExec : Bool) (pc : CScript) (machine : Machine) :
    Except ScriptError Machine :=
  if opcode = op1Negate ∨ op1 ≤ opcode ∧ opcode ≤ op16 then
    .ok { machine with stack := serialize (opcode.toNat - 0x50 : Int) :: machine.stack }
  else if opcode = opNop then .ok machine
  else if opcode = opCheckLockTimeVerify then checkLockTimeVerify flags checker machine
  else if opcode ∈ upgradableNops then do
    demand (hasFlag flags scriptVerifyDiscourageUpgradableNops)
      (.error .discourageUpgradableNops)
    .ok machine
  else if opcode = opIf ∨ opcode = opNotIf then openConditional opcode fExec machine
  else if opcode = opElse ∨ opcode = opEndIf then closeConditional opcode machine
  else if opcode = opVerify then
    match machine.stack with
    | [] => .error .invalidStackOperation
    | vch :: rest => finish true .verify vch { machine with stack := rest }
  else if opcode = opReturn then .error .opReturn
  else if opcode = opToAltStack ∨ opcode = opFromAltStack then altstackOp opcode machine
  else if opcode ∈ stackOpcodes then
    match stackOp opcode machine.stack with
    | none => .error .invalidStackOperation
    | some stack => .ok { machine with stack := stack }
  else if opcode = opPick ∨ opcode = opRoll then pickOrRoll flags opcode machine
  else if opcode = opEqual ∨ opcode = opEqualVerify then equalOp opcode machine
  else if opcode ∈ unaryOpcodes then unaryNumeric flags opcode machine
  else if opcode ∈ binaryOpcodes then binaryNumeric flags opcode machine
  else if opcode = opWithin then within flags machine
  else if opcode ∈ hashOpcodes then
    match machine.stack with
    | [] => .error .invalidStackOperation
    | vch :: rest => .ok { machine with stack := hashOp crypto opcode vch :: rest }
  else if opcode = opCodeSeparator then .ok { machine with pbegincodehash := pc }
  else if opcode = opCheckSig ∨ opcode = opCheckSigVerify then
    checkSigOp crypto flags checker opcode machine
  else if opcode = opCheckMultiSig ∨ opcode = opCheckMultiSigVerify then
    checkMultiSigOp crypto flags checker opcode machine
  else .error .badOpcode

def maxScriptElementSize : Nat := 520

/-- An instruction pushes its operand or goes through the `switch`; conditionals alone where not
executed. -/
def pushOrExecute (opcode : UInt8) (vchPushValue pc : CScript) (fExec : Bool)
    (machine : Machine) : Except ScriptError Machine :=
  if fExec ∧ opcode ≤ opPushData4 then do
    demand (fRequireMinimal flags) (ensure (checkMinimalPush vchPushValue opcode) .minimalData)
    .ok { machine with stack := vchPushValue :: machine.stack }
  else if fExec ∨ opIf ≤ opcode ∧ opcode ≤ opEndIf then
    execute crypto flags checker opcode fExec pc machine
  else .ok machine

/-- One round of the loop of `EvalScript` behind the reading of its instruction. -/
def evalInstruction (opcode : UInt8) (vchPushValue pc : CScript) (machine : Machine) :
    Except ScriptError Machine := do
  let fExec := !machine.vfExec.contains false
  let counted :=
    { machine with
      nOpCount := if op16 < opcode then machine.nOpCount + 1 else machine.nOpCount }
  ensure (decide (vchPushValue.length ≤ maxScriptElementSize)) .pushSize
  ensure (!(decide (op16 < opcode) && decide (201 < counted.nOpCount))) .opCount
  ensure (!disabledOpcodes.contains opcode) .disabledOpcode
  let after ← pushOrExecute crypto flags checker opcode vchPushValue pc fExec counted
  ensure (decide (after.stack.length + after.altstack.length ≤ 1000)) .stackSize
  .ok after

def evalStep (state : CScript × Machine) : Except ScriptError (CScript × Machine) :=
  match getOp state.1 with
  | none => .error .badOpcode
  | some (opcode, vchPushValue, pc) => do
      let machine ← evalInstruction crypto flags checker opcode vchPushValue pc state.2
      .ok (pc, machine)

def atStart (stack : List Bytes) (script : CScript) : Machine where
  stack := stack
  altstack := []
  vfExec := []
  nOpCount := 0
  pbegincodehash := script

def evalScript (stack : List Bytes) (script : CScript) : Except ScriptError (List Bytes) := do
  ensure (decide (script.length ≤ 10000)) .scriptSize
  let ended ←
    loop (fun state => !state.1.isEmpty) (evalStep crypto flags checker) script.length
      (script, atStart stack script)
  ensure ended.2.vfExec.isEmpty .unbalancedConditional
  .ok ended.2.stack

/-- The result a script leaves: its top element, which has to be true. -/
def requireTrue (stack : List Bytes) : Except ScriptError PUnit :=
  match stack with
  | [] => .error .evalFalse
  | top :: _ => ensure (castToBool top) .evalFalse

/-- The second pass of `VerifyScript` for a script hash, over the asserted stack of the signature.
-/
def verifyScriptHash (scriptSig : CScript) (stackCopy : List Bytes) :
    Except ScriptError PUnit := do
  ensure (isPushOnly scriptSig) .sigPushOnly
  match stackCopy with
  | [] => .error .unknownError
  | pubKeySerialized :: rest => do
      let stack ← evalScript crypto flags checker rest pubKeySerialized
      requireTrue stack

def verifyScript (scriptSig scriptPubKey : CScript) : Except ScriptError PUnit := do
  demand (hasFlag flags scriptVerifySigPushOnly) (ensure (isPushOnly scriptSig) .sigPushOnly)
  let stackCopy ← evalScript crypto flags checker [] scriptSig
  let stack ← evalScript crypto flags checker stackCopy scriptPubKey
  requireTrue stack
  demand (hasFlag flags scriptVerifyP2SH && isPayToScriptHash scriptPubKey)
    (verifyScriptHash crypto flags checker scriptSig stackCopy)

end Evaluation

/-! ## The evaluation reads the whole script -/

section Termination

variable (crypto : Crypto) (flags : UInt32) (checker : BaseSignatureChecker)

theorem evalStep_shorter (state after : CScript × Machine)
    (stepped : evalStep crypto flags checker state = .ok after) :
    after.1.length < state.1.length := by
  unfold evalStep at stepped
  split at stepped
  · cases stepped
  · rename_i opcode vchPushValue pc read
    cases executed : evalInstruction crypto flags checker opcode vchPushValue pc state.2 with
    | error failure =>
      rw [executed] at stepped
      cases stepped
    | ok machine =>
      rw [executed] at stepped
      cases stepped
      exact getOp_length state.1 opcode vchPushValue pc read

theorem evaluation_ends (script : CScript) (machine : Machine) (ended : CScript × Machine)
    (evaluated : loop (fun state => !state.1.isEmpty) (evalStep crypto flags checker)
      script.length (script, machine) = .ok ended) : ended.1 = [] := by
  have stopped := loop_ends (fun state => !state.1.isEmpty) (evalStep crypto flags checker)
    (fun state => state.1.length)
    (fun state after _ => evalStep_shorter crypto flags checker state after)
    (fun state none => by simp [List.length_eq_zero_iff.mp none])
    script.length (script, machine) ended le_rfl evaluated
  simpa using stopped

end Termination

end ZenonCore.Interpreter
