import ZenonCore.Interpreter
import ZenonCore.Library.CheckedStacks

/-!
# The script engine with its accesses

`EvalScript` with every guard, access, pop and assertion; a position that is not there is a
trap.
-/

namespace ZenonCore.ScriptEngine

open CheckedStacks Interpreter Script ScriptNum
open ConnectBlock (scriptVerifyCheckLockTimeVerify)

abbrev Engine := Checked ScriptError

def stacktop (stack : List Bytes) (i : Int) : Engine Bytes := back stack i

def popstack (stack : List Bytes) : Engine (List Bytes) := popBack stack

def intSize (stack : List Bytes) : Int := Int.bmod stack.length (2 ^ 32)

/-! ## The arithmetic of `CScriptNum` -/

def int64Max : Int := 2 ^ 63 - 1

def int64Min : Int := -2 ^ 63

def inInt64 (value : Int) : Engine Int :=
  if int64Min ≤ value ∧ value ≤ int64Max then .ok value else trap .overflow

def plus (value rhs : Int) : Engine Int := inInt64 (value + rhs)

def minus (value rhs : Int) : Engine Int := inInt64 (value - rhs)

def negate (value : Int) : Engine Int := do
  assert (value != int64Min)
  inInt64 (-value)

def plusAssign (value rhs : Int) : Engine Int := do
  assert (decide (rhs = 0 ∨ 0 < rhs ∧ value ≤ int64Max - rhs ∨ rhs < 0 ∧ int64Min - rhs ≤ value))
  inInt64 (value + rhs)

def minusAssign (value rhs : Int) : Engine Int := do
  assert (decide (rhs = 0 ∨ 0 < rhs ∧ int64Min + rhs ≤ value ∨ rhs < 0 ∧ value ≤ int64Max + rhs))
  inInt64 (value - rhs)

/-! ## The stack -/

/-- The stack opcodes from `OP_2DROP` to `OP_SIZE` that read no number. -/
def stackCase (opcode : UInt8) (stack : List Bytes) : Engine (List Bytes) :=
  if opcode = op2Drop then do
    refuseIf (decide (stack.length < 2)) .invalidStackOperation
    let stack ← popstack stack
    popstack stack
  else if opcode = op2Dup then do
    refuseIf (decide (stack.length < 2)) .invalidStackOperation
    let vch1 ← stacktop stack (-2)
    let vch2 ← stacktop stack (-1)
    .ok (vch2 :: vch1 :: stack)
  else if opcode = op3Dup then do
    refuseIf (decide (stack.length < 3)) .invalidStackOperation
    let vch1 ← stacktop stack (-3)
    let vch2 ← stacktop stack (-2)
    let vch3 ← stacktop stack (-1)
    .ok (vch3 :: vch2 :: vch1 :: stack)
  else if opcode = op2Over then do
    refuseIf (decide (stack.length < 4)) .invalidStackOperation
    let vch1 ← stacktop stack (-4)
    let vch2 ← stacktop stack (-3)
    .ok (vch2 :: vch1 :: stack)
  else if opcode = op2Rot then do
    refuseIf (decide (stack.length < 6)) .invalidStackOperation
    let vch1 ← stacktop stack (-6)
    let vch2 ← stacktop stack (-5)
    let stack ← eraseBack stack 6 4
    .ok (vch2 :: vch1 :: stack)
  else if opcode = op2Swap then do
    refuseIf (decide (stack.length < 4)) .invalidStackOperation
    let stack ← swapBack stack (-4) (-2)
    swapBack stack (-3) (-1)
  else if opcode = opIfDup then do
    refuseIf (decide (stack.length < 1)) .invalidStackOperation
    let vch ← stacktop stack (-1)
    .ok (if castToBool vch then vch :: stack else stack)
  else if opcode = opDepth then .ok (serialize stack.length :: stack)
  else if opcode = opDrop then do
    refuseIf (decide (stack.length < 1)) .invalidStackOperation
    popstack stack
  else if opcode = opDup then do
    refuseIf (decide (stack.length < 1)) .invalidStackOperation
    let vch ← stacktop stack (-1)
    .ok (vch :: stack)
  else if opcode = opNip then do
    refuseIf (decide (stack.length < 2)) .invalidStackOperation
    eraseBack stack 2 1
  else if opcode = opOver then do
    refuseIf (decide (stack.length < 2)) .invalidStackOperation
    let vch ← stacktop stack (-2)
    .ok (vch :: stack)
  else if opcode = opRot then do
    refuseIf (decide (stack.length < 3)) .invalidStackOperation
    let stack ← swapBack stack (-3) (-2)
    swapBack stack (-2) (-1)
  else if opcode = opSwap then do
    refuseIf (decide (stack.length < 2)) .invalidStackOperation
    swapBack stack (-2) (-1)
  else if opcode = opTuck then do
    refuseIf (decide (stack.length < 2)) .invalidStackOperation
    let vch ← stacktop stack (-1)
    insertBack stack 2 vch
  else do
    refuseIf (decide (stack.length < 1)) .invalidStackOperation
    let vch ← stacktop stack (-1)
    .ok (serialize vch.length :: stack)

def altstackCase (opcode : UInt8) (machine : Machine) : Engine Machine :=
  if opcode = opToAltStack then do
    refuseIf (decide (machine.stack.length < 1)) .invalidStackOperation
    let vch ← stacktop machine.stack (-1)
    let stack ← popstack machine.stack
    .ok { machine with stack := stack, altstack := vch :: machine.altstack }
  else do
    refuseIf (decide (machine.altstack.length < 1)) .invalidAltstackOperation
    let vch ← stacktop machine.altstack (-1)
    let altstack ← popstack machine.altstack
    .ok { machine with stack := vch :: machine.stack, altstack := altstack }

def closeCase (opcode : UInt8) (machine : Machine) : Engine Machine := do
  refuseIf machine.vfExec.isEmpty .unbalancedConditional
  if opcode = opElse then do
    let last ← back machine.vfExec (-1)
    let vfExec ← setBack machine.vfExec (!last) (-1)
    .ok { machine with vfExec := vfExec }
  else do
    let vfExec ← popBack machine.vfExec
    .ok { machine with vfExec := vfExec }

def openCase (opcode : UInt8) (fExec : Bool) (machine : Machine) : Engine Machine :=
  if fExec then do
    refuseIf (decide (machine.stack.length < 1)) .unbalancedConditional
    let vch ← stacktop machine.stack (-1)
    let fValue := if opcode = opNotIf then !castToBool vch else castToBool vch
    let stack ← popstack machine.stack
    .ok { machine with stack := stack, vfExec := fValue :: machine.vfExec }
  else .ok { machine with vfExec := false :: machine.vfExec }

def verifyCase (machine : Machine) : Engine Machine := do
  refuseIf (decide (machine.stack.length < 1)) .invalidStackOperation
  let vch ← stacktop machine.stack (-1)
  if castToBool vch then do
    let stack ← popstack machine.stack
    .ok { machine with stack := stack }
  else fail .verify

/-- The end of an opcode with a `VERIFY` form, behind the push of its result. -/
def verifyResult (verify fSuccess : Bool) (failure : ScriptError) (machine : Machine) :
    Engine Machine :=
  if verify then
    if fSuccess then do
      let stack ← popstack machine.stack
      .ok { machine with stack := stack }
    else fail failure
  else .ok machine

def equalCase (opcode : UInt8) (machine : Machine) : Engine Machine := do
  refuseIf (decide (machine.stack.length < 2)) .invalidStackOperation
  let vch1 ← stacktop machine.stack (-2)
  let vch2 ← stacktop machine.stack (-1)
  let fEqual := vch1 == vch2
  let stack ← popstack machine.stack
  let stack ← popstack stack
  verifyResult (opcode = opEqualVerify) fEqual .equalVerify
    { machine with stack := vchBool fEqual :: stack }

section Evaluation

variable (crypto : Crypto) (flags : UInt32) (checker : BaseSignatureChecker)

def number (nMaxNumSize : Nat) (vch : Bytes) : Engine Int :=
  regular (scriptNum (fRequireMinimal flags) nMaxNumSize vch)

def lockTimeCase (machine : Machine) : Engine Machine :=
  if !hasFlag flags scriptVerifyCheckLockTimeVerify then do
    refuseIf (hasFlag flags scriptVerifyDiscourageUpgradableNops) .discourageUpgradableNops
    .ok machine
  else do
    refuseIf (decide (machine.stack.length < 1)) .invalidStackOperation
    let top ← stacktop machine.stack (-1)
    let nLockTime ← number flags 5 top
    refuseIf (decide (nLockTime < 0)) .negativeLocktime
    refuseIf (!checker.checkLockTime nLockTime) .unsatisfiedLocktime
    .ok machine

def pickAt (opcode : UInt8) (machine : Machine) (stack : List Bytes) (n : Int) :
    Engine Machine := do
  refuseIf (decide (n < 0) || decide (intSize stack ≤ n)) .invalidStackOperation
  let vch ← stacktop stack (-n - 1)
  if opcode = opRoll then do
    let stack ← eraseBack stack (n.toNat + 1) n.toNat
    .ok { machine with stack := vch :: stack }
  else .ok { machine with stack := vch :: stack }

def pickCase (opcode : UInt8) (machine : Machine) : Engine Machine := do
  refuseIf (decide (machine.stack.length < 2)) .invalidStackOperation
  let top ← stacktop machine.stack (-1)
  let n ← number flags nDefaultMaxNumSize top
  let stack ← popstack machine.stack
  pickAt opcode machine stack (getint n)

/-- The inner `switch` of the opcodes that turn one number into another. -/
def unarySwitch (opcode : UInt8) (bn : Int) : Engine Int :=
  if opcode = op1Add then plusAssign bn 1
  else if opcode = op1Sub then minusAssign bn 1
  else if opcode = opNegate then negate bn
  else if opcode = opAbs then if bn < 0 then negate bn else .ok bn
  else if opcode = opNot then .ok (boolNum (bn == 0))
  else if opcode = op0NotEqual then .ok (boolNum (bn != 0))
  else trap .assertion

def unaryCase (opcode : UInt8) (machine : Machine) : Engine Machine := do
  refuseIf (decide (machine.stack.length < 1)) .invalidStackOperation
  let top ← stacktop machine.stack (-1)
  let bn ← number flags nDefaultMaxNumSize top
  let bn ← unarySwitch opcode bn
  let stack ← popstack machine.stack
  .ok { machine with stack := serialize bn :: stack }

/-- The inner `switch` of the opcodes that turn two numbers into one. -/
def binarySwitch (opcode : UInt8) (bn1 bn2 : Int) : Engine Int :=
  if opcode = opAdd then plus bn1 bn2
  else if opcode = opSub then minus bn1 bn2
  else if opcode = opBoolAnd then .ok (boolNum (bn1 != 0 && bn2 != 0))
  else if opcode = opBoolOr then .ok (boolNum (bn1 != 0 || bn2 != 0))
  else if opcode = opNumEqual then .ok (boolNum (bn1 == bn2))
  else if opcode = opNumEqualVerify then .ok (boolNum (bn1 == bn2))
  else if opcode = opNumNotEqual then .ok (boolNum (bn1 != bn2))
  else if opcode = opLessThan then .ok (boolNum (decide (bn1 < bn2)))
  else if opcode = opGreaterThan then .ok (boolNum (decide (bn2 < bn1)))
  else if opcode = opLessThanOrEqual then .ok (boolNum (decide (bn1 ≤ bn2)))
  else if opcode = opGreaterThanOrEqual then .ok (boolNum (decide (bn2 ≤ bn1)))
  else if opcode = opMin then .ok (if bn1 < bn2 then bn1 else bn2)
  else if opcode = opMax then .ok (if bn2 < bn1 then bn1 else bn2)
  else trap .assertion

def binaryCase (opcode : UInt8) (machine : Machine) : Engine Machine := do
  refuseIf (decide (machine.stack.length < 2)) .invalidStackOperation
  let second ← stacktop machine.stack (-2)
  let bn1 ← number flags nDefaultMaxNumSize second
  let top ← stacktop machine.stack (-1)
  let bn2 ← number flags nDefaultMaxNumSize top
  let bn ← binarySwitch opcode bn1 bn2
  let stack ← popstack machine.stack
  let stack ← popstack stack
  let stack := serialize bn :: stack
  if opcode = opNumEqualVerify then do
    let result ← stacktop stack (-1)
    if castToBool result then do
      let stack ← popstack stack
      .ok { machine with stack := stack }
    else fail .numEqualVerify
  else .ok { machine with stack := stack }

def withinCase (machine : Machine) : Engine Machine := do
  refuseIf (decide (machine.stack.length < 3)) .invalidStackOperation
  let third ← stacktop machine.stack (-3)
  let bn1 ← number flags nDefaultMaxNumSize third
  let second ← stacktop machine.stack (-2)
  let bn2 ← number flags nDefaultMaxNumSize second
  let top ← stacktop machine.stack (-1)
  let bn3 ← number flags nDefaultMaxNumSize top
  let stack ← popTimes 3 machine.stack
  .ok { machine with stack := vchBool (decide (bn2 ≤ bn1) && decide (bn1 < bn3)) :: stack }

/-- `OP_RIPEMD160`, `OP_SHA1`, `OP_SHA256`, `OP_HASH160` and `OP_HASH256`. -/
def hashCase (opcode : UInt8) (machine : Machine) : Engine Machine := do
  refuseIf (decide (machine.stack.length < 1)) .invalidStackOperation
  let vch ← stacktop machine.stack (-1)
  let stack ← popstack machine.stack
  .ok { machine with stack := hashOp crypto opcode vch :: stack }

/-! ## Signatures -/

def findAndDeleteLoop (b : CScript) : Nat → CScript → Engine CScript
  | 0, _ => trap .endless
  | fuel + 1, pc =>
    if b.isPrefixOf pc then findAndDeleteLoop b fuel (pc.drop b.length)
    else match getOp pc with
      | none => .ok pc
      | some (_, _, rest) => do
          let cleaned ← findAndDeleteLoop b fuel rest
          .ok (pc.take (pc.length - rest.length) ++ cleaned)

def dropSignature (scriptCode : CScript) (vchSig : Bytes) : Engine CScript :=
  if (pushOf vchSig).isEmpty then .ok scriptCode
  else findAndDeleteLoop (pushOf vchSig) (scriptCode.length + 1) scriptCode

def checkEncodings (vchSig vchPubKey : Bytes) : Engine PUnit := do
  regular (checkSignatureEncoding crypto flags vchSig)
  regular (checkPubKeyEncoding flags vchPubKey)

def checkSigCase (opcode : UInt8) (machine : Machine) : Engine Machine := do
  refuseIf (decide (machine.stack.length < 2)) .invalidStackOperation
  let vchSig ← stacktop machine.stack (-2)
  let vchPubKey ← stacktop machine.stack (-1)
  let scriptCode ← dropSignature machine.pbegincodehash vchSig
  checkEncodings crypto flags vchSig vchPubKey
  let fSuccess := checker.checkSig vchSig vchPubKey scriptCode
  let stack ← popstack machine.stack
  let stack ← popstack stack
  verifyResult (opcode = opCheckSigVerify) fSuccess .checkSigVerify
    { machine with stack := vchBool fSuccess :: stack }

/-- `for (int k = 0; k < nSigsCount; k++)`, with the rounds that are left. -/
def dropSignatures (stack : List Bytes) (isig : Int) : Nat → Nat → CScript → Engine CScript
  | 0, _, scriptCode => .ok scriptCode
  | left + 1, k, scriptCode => do
      let vchSig ← stacktop stack (-isig - k)
      let scriptCode ← dropSignature scriptCode vchSig
      dropSignatures stack isig left (k + 1) scriptCode

structure Matching where
  isig : Int
  ikey : Int
  nSigsCount : Int
  nKeysCount : Int
  fSuccess : Bool

def matchRound (stack : List Bytes) (scriptCode : CScript) (matching : Matching) :
    Engine Matching := do
  let vchSig ← stacktop stack (-matching.isig)
  let vchPubKey ← stacktop stack (-matching.ikey)
  checkEncodings crypto flags vchSig vchPubKey
  let fOk := checker.checkSig vchSig vchPubKey scriptCode
  let isig := if fOk then matching.isig + 1 else matching.isig
  let nSigsCount := if fOk then matching.nSigsCount - 1 else matching.nSigsCount
  let nKeysCount := matching.nKeysCount - 1
  .ok
    { isig := isig
      ikey := matching.ikey + 1
      nSigsCount := nSigsCount
      nKeysCount := nKeysCount
      fSuccess := matching.fSuccess && decide (nSigsCount ≤ nKeysCount) }

/-- The loop over the signatures, with the `fSuccess` it ends with. -/
def matchLoop (stack : List Bytes) (scriptCode : CScript) (fuel : Nat) (matching : Matching) :
    Engine Bool := do
  let matched ← whileLoop (fun matching => matching.fSuccess && decide (0 < matching.nSigsCount))
    (matchRound crypto flags checker stack scriptCode) fuel matching
  .ok matched.fSuccess

/-- `(flags & SCRIPT_VERIFY_NULLDUMMY) && stacktop(-1).size()`. -/
def badDummy (stack : List Bytes) : Engine Bool :=
  if hasFlag flags scriptVerifyNullDummy then do
    let dummy ← stacktop stack (-1)
    .ok (!dummy.isEmpty)
  else .ok false

def checkSigs (opcode : UInt8) (machine : Machine) (nKeysCount nSigsCount : Int) :
    Engine Machine := do
  let stack := machine.stack
  let ikey : Int := 2
  refuseIf (decide (nSigsCount < 0) || decide (nKeysCount < nSigsCount)) .sigCount
  let isig := ikey + nKeysCount + 1
  let i := isig + nSigsCount
  refuseIf (decide (intSize stack < i)) .invalidStackOperation
  let scriptCode ← dropSignatures stack isig nSigsCount.toNat 0 machine.pbegincodehash
  let fSuccess ← matchLoop crypto flags checker stack scriptCode nKeysCount.toNat
    { isig := isig
      ikey := ikey
      nSigsCount := nSigsCount
      nKeysCount := nKeysCount
      fSuccess := true }
  -- while (i-- > 1)
  let stack ← popTimes (i - 1).toNat stack
  refuseIf (decide (stack.length < 1)) .invalidStackOperation
  let refused ← badDummy flags stack
  refuseIf refused .sigNullDummy
  let stack ← popstack stack
  verifyResult (opcode = opCheckMultiSigVerify) fSuccess .checkMultiSigVerify
    { machine with
      stack := vchBool fSuccess :: stack
      nOpCount := machine.nOpCount + nKeysCount }

def checkKeys (opcode : UInt8) (machine : Machine) (nKeysCount : Int) : Engine Machine := do
  refuseIf (decide (nKeysCount < 0) || decide (20 < nKeysCount)) .pubkeyCount
  refuseIf (decide (201 < machine.nOpCount + nKeysCount)) .opCount
  let i : Int := 2 + nKeysCount
  refuseIf (decide (intSize machine.stack < i)) .invalidStackOperation
  let sigsNumber ← stacktop machine.stack (-i)
  let nSigsCount ← number flags nDefaultMaxNumSize sigsNumber
  checkSigs crypto flags checker opcode machine nKeysCount (getint nSigsCount)

def checkMultiSigCase (opcode : UInt8) (machine : Machine) : Engine Machine := do
  refuseIf (decide (intSize machine.stack < 1)) .invalidStackOperation
  let keysNumber ← stacktop machine.stack (-1)
  let nKeysCount ← number flags nDefaultMaxNumSize keysNumber
  checkKeys crypto flags checker opcode machine (getint nKeysCount)

/-! ## The loop -/

def execute (opcode : UInt8) (fExec : Bool) (pc : CScript) (machine : Machine) :
    Engine Machine :=
  if opcode = op1Negate ∨ op1 ≤ opcode ∧ opcode ≤ op16 then
    .ok { machine with stack := serialize (opcode.toNat - 0x50 : Int) :: machine.stack }
  else if opcode = opNop then .ok machine
  else if opcode = opCheckLockTimeVerify then lockTimeCase flags checker machine
  else if opcode ∈ upgradableNops then do
    refuseIf (hasFlag flags scriptVerifyDiscourageUpgradableNops) .discourageUpgradableNops
    .ok machine
  else if opcode = opIf ∨ opcode = opNotIf then openCase opcode fExec machine
  else if opcode = opElse ∨ opcode = opEndIf then closeCase opcode machine
  else if opcode = opVerify then verifyCase machine
  else if opcode = opReturn then fail .opReturn
  else if opcode = opToAltStack ∨ opcode = opFromAltStack then altstackCase opcode machine
  else if opcode ∈ stackOpcodes then do
    let stack ← stackCase opcode machine.stack
    .ok { machine with stack := stack }
  else if opcode = opPick ∨ opcode = opRoll then pickCase flags opcode machine
  else if opcode = opEqual ∨ opcode = opEqualVerify then equalCase opcode machine
  else if opcode ∈ unaryOpcodes then unaryCase flags opcode machine
  else if opcode ∈ binaryOpcodes then binaryCase flags opcode machine
  else if opcode = opWithin then withinCase flags machine
  else if opcode ∈ hashOpcodes then hashCase crypto opcode machine
  else if opcode = opCodeSeparator then .ok { machine with pbegincodehash := pc }
  else if opcode = opCheckSig ∨ opcode = opCheckSigVerify then
    checkSigCase crypto flags checker opcode machine
  else if opcode = opCheckMultiSig ∨ opcode = opCheckMultiSigVerify then
    checkMultiSigCase crypto flags checker opcode machine
  else fail .badOpcode

def pushOrSwitch (opcode : UInt8) (vchPushValue pc : CScript) (fExec : Bool)
    (machine : Machine) : Engine Machine :=
  if fExec ∧ opcode ≤ opPushData4 then do
    refuseIf (fRequireMinimal flags && !checkMinimalPush vchPushValue opcode) .minimalData
    .ok { machine with stack := vchPushValue :: machine.stack }
  else if fExec ∨ opIf ≤ opcode ∧ opcode ≤ opEndIf then
    execute crypto flags checker opcode fExec pc machine
  else .ok machine

def evalOpcode (opcode : UInt8) (vchPushValue pc : CScript) (machine : Machine) :
    Engine Machine := do
  let fExec := !machine.vfExec.contains false
  let counted :=
    { machine with
      nOpCount := if op16 < opcode then machine.nOpCount + 1 else machine.nOpCount }
  refuseIf (decide (maxScriptElementSize < vchPushValue.length)) .pushSize
  refuseIf (decide (op16 < opcode) && decide (201 < counted.nOpCount)) .opCount
  refuseIf (disabledOpcodes.contains opcode) .disabledOpcode
  let after ← pushOrSwitch crypto flags checker opcode vchPushValue pc fExec counted
  refuseIf (decide (1000 < after.stack.length + after.altstack.length)) .stackSize
  .ok after

def evalRound (state : CScript × Machine) : Engine (CScript × Machine) :=
  match getOp state.1 with
  | none => fail .badOpcode
  | some (opcode, vchPushValue, pc) => do
      let machine ← evalOpcode crypto flags checker opcode vchPushValue pc state.2
      .ok (pc, machine)

def goesOn (state : CScript × Machine) : Bool := !state.1.isEmpty

/-- `EvalScript`. A loop with more rounds than the script has bytes would be a trap. -/
def evalScript (stack : List Bytes) (script : CScript) : Engine (List Bytes) := do
  refuseIf (decide (10000 < script.length)) .scriptSize
  let ended ← whileLoop goesOn (evalRound crypto flags checker) script.length
    (script, atStart stack script)
  refuseIf (!ended.2.vfExec.isEmpty) .unbalancedConditional
  .ok ended.2.stack

end Evaluation

end ZenonCore.ScriptEngine
