import ZenonCore.NetMessage
import ZenonCore.Library.Strictness

/-!
# Script numbers

`CScriptNum` read from stack elements and written back. An element that is no number is an
unknown error.
-/

namespace ZenonCore.ScriptNum

open Script
open Strictness

/-- `ScriptError`, without the value that stands for success. -/
inductive ScriptError
  | unknownError
  | evalFalse
  | opReturn
  | scriptSize
  | pushSize
  | opCount
  | stackSize
  | sigCount
  | pubkeyCount
  | verify
  | equalVerify
  | checkMultiSigVerify
  | checkSigVerify
  | numEqualVerify
  | badOpcode
  | disabledOpcode
  | invalidStackOperation
  | invalidAltstackOperation
  | unbalancedConditional
  | negativeLocktime
  | unsatisfiedLocktime
  | sigHashtype
  | sigDer
  | minimalData
  | sigPushOnly
  | sigHighS
  | sigNullDummy
  | pubkeyType
  | discourageUpgradableNops
deriving DecidableEq, Repr

/-- `CastToBool`: any byte counts but a sign bit alone in the last one. -/
def castToBool : Bytes → Bool
  | [] => false
  | [byte] => byte != 0 && byte != 0x80
  | byte :: bytes => byte != 0 || castToBool bytes

def nDefaultMaxNumSize : Nat := 4

def isNegative (vch : Bytes) : Bool := vch.getLastD 0 &&& 0x80 != 0

def setVch (vch : Bytes) : Int :=
  if isNegative vch then -((readLE vch : Int) - 0x80 * 256 ^ (vch.length - 1))
  else readLE vch

/-- The test for the smallest number of bytes in `CScriptNum`'s constructor. -/
def isMinimal (vch : Bytes) : Bool :=
  vch.isEmpty || vch.getLastD 0 &&& 0x7f != 0 ||
    (decide (1 < vch.length) && vch.getD (vch.length - 2) 0 &&& 0x80 != 0)

def scriptNum (fRequireMinimal : Bool) (nMaxNumSize : Nat) (vch : Bytes) :
    Except ScriptError Int := do
  ensure (vch.length ≤ nMaxNumSize) .unknownError
  demand fRequireMinimal (ensure (isMinimal vch) .unknownError)
  .ok (setVch vch)

/-- `getint`: a number beyond the range of `int` becomes its nearest bound. -/
def getint (value : Int) : Int :=
  max (-2 ^ 31) (min (2 ^ 31 - 1) value)

/-- The bytes of a magnitude, without zero bytes at the end, for at most `size`
bytes. -/
def magnitude : Nat → Nat → Bytes
  | 0, _ => []
  | size + 1, absvalue =>
    if absvalue = 0 then [] else UInt8.ofNat absvalue :: magnitude size (absvalue / 256)

/-- `CScriptNum::serialize`: a byte is added for the sign where the magnitude
leaves no room for it. -/
def serialize (value : Int) : Bytes :=
  let result := magnitude 8 value.natAbs
  if value = 0 then []
  else if result.getLastD 0 &&& 0x80 != 0 then result ++ [if value < 0 then 0x80 else 0]
  else if value < 0 then result.dropLast ++ [result.getLastD 0 ||| 0x80]
  else result

/-- `operator<<` for a stack element: the script that pushes it. -/
def pushOf (b : Bytes) : CScript :=
  if b.length < opPushData1.toNat then UInt8.ofNat b.length :: b
  else if b.length ≤ 0xff then opPushData1 :: UInt8.ofNat b.length :: b
  else if b.length ≤ 0xffff then opPushData2 :: (NetMessage.writeLE 2 b.length ++ b)
  else opPushData4 :: (NetMessage.writeLE 4 b.length ++ b)

theorem scriptNum_restricts {strictly laxly : Bool} (fewer : laxly = true → strictly = true)
    (nMaxNumSize : Nat) (vch : Bytes) :
    Restricts (scriptNum strictly nMaxNumSize vch) (scriptNum laxly nMaxNumSize vch) := by
  apply Restricts.bind (Restricts.refl _)
  intro _
  apply Restricts.bind (Restricts.demand fewer (Restricts.refl _))
  intro _
  exact Restricts.refl _

example : (serialize (-255), setVch (serialize (-255)), isMinimal [0x80]) =
    ([0xff, 0x80], -255, false) := by decide +kernel

end ZenonCore.ScriptNum
