import Mathlib.Data.List.Basic
import Mathlib.Data.UInt

/-!
# Scripts

`CScript` as bytes, and `GetOp`. A position `pc` is the part of the script from it to the end.
-/

namespace ZenonCore.Script

abbrev Bytes := List UInt8

abbrev CScript := Bytes

def op0 : UInt8 := 0x00
def opPushData1 : UInt8 := 0x4c
def opPushData2 : UInt8 := 0x4d
def opPushData4 : UInt8 := 0x4e
def op1 : UInt8 := 0x51
def op16 : UInt8 := 0x60
def opReturn : UInt8 := 0x6a
def opDup : UInt8 := 0x76
def opEqual : UInt8 := 0x87
def opEqualVerify : UInt8 := 0x88
def opHash160 : UInt8 := 0xa9
def opCheckSig : UInt8 := 0xac
def opCheckMultiSig : UInt8 := 0xae
def opZerocoinMint : UInt8 := 0xc1
def opZerocoinSpend : UInt8 := 0xc2
def opZerocoinPublicSpend : UInt8 := 0xc3
def opSmallInteger : UInt8 := 0xfa
def opPubKeys : UInt8 := 0xfb
def opPubKeyHash : UInt8 := 0xfd
def opPubKey : UInt8 := 0xfe
def opInvalidOpcode : UInt8 := 0xff

/-- How a routine that reads a script ends without a result: an undefined range outside of the
script, or an exception. -/
inductive Fault
  | outOfRange
  | exception
deriving DecidableEq, Repr

def subrange (script : CScript) (first last : Nat) : Except Fault Bytes :=
  if first ≤ last ∧ last ≤ script.length then .ok ((script.take last).drop first)
  else .error .outOfRange

def suffixFrom (script : CScript) (first : Nat) : Except Fault Bytes :=
  subrange script first script.length

variable (script : CScript)

theorem suffixFrom_ok (first : Nat) (inside : first ≤ script.length) :
    suffixFrom script first = .ok (script.drop first) := by
  simp [suffixFrom, subrange, inside]

theorem suffixFrom_outOfRange (first : Nat) :
    suffixFrom script first = .error .outOfRange ↔ script.length < first := by
  unfold suffixFrom subrange
  by_cases inside : first ≤ script.length
  · simp only [inside, le_refl, and_self, if_true, reduceCtorEq, false_iff]
    omega
  · simp only [inside, false_and, if_false, true_iff]
    omega

def readLE : Bytes → Nat
  | [] => 0
  | byte :: bytes => byte.toNat + 256 * readLE bytes

/-- The immediate operand: `nSize` bytes if there are so many. -/
def takeOperand (opcode : UInt8) (nSize : Nat) (pc : CScript) :
    Option (UInt8 × Bytes × CScript) :=
  if pc.length < nSize then none else some (opcode, pc.take nSize, pc.drop nSize)

/-- `GetOp2`: the opcode, its operand and the position behind it. -/
def getOp : CScript → Option (UInt8 × Bytes × CScript)
  | [] => none
  | opcode :: pc =>
    if opcode ≤ opPushData4 then
      if opcode < opPushData1 then takeOperand opcode opcode.toNat pc
      else if opcode = opPushData1 then
        if pc.length < 1 then none
        else takeOperand opcode (readLE (pc.take 1)) (pc.drop 1)
      else if opcode = opPushData2 then
        if pc.length < 2 then none
        else takeOperand opcode (readLE (pc.take 2)) (pc.drop 2)
      else
        if pc.length < 4 then none
        else takeOperand opcode (readLE (pc.take 4)) (pc.drop 4)
    else some (opcode, [], pc)

theorem takeOperand_length (opcode found : UInt8) (nSize : Nat) (pc vch rest : CScript)
    (taken : takeOperand opcode nSize pc = some (found, vch, rest)) :
    rest.length ≤ pc.length := by
  unfold takeOperand at taken
  split at taken
  · cases taken
  · cases taken
    simp

theorem getOp_length (pc : CScript) (opcode : UInt8) (vch rest : CScript)
    (read : getOp pc = some (opcode, vch, rest)) : rest.length < pc.length := by
  cases pc with
  | nil => cases read
  | cons first pc =>
    have shorter : rest.length ≤ pc.length := by
      simp only [getOp] at read
      split_ifs at read
      all_goals first
        | exact takeOperand_length _ _ _ _ _ _ read
        | exact le_trans (takeOperand_length _ _ _ _ _ _ read) (by simp)
        | (cases read; exact le_rfl)
    simp only [List.length_cons]
    omega

def isPushOnlyFrom : Nat → CScript → Bool
  | 0, pc => pc.isEmpty
  | fuel + 1, pc =>
    if pc.isEmpty then true
    else match getOp pc with
      | none => false
      | some (opcode, _, rest) => if op16 < opcode then false else isPushOnlyFrom fuel rest

def isPushOnly (pc : CScript) : Bool :=
  isPushOnlyFrom pc.length pc

def isPayToScriptHash (script : CScript) : Bool :=
  script.length == 23 && script[0]? == some opHash160 && script[1]? == some 0x14 &&
    script[22]? == some opEqual

def startsWithOpcode (script : CScript) (opcode : UInt8) : Bool :=
  script.head? == some opcode

def isZerocoinMint (script : CScript) : Bool := startsWithOpcode script opZerocoinMint

def isZerocoinSpend (script : CScript) : Bool := startsWithOpcode script opZerocoinSpend

def isZerocoinPublicSpend (script : CScript) : Bool :=
  startsWithOpcode script opZerocoinPublicSpend

theorem startsWithOpcode_iff (opcode : UInt8) :
    startsWithOpcode script opcode = true ↔ ∃ rest, script = opcode :: rest := by
  cases script <;> simp [startsWithOpcode]

theorem startsWithOpcode_unique (first second : UInt8)
    (one : startsWithOpcode script first = true) (other : startsWithOpcode script second = true) :
    first = second := by
  obtain ⟨_, rfl⟩ := (startsWithOpcode_iff script first).mp one
  obtain ⟨_, same⟩ := (startsWithOpcode_iff _ second).mp other
  exact (List.cons.inj same).1

end ZenonCore.Script
