import ZenonCore.CoinsSerialize

/-!
# The size of serialized coins

`GetSerializeSize` packs the header code by eight and `Serialize` by sixteen.
-/

namespace ZenonCore.CoinsSize

open Coins CoinsSerialize Primitives Script List
open Serialize
open ScriptCompression (PubKeyFunctions)

section Numbers

def sizeLoop : Nat → Nat → Nat
  | 0, _ => 0
  | fuel + 1, n => (if n ≤ 0x7f then 0 else sizeLoop fuel (n / 128 - 1)) + 1

def getSizeOfVarInt (n : Nat) : Nat := sizeLoop (n + 1) n

def getSizeOfInt (n : Int) : Nat := if n ≤ 0x7f then 1 else getSizeOfVarInt n.toNat

theorem varIntDigits_length (fuel n : Nat) : (varIntDigits fuel n).length = sizeLoop fuel n := by
  induction fuel generalizing n with
  | zero => rfl
  | succ fuel ih =>
    rw [varIntDigits, sizeLoop, length_append]
    split_ifs with short
    · rfl
    · rw [ih]
      rfl

variable (n : Nat)

theorem writeVarInt_length : (writeVarInt n).length = getSizeOfVarInt n := by
  unfold writeVarInt getSizeOfVarInt
  rw [sizeLoop, length_append]
  split_ifs with short
  · rfl
  · rw [varIntDigits_length]
    rfl

theorem writeInt_length (n : Int) : (writeInt n).length = getSizeOfInt n := by
  unfold writeInt getSizeOfInt
  split_ifs with short
  · rfl
  · exact writeVarInt_length n.toNat

theorem sizeLoop_enough (fuel n : Nat) (enough : n < fuel) : sizeLoop fuel n = getSizeOfVarInt n := by
  have any : ∀ first second n, n < first → n < second → sizeLoop first n = sizeLoop second n := by
    intro first
    induction first with
    | zero =>
      intro second n less
      exact absurd less (Nat.not_lt_zero n)
    | succ first ih =>
      intro second n left right
      cases second with
      | zero => exact absurd right (Nat.not_lt_zero n)
      | succ second =>
        rw [sizeLoop, sizeLoop]
        split_ifs with short
        · rfl
        · rw [ih second (n / 128 - 1) (by omega) (by omega)]
  exact any fuel (n + 1) n enough (Nat.lt_succ_self n)

theorem getSizeOfVarInt_short (short : n ≤ 0x7f) : getSizeOfVarInt n = 1 := by
  unfold getSizeOfVarInt
  rw [sizeLoop, if_pos short]

theorem getSizeOfVarInt_long (long : 0x7f < n) :
    getSizeOfVarInt n = getSizeOfVarInt (n / 128 - 1) + 1 := by
  have unfolded : getSizeOfVarInt n =
      (if n ≤ 0x7f then 0 else sizeLoop n (n / 128 - 1)) + 1 := rfl
  rw [unfolded, if_neg (Nat.not_le.mpr long), sizeLoop_enough n (n / 128 - 1) (by omega)]

def varIntBoundaries : List Nat := [0x80, 0x4080, 0x204080, 0x10204080]

theorem getSizeOfVarInt_cases (fits : n < 2 ^ 32) :
    getSizeOfVarInt n =
      if n < 0x80 then 1
      else if n < 0x4080 then 2
      else if n < 0x204080 then 3
      else if n < 0x10204080 then 4
      else 5 := by
  split_ifs with one two three four
  · exact getSizeOfVarInt_short n (by omega)
  · rw [getSizeOfVarInt_long n (by omega), getSizeOfVarInt_short _ (by omega)]
  · rw [getSizeOfVarInt_long n (by omega), getSizeOfVarInt_long _ (by omega),
      getSizeOfVarInt_short _ (by omega)]
  · rw [getSizeOfVarInt_long n (by omega), getSizeOfVarInt_long _ (by omega),
      getSizeOfVarInt_long _ (by omega), getSizeOfVarInt_short _ (by omega)]
  · rw [getSizeOfVarInt_long n (by omega), getSizeOfVarInt_long _ (by omega),
      getSizeOfVarInt_long _ (by omega), getSizeOfVarInt_long _ (by omega),
      getSizeOfVarInt_short _ (by omega)]

theorem getSizeOfVarInt_range (fits : n < 2 ^ 32) :
    1 ≤ getSizeOfVarInt n ∧ getSizeOfVarInt n ≤ 5 := by
  rw [getSizeOfVarInt_cases n fits]
  split_ifs <;> omega

def SameLength (first second : Nat) : Prop :=
  ∀ boundary ∈ varIntBoundaries, boundary ≤ first ↔ boundary ≤ second

theorem sameLength_iff (first second : Nat) (firstFits : first < 2 ^ 32)
    (secondFits : second < 2 ^ 32) :
    SameLength first second ↔ getSizeOfVarInt first = getSizeOfVarInt second := by
  rw [getSizeOfVarInt_cases first firstFits, getSizeOfVarInt_cases second secondFits]
  unfold SameLength varIntBoundaries
  simp only [forall_mem_cons, not_mem_nil, false_imp_iff, implies_true, and_true]
  split_ifs <;> omega

end Numbers

section Entry

variable (keys : PubKeyFunctions)

def outputsSize (vout : List CTxOut) : Nat :=
  (vout.map fun txout => if txout.isNull then 0 else (writeTxOut keys txout).length).sum

def bodySize (coins : CCoins) : Nat :=
  getSizeOfInt coins.nVersion + (calcMaskSize coins.vout).1 + outputsSize keys coins.vout +
    getSizeOfInt coins.nHeight

def getSerializeSize (coins : CCoins) : Option Nat :=
  (headerCode 8 coins).map fun nCode =>
    (getSizeOfInt coins.nVersion + getSizeOfVarInt nCode + (calcMaskSize coins.vout).1 +
      outputsSize keys coins.vout + getSizeOfInt coins.nHeight) % 2 ^ 32

theorem writeOutputs_length (vout : List CTxOut) :
    (writeOutputs keys vout).length = outputsSize keys vout := by
  unfold writeOutputs outputsSize
  rw [length_flatMap]
  congr 1
  apply map_congr_left
  intro txout _
  split_ifs <;> rfl

theorem maskBytes_length (bit : Nat → Bool) (size : Nat) :
    (SparseMasks.maskBytes bit size).length = size := by
  unfold SparseMasks.maskBytes
  rw [length_map, length_range]

/-- The header code of `GetSerializeSize` and that of `Serialize`. -/
def code (packing : Nat) (coins : CCoins) : Nat :=
  (packing * codedBytes coins + codedFlags coins) % 2 ^ 32

theorem headerCode_unpruned (packing : Nat) (coins : CCoins) (unpruned : coins.isPruned = false) :
    headerCode packing coins = some (code packing coins) := by
  unfold headerCode code
  rw [if_pos (assertion_holds coins unpruned)]

theorem serialize_length (coins : CCoins) (unpruned : coins.isPruned = false) :
    (serialize keys coins).map length =
      some (bodySize keys coins + getSizeOfVarInt (code 16 coins)) := by
  unfold serialize
  rw [headerCode_unpruned 16 coins unpruned, Option.map_some, Option.map_some]
  rw [length_append, length_append, length_append, length_append,
    maskBytes_length, writeOutputs_length]
  have version : (int.write coins.nVersion).length = getSizeOfInt coins.nVersion :=
    writeInt_length coins.nVersion
  have height : (int.write coins.nHeight).length = getSizeOfInt coins.nHeight :=
    writeInt_length coins.nHeight
  have header : (varInt.write (code 16 coins)).length = getSizeOfVarInt (code 16 coins) :=
    writeVarInt_length (code 16 coins)
  rw [version, height, header]
  unfold bodySize
  congr 1
  omega

/-- The size is that of the bytes if and only if both header codes have the same
length and the size fits in an `unsigned int`. -/
theorem size_matches_iff (coins : CCoins) (unpruned : coins.isPruned = false) :
    getSerializeSize keys coins = (serialize keys coins).map List.length ↔
      SameLength (code 8 coins) (code 16 coins) ∧
        bodySize keys coins + getSizeOfVarInt (code 16 coins) < 2 ^ 32 := by
  have eightFits : code 8 coins < 2 ^ 32 := Nat.mod_lt _ (by decide)
  have sixteenFits : code 16 coins < 2 ^ 32 := Nat.mod_lt _ (by decide)
  have eight := getSizeOfVarInt_range (code 8 coins) eightFits
  have sixteen := getSizeOfVarInt_range (code 16 coins) sixteenFits
  rw [serialize_length keys coins unpruned, sameLength_iff _ _ eightFits sixteenFits]
  unfold getSerializeSize
  rw [headerCode_unpruned 8 coins unpruned, Option.map_some, Option.some.injEq]
  have sum : getSizeOfInt coins.nVersion + getSizeOfVarInt (code 8 coins) +
      (calcMaskSize coins.vout).1 + outputsSize keys coins.vout + getSizeOfInt coins.nHeight =
        bodySize keys coins + getSizeOfVarInt (code 8 coins) := by
    unfold bodySize
    omega
  rw [sum]
  generalize bodySize keys coins = body
  omega

def manyOutputs (count : Nat) : CCoins where
  fCoinBase := false
  fCoinStake := false
  vout := List.replicate count { nValue := 5, scriptPubKey := [] }
  nHeight := 1
  nVersion := 1

theorem size_matches_for_two :
    getSerializeSize ScriptCompression.generatorKeys (manyOutputs 2) =
      (serialize ScriptCompression.generatorKeys (manyOutputs 2)).map List.length :=
  (size_matches_iff ScriptCompression.generatorKeys (manyOutputs 2) (by decide)).mpr
    ⟨by unfold SameLength; decide +kernel, by decide +kernel⟩

/-- With 66 outputs the mask has eight bytes: the codes are 76 and 140. -/
theorem size_misses_a_byte :
    (manyOutputs 66).isPruned = false ∧
      getSerializeSize ScriptCompression.generatorKeys (manyOutputs 66) = some 143 ∧
      (serialize ScriptCompression.generatorKeys (manyOutputs 66)).map List.length = some 144 := by
  decide +kernel

end Entry

end ZenonCore.CoinsSize
