import ZenonCore.CompactTarget
import ZenonCore.Library.LimbBits

/-!
# Operators of `base_uint`

The loops of `uint256.h` and `uint256.cpp` over the limbs `pn`.
-/

namespace ZenonCore.BaseUintOperators

open Limbs LimbBits Primitives BaseUint

def shiftLeft (n : Uint256) (shift : Nat) : Uint256 :=
  ofPn (shiftUp 32 (shift / 32) (shift % 32) (pn n))

def shiftRight (n : Uint256) (shift : Nat) : Uint256 :=
  ofPn (shiftDown 32 (shift / 32) (shift % 32) (pn n))

def bits (n : Uint256) : Nat := bitsBelow 32 (pn n) width

def compareTo (a b : Uint256) : Int := compareBelow (pn a) (pn b) width

def complement (n : Uint256) : Uint256 := ofPn (LimbBits.complement 32 (pn n))

def increment (n : Uint256) : Uint256 := ofPn (LimbBits.increment (2 ^ 32) (pn n))

def negate (n : Uint256) : Uint256 := increment (complement n)

def add (a b : Uint256) : Uint256 := ofPn (addScaled (2 ^ 32) 1 0 (pn a) (pn b))

def subtract (a b : Uint256) : Uint256 := add a (negate b)

def assign (b : UInt64) : Uint256 :=
  ofPn ([b.toNat % 2 ^ 32, (b >>> 32).toNat] ++ List.replicate (width - 2) 0)

def equalTo (n : Uint256) (b : UInt64) : Bool :=
  if ((pn n).drop 2).any fun limb => limb != 0 then false
  else if (pn n).getD 1 0 ≠ (b >>> 32).toNat then false
  else decide ((pn n).getD 0 0 = (b &&& 0xffffffff).toNat)

def getLow64 (n : Uint256) : UInt64 :=
  UInt64.ofNat ((pn n).getD 0 0) ||| UInt64.ofNat ((pn n).getD 1 0) <<< 32

def setBit (n : Uint256) (shift : Nat) : Uint256 :=
  ofPn (orAt (pn n) (shift / 32) (1 <<< (shift &&& 31)))

def divideLoop : Nat → Uint256 → Uint256 → Uint256 → Uint256
  | 0, _, _, quotient => quotient
  | shift + 1, num, div, quotient =>
    if 0 ≤ compareTo num div then
      divideLoop shift (subtract num div) (shiftRight div 1) (setBit quotient shift)
    else divideLoop shift num (shiftRight div 1) quotient

def divide (a b : Uint256) : Option Uint256 :=
  let num_bits := bits a
  let div_bits := bits b
  if div_bits = 0 then none
  else if num_bits < div_bits then some 0
  else
    let shift := num_bits - div_bits
    some (divideLoop (shift + 1) a (shiftLeft b shift) 0)

section Limbs

variable (n : Uint256)

theorem pn_length : (pn n).length = 8 := limbsOf_length ..

theorem ofPn_toNat (limbs : List Nat) :
    (ofPn limbs).toNat = Nat.ofDigits (2 ^ 32) limbs % 2 ^ 256 := BitVec.toNat_ofNat ..

theorem take_pn : (pn n).take width = pn n :=
  List.take_of_length_le (by rw [pn_length, width])

theorem shiftLeft_eq (shift : Nat) : shiftLeft n shift = n <<< shift := by
  apply BitVec.eq_of_toNat_eq
  rw [shiftLeft, ofPn_toNat, shiftUp_value 32 _ _ _ (Nat.mod_lt shift (by decide)) (pn_fits n),
    pn_value, pn_length, Nat.div_add_mod, BitVec.toNat_shiftLeft, Nat.shiftLeft_eq, Nat.mod_mod]

theorem shiftRight_eq (shift : Nat) : shiftRight n shift = n >>> shift := by
  apply BitVec.eq_of_toNat_eq
  rw [shiftRight, ofPn_toNat, shiftDown_value 32 _ _ _ (Nat.mod_lt shift (by decide)) (pn_fits n),
    pn_value, Nat.div_add_mod, BitVec.toNat_ushiftRight, Nat.shiftRight_eq_div_pow]
  exact Nat.mod_eq_of_lt (lt_of_le_of_lt (Nat.div_le_self _ _) n.isLt)

theorem bits_eq : bits n = ProofOfWork.bits n := by
  have below := bitsBelow_spec 32 (by decide) (pn n) (pn_fits n) width
  rw [take_pn, pn_value] at below
  rw [bits, ProofOfWork.bits]
  obtain ⟨none, zero⟩ | ⟨least, floor, ceiling⟩ := below
  · have same : n = 0 := BitVec.eq_of_toNat_eq (by simpa using zero)
    rw [none, if_pos same]
  · have positive : n.toNat ≠ 0 := by
      have power := Nat.two_pow_pos (bitsBelow 32 (pn n) width - 1)
      omega
    have nonzero : n ≠ 0 := by
      rintro rfl
      exact positive rfl
    have log : n.toNat.log2 = bitsBelow 32 (pn n) width - 1 := by
      rw [Nat.log2_eq_iff positive, Nat.sub_add_cancel least]
      exact ⟨floor, ceiling⟩
    rw [if_neg nonzero, log, Nat.sub_add_cancel least]

variable (a b : Uint256)

theorem compareTo_eq :
    compareTo a b = if a.toNat < b.toNat then -1 else if b.toNat < a.toNat then 1 else 0 := by
  rw [compareTo, compareBelow_spec 32 _ _ (pn_fits a) (pn_fits b), take_pn, take_pn, pn_value,
    pn_value]

theorem compareTo_nonneg : 0 ≤ compareTo a b ↔ b.toNat ≤ a.toNat := by
  rw [compareTo_eq]
  split_ifs <;> omega

theorem complement_toNat : (complement n).toNat = 2 ^ 256 - 1 - n.toNat := by
  have value := complement_value 32 (pn n) (pn_fits n)
  rw [pn_value, pn_length, ← pow_mul] at value
  rw [complement, ofPn_toNat]
  omega

theorem complement_eq : complement n = ~~~n := by
  apply BitVec.eq_of_toNat_eq
  rw [complement_toNat, BitVec.toNat_not]

theorem increment_eq : increment n = n + 1 := by
  apply BitVec.eq_of_toNat_eq
  rw [increment, ofPn_toNat, increment_value (2 ^ 32) (pn n) (pn_fits n), pn_value, pn_length,
    ← pow_mul, Nat.mod_mod, BitVec.toNat_add]
  rfl

theorem negate_eq : negate n = -n := by
  rw [negate, complement_eq, increment_eq]
  exact (BitVec.neg_eq_not_add n).symm

theorem add_eq : add a b = a + b := by
  apply BitVec.eq_of_toNat_eq
  rw [add, ofPn_toNat, addScaled_value (2 ^ 32) (by decide) 1 0 _ _ (by decide) (by decide)
    (pn_fits a) (pn_fits b), pn_value, pn_value, pn_length, Nat.one_mul, Nat.zero_add, ← pow_mul,
    Nat.mod_mod, BitVec.toNat_add]

theorem subtract_eq : subtract a b = a - b := by
  rw [subtract, negate_eq, add_eq]
  exact (BitVec.sub_eq_add_neg a b).symm

theorem setBit_toNat (shift : Nat) (inside : shift < 256) :
    (setBit n shift).toNat = n.toNat ||| 2 ^ shift := by
  have low : shift &&& 31 = shift % 32 := Nat.and_two_pow_sub_one_eq_mod shift 5
  have bound : n.toNat ||| 2 ^ shift < 2 ^ 256 :=
    Nat.or_lt_two_pow n.isLt (Nat.pow_lt_pow_right Nat.one_lt_two inside)
  rw [setBit, low, Nat.one_shiftLeft, ofPn_toNat, orAt_value 32 _ (pn_fits n) _ _
    (Nat.mod_lt shift (by decide)) (by rw [pn_length]; omega), pn_value, Nat.div_add_mod]
  exact Nat.mod_eq_of_lt bound

theorem assign_toNat (b : UInt64) : (assign b).toNat = b.toNat := by
  have bound := b.toNat_lt
  have high : (b >>> 32).toNat = b.toNat / 2 ^ 32 := by
    rw [UInt64.toNat_shiftRight, Nat.shiftRight_eq_div_pow]
    rfl
  have zeros : Nat.ofDigits (2 ^ 32) (List.replicate (width - 2) 0) = 0 := rfl
  rw [assign, ofPn_toNat, Nat.ofDigits_append, zeros, high, Nat.mul_zero, Nat.add_zero,
    Nat.ofDigits_cons, Nat.ofDigits_singleton]
  omega

theorem pn_low : (pn n).getD 0 0 = n.toNat % 2 ^ 32 := rfl

theorem pn_next : (pn n).getD 1 0 = n.toNat / 2 ^ 32 % 2 ^ 32 := rfl

theorem getLow64_toNat : (getLow64 n).toNat = n.toNat % 2 ^ 64 := by
  have low := Nat.mod_lt n.toNat (show 0 < 2 ^ 32 by decide)
  have high := Nat.mod_lt (n.toNat / 2 ^ 32) (show 0 < 2 ^ 32 by decide)
  have first : (UInt64.ofNat (n.toNat % 2 ^ 32)).toNat = n.toNat % 2 ^ 32 := by
    rw [UInt64.toNat_ofNat']
    omega
  have second : (UInt64.ofNat (n.toNat / 2 ^ 32 % 2 ^ 32) <<< 32).toNat =
      2 ^ 32 * (n.toNat / 2 ^ 32 % 2 ^ 32) := by
    rw [UInt64.toNat_shiftLeft, UInt64.toNat_ofNat', Nat.shiftLeft_eq]
    change n.toNat / 2 ^ 32 % 2 ^ 32 % 2 ^ 64 * 2 ^ 32 % 2 ^ 64 = _
    omega
  rw [getLow64, pn_low, pn_next, UInt64.toNat_or, first, second, Nat.or_comm,
    ← Nat.two_pow_add_eq_or_of_lt low]
  omega

theorem equalTo_iff (b : UInt64) : equalTo n b = true ↔ n.toNat = b.toNat := by
  have bound := b.toNat_lt
  have high : (b >>> 32).toNat = b.toNat / 2 ^ 32 := by
    rw [UInt64.toNat_shiftRight, Nat.shiftRight_eq_div_pow]
    rfl
  have low : (b &&& 0xffffffff).toNat = b.toNat % 2 ^ 32 := by
    rw [UInt64.toNat_and]
    exact Nat.and_two_pow_sub_one_eq_mod b.toNat 32
  have rest : (pn n).drop 2 = limbsOf (2 ^ 32) 6 (n.toNat / 2 ^ 32 / 2 ^ 32) := rfl
  have value : Nat.ofDigits (2 ^ 32) ((pn n).drop 2) = n.toNat / 2 ^ 64 := by
    rw [rest, limbsOf_value]
    have top := n.isLt
    omega
  have zero : ((pn n).drop 2).any (fun limb => limb != 0) = false ↔ n.toNat / 2 ^ 64 = 0 := by
    rw [← value, ofDigits_eq_zero_iff (2 ^ 32) (by decide), List.any_eq_false]
    simp
  rw [equalTo, pn_low, pn_next, high, low]
  by_cases top : n.toNat / 2 ^ 64 = 0
  · rw [zero.mpr top, if_neg (by decide)]
    by_cases second : n.toNat / 2 ^ 32 % 2 ^ 32 = b.toNat / 2 ^ 32
    · rw [if_neg fun differ => differ second, decide_eq_true_iff]
      omega
    · rw [if_pos second]
      simp only [Bool.false_eq_true, false_iff]
      rintro same
      rw [same] at second
      omega
  · rw [(Bool.not_eq_false _).mp fun none => top (zero.mp none), if_pos rfl]
    simp only [Bool.false_eq_true, false_iff]
    rintro same
    rw [same] at top
    omega

end Limbs

theorem divideLoop_toNat (shift : Nat) (few : shift ≤ 256) (num div quotient : Uint256) :
    (divideLoop shift num div quotient).toNat =
      (divideRounds quotient.toNat num.toNat div.toNat shift).1 := by
  induction shift generalizing num div quotient with
  | zero => rfl
  | succ shift ih =>
    have halved : (shiftRight div 1).toNat = div.toNat / 2 := by
      rw [shiftRight_eq, BitVec.toNat_ushiftRight, Nat.shiftRight_eq_div_pow, pow_one]
    rw [divideLoop, divideRounds]
    by_cases fits : div.toNat ≤ num.toNat
    · have less : (subtract num div).toNat = num.toNat - div.toNat := by
        rw [subtract_eq]
        exact BitVec.toNat_sub_of_le fits
      rw [if_pos ((compareTo_nonneg num div).mpr fits), if_pos fits, ih (by omega), halved, less,
        setBit_toNat _ _ (by omega)]
    · rw [if_neg fun above => fits ((compareTo_nonneg num div).mp above), if_neg fits,
        ih (by omega), halved]

theorem divide_eq_divBaseUint (a b : Uint256) : divide a b = divBaseUint a b := by
  rw [divide, divBaseUint, bits_eq, bits_eq]
  dsimp only
  split_ifs with zero short
  · rfl
  · rfl
  · have most := bits_le a
    congr 1
    apply BitVec.eq_of_toNat_eq
    have value := divideLoop_toNat (ProofOfWork.bits a - ProofOfWork.bits b + 1) (by omega) a
      (shiftLeft b (ProofOfWork.bits a - ProofOfWork.bits b)) 0
    have below : (divideRounds 0 a.toNat (shiftLeft b
        (ProofOfWork.bits a - ProofOfWork.bits b)).toNat
          (ProofOfWork.bits a - ProofOfWork.bits b + 1)).1 < 2 ^ 256 := by
      rw [← show (0 : Uint256).toNat = 0 from rfl, ← value]
      exact BitVec.isLt _
    rw [value, BitVec.toNat_ofNat, ← shiftLeft_eq, Nat.mod_eq_of_lt below]
    rfl

theorem divide_eq (a b : Uint256) (nonzero : b ≠ 0) : divide a b = some (a / b) := by
  rw [divide_eq_divBaseUint, divBaseUint_eq a b nonzero]

end ZenonCore.BaseUintOperators
