import ZenonCore.Library.Limbs
import ZenonCore.ProofOfWork

/-!
# Arithmetic of `base_uint`

The loops of `uint256.cpp` over the eight limbs `pn`, and that they compute
what the operators of 256-bit numbers do.
-/

namespace ZenonCore.BaseUint

open Limbs Primitives ProofOfWork

def width : Nat := 8

def pn (n : Uint256) : List Nat := limbsOf (2 ^ 32) width n.toNat

def ofPn (limbs : List Nat) : Uint256 := BitVec.ofNat 256 (Nat.ofDigits (2 ^ 32) limbs)

def mulUint32 (n : Uint256) (b32 : UInt32) : Uint256 := ofPn (scale (2 ^ 32) b32.toNat 0 (pn n))

def divBaseUint (num div : Uint256) : Option Uint256 :=
  if bits div = 0 then none
  else if bits num < bits div then some 0
  else
    let shift := bits num - bits div
    some (BitVec.ofNat 256
      (divideRounds 0 num.toNat (div <<< shift).toNat (shift + 1)).1)

variable (n : Uint256)

theorem pn_value : Nat.ofDigits (2 ^ 32) (pn n) = n.toNat := by
  rw [pn, limbsOf_value]
  exact Nat.mod_eq_of_lt n.isLt

theorem pn_fits : AllFit (2 ^ 32) (pn n) :=
  limbsOf_limbs (2 ^ 32) (by decide) width n.toNat

theorem mulUint32_eq (b32 : UInt32) :
    mulUint32 n b32 = n * BitVec.ofNat 256 b32.toNat := by
  unfold mulUint32 ofPn
  rw [scale_value (2 ^ 32) (by decide) b32.toNat 0 (pn n) b32.toNat_lt (by decide) (pn_fits n),
    pn_value, Nat.zero_add, Nat.mul_comm]
  apply BitVec.eq_of_toNat_eq
  simp [pn, width, BitVec.toNat_mul]

/-- The product of the retargeting is taken by the loop over the limbs, from a
factor of 32 bits. -/
theorem mulWord_eq (factor : Int) :
    mulWord n factor = mulUint32 n (UInt32.ofNat (factor % 2 ^ 32).toNat) := by
  have nonneg : 0 ≤ factor % 2 ^ 32 := Int.emod_nonneg _ (by decide)
  have below : factor % 2 ^ 32 < 2 ^ 32 := Int.emod_lt_of_pos _ (by decide)
  rw [mulUint32_eq]
  unfold mulWord
  congr 1
  obtain ⟨word, same⟩ := Int.eq_ofNat_of_zero_le nonneg
  rw [same] at below ⊢
  have small : word < 2 ^ 32 := by exact_mod_cast below
  rw [Int.toNat_natCast, UInt32.toNat_ofNat_of_lt' small, BitVec.ofInt_natCast]

theorem lt_two_pow_bits : n.toNat < 2 ^ bits n := by
  unfold bits
  split_ifs with zero
  · rw [zero]
    decide
  · exact Nat.lt_log2_self

theorem two_pow_bits_le (nonzero : n ≠ 0) : 2 ^ (bits n - 1) ≤ n.toNat := by
  have positive : n.toNat ≠ 0 := fun zero => nonzero (BitVec.eq_of_toNat_eq (by simpa using zero))
  rw [bits, if_neg nonzero, Nat.add_sub_cancel]
  exact Nat.log2_self_le positive

theorem bits_le : bits n ≤ 256 := by
  unfold bits
  split_ifs with zero
  · exact Nat.zero_le _
  · have positive : n.toNat ≠ 0 := fun same => zero (BitVec.eq_of_toNat_eq (by simpa using same))
    exact (Nat.log2_lt positive).mpr n.isLt

theorem bits_eq_zero : bits n = 0 ↔ n = 0 := by
  unfold bits
  split_ifs with zero
  · exact ⟨fun _ => zero, fun _ => rfl⟩
  · constructor
    · intro same
      cases same
    · intro same
      exact absurd same zero

theorem divBaseUint_eq (num div : Uint256) (nonzero : div ≠ 0) :
    divBaseUint num div = some (num / div) := by
  unfold divBaseUint
  have numBound := lt_two_pow_bits num
  have divBound := lt_two_pow_bits div
  have divFloor := two_pow_bits_le div nonzero
  have positive : bits div ≠ 0 := fun none => nonzero ((bits_eq_zero div).mp none)
  rw [if_neg positive]
  split_ifs with short
  · have less : num.toNat < div.toNat := by
      apply lt_of_lt_of_le numBound
      exact (Nat.pow_le_pow_right Nat.two_pos (by omega)).trans divFloor
    congr 1
    apply BitVec.eq_of_toNat_eq
    rw [BitVec.toNat_udiv, Nat.div_eq_of_lt less]
    rfl
  · have aligned : (div <<< (bits num - bits div)).toNat =
        div.toNat * 2 ^ (bits num - bits div) := by
      rw [BitVec.toNat_shiftLeft, Nat.shiftLeft_eq]
      apply Nat.mod_eq_of_lt
      calc div.toNat * 2 ^ (bits num - bits div)
          < 2 ^ bits div * 2 ^ (bits num - bits div) :=
            Nat.mul_lt_mul_of_pos_right divBound (Nat.two_pow_pos _)
        _ = 2 ^ bits num := by
            rw [← pow_add]
            congr 1
            omega
        _ ≤ 2 ^ 256 := Nat.pow_le_pow_right Nat.two_pos (bits_le num)
    have below : num.toNat < div.toNat * 2 ^ (bits num - bits div + 1) := by
      calc num.toNat < 2 ^ bits num := numBound
        _ = 2 ^ (bits div - 1) * 2 ^ (bits num - bits div + 1) := by
            rw [← pow_add]
            congr 1
            omega
        _ ≤ div.toNat * 2 ^ (bits num - bits div + 1) := Nat.mul_le_mul_right _ divFloor
    have rounds := divideRounds_eq 0 num.toNat (div <<< (bits num - bits div)).toNat div.toNat
      (bits num - bits div + 1) (fun shift same => by rw [aligned, Nat.add_right_cancel same]) below
    rw [Nat.mul_zero] at rounds
    dsimp only
    rw [rounds]
    congr 1
    apply BitVec.eq_of_toNat_eq
    rw [BitVec.toNat_ofNat, BitVec.toNat_udiv, Nat.zero_add]
    exact Nat.mod_eq_of_lt (lt_of_le_of_lt (Nat.div_le_self _ _) num.isLt)

end ZenonCore.BaseUint
