import Mathlib.Data.Nat.Bitwise
import ZenonCore.BaseUint

/-!
# The compact form of a target

The number of bytes of a target and its three highest bytes, which lose one where the sign
would be.
-/

namespace ZenonCore.CompactTarget

open BaseUint Primitives ProofOfWork

def pack (nSize nWord : Nat) : UInt32 := UInt32.ofNat (nWord + nSize * 2 ^ 24)

def unpack (nSize nWord : Nat) : Nat := nWord * 256 ^ nSize / 256 ^ 3

variable (nSize nWord : Nat)

theorem pack_toNat (size : nSize < 256) (word : nWord < 2 ^ 24) :
    (pack nSize nWord).toNat = nWord + nSize * 2 ^ 24 := by
  unfold pack
  rw [UInt32.toNat_ofNat']
  omega

theorem unpack_short (short : nSize ≤ 3) :
    unpack nSize nWord = nWord / 256 ^ (3 - nSize) := by
  unfold unpack
  have split : 256 ^ 3 = 256 ^ (3 - nSize) * 256 ^ nSize := by
    rw [← pow_add, Nat.sub_add_cancel short]
  rw [split, Nat.mul_div_mul_right _ _ (by positivity)]

theorem unpack_long (long : 3 ≤ nSize) :
    unpack nSize nWord = nWord * 256 ^ (nSize - 3) := by
  unfold unpack
  have split : 256 ^ nSize = 256 ^ (nSize - 3) * 256 ^ 3 := by
    rw [← pow_add, Nat.sub_add_cancel long]
  rw [split, ← Nat.mul_assoc, Nat.mul_div_cancel _ (by positivity)]

theorem pow_bytes (count : Nat) : 2 ^ (8 * count) = 256 ^ count := by
  rw [Nat.pow_mul]

theorem setCompact_toNat (nCompact : UInt32) :
    (setCompact nCompact).toNat =
      unpack (nCompact.toNat / 2 ^ 24) (nCompact.toNat % 2 ^ 23) % 2 ^ 256 := by
  have size : (nCompact >>> 24).toNat = nCompact.toNat / 2 ^ 24 := by
    rw [UInt32.toNat_shiftRight, Nat.shiftRight_eq_div_pow]
    rfl
  have word : (nCompact &&& 0x007fffff).toNat = nCompact.toNat % 2 ^ 23 := by
    rw [UInt32.toNat_and]
    exact Nat.and_two_pow_sub_one_eq_mod nCompact.toNat 23
  unfold setCompact
  rw [size, word]
  dsimp only
  split_ifs with short
  · rw [unpack_short _ _ short, BitVec.toNat_ofNat, Nat.shiftRight_eq_div_pow, pow_bytes]
  · rw [unpack_long _ _ (by omega), BitVec.toNat_shiftLeft, Nat.shiftLeft_eq, BitVec.toNat_ofNat,
      pow_bytes, Nat.mod_mul_mod]

theorem setCompact_pack (size : nSize < 256) (word : nWord < 2 ^ 23) :
    (setCompact (pack nSize nWord)).toNat = unpack nSize nWord % 2 ^ 256 := by
  have divided : (nWord + nSize * 2 ^ 24) / 2 ^ 24 = nSize := by omega
  have rest : (nWord + nSize * 2 ^ 24) % 2 ^ 23 = nWord := by omega
  rw [setCompact_toNat, pack_toNat nSize nWord size (by omega), divided, rest]

theorem setCompact_coarse (nCompact : UInt32) :
    ∃ bytes, 256 ^ bytes ∣ (setCompact nCompact).toNat ∧
      (setCompact nCompact).toNat < 2 ^ 23 * 256 ^ bytes := by
  have word : nCompact.toNat % 2 ^ 23 < 2 ^ 23 := Nat.mod_lt _ (by decide)
  rw [setCompact_toNat]
  obtain short | long := Nat.le_total (nCompact.toNat / 2 ^ 24) 3
  · refine ⟨0, one_dvd _, ?_⟩
    rw [unpack_short _ _ short, pow_zero, Nat.mul_one]
    exact lt_of_le_of_lt (Nat.mod_le _ _) (lt_of_le_of_lt (Nat.div_le_self _ _) word)
  · refine ⟨nCompact.toNat / 2 ^ 24 - 3, ?_, ?_⟩
    · rw [unpack_long _ _ long]
      obtain fits | beyond := Nat.le_total (nCompact.toNat / 2 ^ 24 - 3) 32
      · have divides : 256 ^ (nCompact.toNat / 2 ^ 24 - 3) ∣ 2 ^ 256 := by
          rw [show (2 : Nat) ^ 256 = 256 ^ 32 by norm_num]
          exact pow_dvd_pow 256 fits
        exact (Nat.dvd_mod_iff divides).mpr (Dvd.intro_left _ rfl)
      · have multiple : 2 ^ 256 ∣ nCompact.toNat % 2 ^ 23 *
            256 ^ (nCompact.toNat / 2 ^ 24 - 3) := by
          rw [show (2 : Nat) ^ 256 = 256 ^ 32 by norm_num]
          exact Dvd.dvd.mul_left (pow_dvd_pow 256 beyond) _
        rw [Nat.mod_eq_zero_of_dvd multiple]
        exact dvd_zero _
    · apply lt_of_le_of_lt (Nat.mod_le _ _)
      rw [unpack_long _ _ long]
      exact Nat.mul_lt_mul_of_pos_right word (by positivity)

variable (n : Uint256)

theorem bytes_bounds (nonzero : n ≠ 0) :
    n.toNat < 256 ^ ((bits n + 7) / 8) ∧ 256 ^ ((bits n + 7) / 8 - 1) ≤ n.toNat ∧
      1 ≤ (bits n + 7) / 8 ∧ (bits n + 7) / 8 ≤ 32 := by
  have positive : bits n ≠ 0 := fun none => nonzero ((bits_eq_zero n).mp none)
  have most := bits_le n
  refine ⟨?_, ?_, by omega, by omega⟩
  · rw [← pow_bytes]
    exact lt_of_lt_of_le (lt_two_pow_bits n) (Nat.pow_le_pow_right Nat.two_pos (by omega))
  · rw [← pow_bytes]
    exact (Nat.pow_le_pow_right Nat.two_pos (by omega)).trans (two_pow_bits_le n nonzero)

def leading (n : Uint256) : Nat := n.toNat * 256 ^ 3 / 256 ^ ((bits n + 7) / 8)

theorem leading_eq :
    (if (bits n + 7) / 8 ≤ 3 then n.toNat <<< (8 * (3 - (bits n + 7) / 8))
      else n.toNat >>> (8 * ((bits n + 7) / 8 - 3))) = leading n := by
  unfold leading
  split_ifs with short
  · have split : 256 ^ 3 = 256 ^ (3 - (bits n + 7) / 8) * 256 ^ ((bits n + 7) / 8) := by
      rw [← pow_add, Nat.sub_add_cancel short]
    rw [Nat.shiftLeft_eq, pow_bytes, split, ← Nat.mul_assoc, Nat.mul_div_cancel _ (by positivity)]
  · have split : 256 ^ ((bits n + 7) / 8) = 256 ^ ((bits n + 7) / 8 - 3) * 256 ^ 3 := by
      rw [← pow_add, Nat.sub_add_cancel (by omega)]
    rw [Nat.shiftRight_eq_div_pow, pow_bytes, split, Nat.mul_div_mul_right _ _ (by positivity)]

theorem leading_bounds (nonzero : n ≠ 0) :
    2 ^ 16 ≤ leading n ∧ leading n < 2 ^ 24 := by
  obtain ⟨upper, lower, least, _⟩ := bytes_bounds n nonzero
  unfold leading
  constructor
  · rw [Nat.le_div_iff_mul_le (by positivity)]
    calc 2 ^ 16 * 256 ^ ((bits n + 7) / 8)
        = 256 ^ ((bits n + 7) / 8 - 1) * 256 ^ 3 := by
          rw [show (2 : Nat) ^ 16 = 256 ^ 2 by norm_num, ← pow_add, ← pow_add]
          congr 1
          omega
      _ ≤ n.toNat * 256 ^ 3 := Nat.mul_le_mul_right _ lower
  · rw [Nat.div_lt_iff_lt_mul (by positivity)]
    calc n.toNat * 256 ^ 3 < 256 ^ ((bits n + 7) / 8) * 256 ^ 3 :=
          Nat.mul_lt_mul_of_pos_right upper (by positivity)
      _ = 2 ^ 24 * 256 ^ ((bits n + 7) / 8) := by
          rw [Nat.mul_comm]
          norm_num

theorem sign_bit (word : Nat) (fits : word < 2 ^ 24) :
    word &&& 0x00800000 ≠ 0 ↔ 2 ^ 23 ≤ word := by
  have masked : word &&& 0x00800000 = (word.testBit 23).toNat * 2 ^ 23 :=
    Nat.and_two_pow word 23
  rw [masked, Nat.testBit_eq_decide_div_mod_eq]
  by_cases set : 2 ^ 23 ≤ word
  · have one : word / 2 ^ 23 % 2 = 1 := by omega
    rw [one]
    exact ⟨fun _ => set, fun _ => by decide⟩
  · have zero : word / 2 ^ 23 % 2 = 0 := by omega
    rw [zero]
    exact ⟨fun bit => absurd rfl bit, fun above => absurd above set⟩

theorem or_size (word nSize : Nat) (fits : word < 2 ^ 24) :
    word ||| nSize <<< 24 = word + nSize * 2 ^ 24 := by
  rw [Nat.or_comm, ← Nat.shiftLeft_add_eq_or_of_lt fits, Nat.shiftLeft_eq, Nat.add_comm]

theorem getCompact_cases (nonzero : n ≠ 0) :
    getCompact n =
      if 2 ^ 23 ≤ leading n then pack ((bits n + 7) / 8 + 1) (leading n / 256)
      else pack ((bits n + 7) / 8) (leading n) := by
  have bounds := leading_bounds n nonzero
  unfold getCompact
  dsimp only
  rw [leading_eq]
  by_cases set : 2 ^ 23 ≤ leading n
  · rw [if_pos ((sign_bit _ bounds.2).mpr set), if_pos set, Nat.shiftRight_eq_div_pow]
    have small : leading n / 2 ^ 8 < 2 ^ 24 := lt_of_le_of_lt (Nat.div_le_self _ _) bounds.2
    rw [or_size _ _ small]
    rfl
  · rw [if_neg fun sign => set ((sign_bit _ bounds.2).mp sign), if_neg set,
      or_size _ _ bounds.2]
    rfl

theorem getCompact_spec (nonzero : n ≠ 0) :
    ∃ nSize nWord, getCompact n = pack nSize nWord ∧ nSize ≤ 33 ∧ 2 ^ 15 ≤ nWord ∧
      nWord < 2 ^ 23 ∧ nWord * 256 ^ nSize ≤ n.toNat * 256 ^ 3 ∧
      n.toNat * 256 ^ 3 < (nWord + 1) * 256 ^ nSize := by
  have bounds := leading_bounds n nonzero
  obtain ⟨_, _, _, most⟩ := bytes_bounds n nonzero
  have floor : leading n * 256 ^ ((bits n + 7) / 8) ≤ n.toNat * 256 ^ 3 := Nat.div_mul_le_self _ _
  have ceiling : n.toNat * 256 ^ 3 < (leading n + 1) * 256 ^ ((bits n + 7) / 8) :=
    Nat.lt_mul_of_div_lt (Nat.lt_add_one _) (by positivity)
  rw [getCompact_cases n nonzero]
  split_ifs with set
  · refine ⟨_, _, rfl, by omega, by omega, by omega, ?_, ?_⟩
    · calc leading n / 256 * 256 ^ ((bits n + 7) / 8 + 1)
          = leading n / 256 * 256 * 256 ^ ((bits n + 7) / 8) := by ring
        _ ≤ leading n * 256 ^ ((bits n + 7) / 8) :=
            Nat.mul_le_mul_right _ (Nat.div_mul_le_self _ _)
        _ ≤ n.toNat * 256 ^ 3 := floor
    · calc n.toNat * 256 ^ 3 < (leading n + 1) * 256 ^ ((bits n + 7) / 8) := ceiling
        _ ≤ (leading n / 256 + 1) * 256 * 256 ^ ((bits n + 7) / 8) :=
            Nat.mul_le_mul_right _ (by omega)
        _ = (leading n / 256 + 1) * 256 ^ ((bits n + 7) / 8 + 1) := by ring
  · exact ⟨_, _, rfl, by omega, by omega, by omega, floor, ceiling⟩

theorem getCompact_zero : getCompact 0 = 0 := by decide

theorem setCompact_zero : setCompact 0 = 0 := by decide

theorem setCompact_getCompact (nonzero : n ≠ 0) :
    ∃ nSize nWord, (setCompact (getCompact n)).toNat = unpack nSize nWord ∧ 2 ^ 15 ≤ nWord ∧
      nWord * 256 ^ nSize ≤ n.toNat * 256 ^ 3 ∧
      n.toNat * 256 ^ 3 < (nWord + 1) * 256 ^ nSize := by
  obtain ⟨nSize, nWord, packed, size, least, word, floor, ceiling⟩ := getCompact_spec n nonzero
  refine ⟨nSize, nWord, ?_, least, floor, ceiling⟩
  have below : unpack nSize nWord ≤ n.toNat := by
    unfold unpack
    rw [Nat.div_le_iff_le_mul_add_pred (by positivity)]
    omega
  rw [packed, setCompact_pack nSize nWord (by omega) word]
  exact Nat.mod_eq_of_lt (lt_of_le_of_lt below n.isLt)

theorem reread_le : (setCompact (getCompact n)).toNat ≤ n.toNat := by
  by_cases zero : n = 0
  · rw [zero, getCompact_zero, setCompact_zero]
  · obtain ⟨nSize, nWord, reread, _, floor, _⟩ := setCompact_getCompact n zero
    rw [reread]
    unfold unpack
    rw [Nat.div_le_iff_le_mul_add_pred (by positivity)]
    omega

theorem lt_twice_reread (nonzero : n ≠ 0) :
    n.toNat < 2 * (setCompact (getCompact n)).toNat := by
  obtain ⟨nSize, nWord, reread, least, floor, ceiling⟩ := setCompact_getCompact n nonzero
  rw [reread]
  obtain short | long := Nat.le_total nSize 3
  · -- a short number keeps all its bytes
    have split : 256 ^ 3 = 256 ^ (3 - nSize) * 256 ^ nSize := by
      rw [← pow_add, Nat.sub_add_cancel short]
    rw [split, ← Nat.mul_assoc] at floor ceiling
    have lower := Nat.le_of_mul_le_mul_right floor (by positivity)
    have upper := Nat.lt_of_mul_lt_mul_right ceiling
    have exactly : nWord = n.toNat * 256 ^ (3 - nSize) := by omega
    have positive : 0 < n.toNat := by
      obtain zero | positive := Nat.eq_zero_or_pos n.toNat
      · exact absurd (BitVec.eq_of_toNat_eq (by simpa using zero)) nonzero
      · exact positive
    rw [unpack_short _ _ short, exactly, Nat.mul_div_cancel _ (by positivity)]
    omega
  · have split : 256 ^ nSize = 256 ^ (nSize - 3) * 256 ^ 3 := by
      rw [← pow_add, Nat.sub_add_cancel long]
    rw [split, ← Nat.mul_assoc] at ceiling
    have upper := Nat.lt_of_mul_lt_mul_right ceiling
    rw [unpack_long _ _ long]
    calc n.toNat < (nWord + 1) * 256 ^ (nSize - 3) := upper
      _ ≤ 2 * nWord * 256 ^ (nSize - 3) := Nat.mul_le_mul_right _ (by omega)
      _ = 2 * (nWord * 256 ^ (nSize - 3)) := Nat.mul_assoc _ _ _

theorem le_reread (nCompact : UInt32) (n : Uint256)
    (below : (setCompact nCompact).toNat ≤ n.toNat) :
    (setCompact nCompact).toNat ≤ (setCompact (getCompact n)).toNat := by
  by_cases zero : n = 0
  · rw [zero] at below ⊢
    rw [getCompact_zero, setCompact_zero]
    exact below
  · obtain ⟨nSize, nWord, reread, least, floor, ceiling⟩ := setCompact_getCompact n zero
    obtain ⟨bytes, ⟨factor, multiple⟩, small⟩ := setCompact_coarse nCompact
    rw [reread]
    unfold unpack
    rw [Nat.le_div_iff_mul_le (by positivity)]
    obtain coarser | finer := Nat.le_total nSize (bytes + 3)
    · -- both are multiples of the same power
      have split : 256 ^ bytes * 256 ^ 3 = 256 ^ (bytes + 3 - nSize) * 256 ^ nSize := by
        rw [← pow_add, ← pow_add, Nat.sub_add_cancel coarser]
      have scaled : (setCompact nCompact).toNat * 256 ^ 3 =
          factor * 256 ^ (bytes + 3 - nSize) * 256 ^ nSize := by
        rw [multiple, Nat.mul_right_comm, split]
        ring
      have less : factor * 256 ^ (bytes + 3 - nSize) * 256 ^ nSize < (nWord + 1) * 256 ^ nSize := by
        rw [← scaled]
        exact lt_of_le_of_lt (Nat.mul_le_mul_right _ below) ceiling
      rw [scaled]
      exact Nat.mul_le_mul_right _ (Nat.lt_succ_iff.mp (Nat.lt_of_mul_lt_mul_right less))
    · obtain same | shorter := Nat.eq_or_lt_of_le finer
      · have scaled : (setCompact nCompact).toNat * 256 ^ 3 = factor * 256 ^ nSize := by
          rw [multiple, ← same, pow_add]
          ring
        have less : factor * 256 ^ nSize < (nWord + 1) * 256 ^ nSize := by
          rw [← scaled]
          exact lt_of_le_of_lt (Nat.mul_le_mul_right _ below) ceiling
        rw [scaled]
        exact Nat.mul_le_mul_right _ (Nat.lt_succ_iff.mp (Nat.lt_of_mul_lt_mul_right less))
      · calc (setCompact nCompact).toNat * 256 ^ 3
            ≤ 2 ^ 23 * 256 ^ bytes * 256 ^ 3 := Nat.mul_le_mul_right _ small.le
          _ = 2 ^ 15 * 256 ^ (bytes + 4) := by
              rw [pow_add]
              ring
          _ ≤ 2 ^ 15 * 256 ^ nSize :=
              Nat.mul_le_mul_left _ (Nat.pow_le_pow_right (by decide) (by omega))
          _ ≤ nWord * 256 ^ nSize := Nat.mul_le_mul_right _ least

end ZenonCore.CompactTarget
