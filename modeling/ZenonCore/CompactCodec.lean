import ZenonCore.BaseUintOperators

/-!
# Reading and writing compact targets

`SetCompact` with its flags and `GetCompact` with its assertions, and which compact forms come
back unchanged.
-/

namespace ZenonCore.CompactCodec

open Primitives BaseUint CompactTarget
open BaseUintOperators (shiftLeft shiftRight bits assign getLow64 shiftLeft_eq
  shiftRight_eq bits_eq assign_toNat getLow64_toNat)

structure Decoded where
  value : Uint256
  negative : Bool
  overflow : Bool
deriving DecidableEq

def setCompact (nCompact : UInt32) : Decoded :=
  let nSize := (nCompact >>> 24).toNat
  let nWord := nCompact &&& 0x007fffff
  let nWord := if nSize ≤ 3 then nWord >>> UInt32.ofNat (8 * (3 - nSize)) else nWord
  { value :=
      if nSize ≤ 3 then assign nWord.toUInt64
      else shiftLeft (assign nWord.toUInt64) (8 * (nSize - 3))
    negative := nWord != 0 && nCompact &&& 0x00800000 != 0
    overflow := nWord != 0 && (decide (34 < nSize) || (decide (0xff < nWord) && decide (33 < nSize))
      || (decide (0xffff < nWord) && decide (32 < nSize))) }

def getCompact (n : Uint256) (fNegative : Bool) : Option UInt32 :=
  let nSize := (bits n + 7) / 8
  let nCompact :=
    if nSize ≤ 3 then (getLow64 n <<< UInt64.ofNat (8 * (3 - nSize))).toUInt32
    else (getLow64 (shiftRight n (8 * (nSize - 3)))).toUInt32
  -- the bit of the sign must be free
  let carried := nCompact &&& 0x00800000 != 0
  let nCompact := if carried then nCompact >>> 8 else nCompact
  let nSize := if carried then nSize + 1 else nSize
  if nCompact &&& ~~~0x007fffff ≠ 0 then none
  else if 256 ≤ nSize then none
  else
    let nCompact := nCompact ||| UInt32.ofNat nSize <<< 24
    some (nCompact ||| if fNegative && nCompact &&& 0x007fffff != 0 then 0x00800000 else 0)

section Fields

def sizeOf (nCompact : UInt32) : Nat := nCompact.toNat / 2 ^ 24

def wordOf (nCompact : UInt32) : Nat := nCompact.toNat % 2 ^ 23

variable (nCompact : UInt32)

theorem size_toNat : (nCompact >>> 24).toNat = sizeOf nCompact := by
  rw [UInt32.toNat_shiftRight, Nat.shiftRight_eq_div_pow]
  rfl

theorem word_toNat : (nCompact &&& 0x007fffff).toNat = wordOf nCompact := by
  rw [UInt32.toNat_and]
  exact Nat.and_two_pow_sub_one_eq_mod nCompact.toNat 23

theorem sign_clear_iff :
    nCompact &&& 0x00800000 = 0 ↔ nCompact.toNat % 2 ^ 24 < 2 ^ 23 := by
  have masked : nCompact.toNat &&& 0x00800000 =
      (nCompact.toNat.testBit 23).toNat * 2 ^ 23 := Nat.and_two_pow nCompact.toNat 23
  rw [← UInt32.toNat_inj, UInt32.toNat_and]
  change nCompact.toNat &&& 0x00800000 = 0 ↔ _
  rw [masked, Nat.testBit_eq_decide_div_mod_eq]
  by_cases set : nCompact.toNat / 2 ^ 23 % 2 = 1
  · rw [set]
    simp
    omega
  · rw [decide_eq_false set]
    simp
    omega

variable (nSize nWord : Nat)

theorem size_pack (size : nSize < 256) (word : nWord < 2 ^ 23) :
    sizeOf (pack nSize nWord) = nSize := by
  rw [sizeOf, pack_toNat nSize nWord size (by omega)]
  omega

theorem word_pack (size : nSize < 256) (word : nWord < 2 ^ 23) :
    wordOf (pack nSize nWord) = nWord := by
  rw [wordOf, pack_toNat nSize nWord size (by omega)]
  omega

theorem pack_fields (positive : nCompact &&& 0x00800000 = 0) :
    pack (sizeOf nCompact) (wordOf nCompact) = nCompact := by
  have bound := nCompact.toNat_lt
  have sign := (sign_clear_iff nCompact).mp positive
  apply UInt32.toNat_inj.mp
  rw [pack_toNat _ _ (by rw [sizeOf]; omega) (by rw [wordOf]; omega), sizeOf, wordOf]
  omega

theorem sign_pack (size : nSize < 256) (word : nWord < 2 ^ 23) :
    pack nSize nWord &&& 0x00800000 = 0 := by
  rw [sign_clear_iff, pack_toNat nSize nWord size (by omega)]
  omega

end Fields

section Reading

variable (nCompact : UInt32)

theorem shifted_word :
    (if sizeOf nCompact ≤ 3 then
        (nCompact &&& 0x007fffff) >>> UInt32.ofNat (8 * (3 - sizeOf nCompact))
      else nCompact &&& 0x007fffff).toNat =
      wordOf nCompact / 256 ^ (3 - sizeOf nCompact) := by
  split_ifs with short
  · have places : (UInt32.ofNat (8 * (3 - sizeOf nCompact))).toNat % 32 =
        8 * (3 - sizeOf nCompact) := by
      rw [UInt32.toNat_ofNat']
      omega
    rw [UInt32.toNat_shiftRight, places, word_toNat, Nat.shiftRight_eq_div_pow, pow_bytes]
  · rw [word_toNat, show 3 - sizeOf nCompact = 0 by omega, pow_zero, Nat.div_one]

theorem setCompact_value :
    (setCompact nCompact).value.toNat =
      unpack (sizeOf nCompact) (wordOf nCompact) % 2 ^ 256 := by
  have word := shifted_word nCompact
  rw [setCompact]
  simp only [size_toNat]
  split_ifs at word ⊢ with short
  · rw [assign_toNat, UInt32.toNat_toUInt64, word, unpack_short _ _ short]
    have small : wordOf nCompact < 2 ^ 23 := Nat.mod_lt _ (by decide)
    exact (Nat.mod_eq_of_lt (lt_of_le_of_lt (Nat.div_le_self _ _) (by omega))).symm
  · rw [shiftLeft_eq, BitVec.toNat_shiftLeft, Nat.shiftLeft_eq, assign_toNat,
      UInt32.toNat_toUInt64, word_toNat, pow_bytes, unpack_long _ _ (by omega)]

theorem setCompact_value_eq :
    (setCompact nCompact).value = ProofOfWork.setCompact nCompact := by
  apply BitVec.eq_of_toNat_eq
  rw [setCompact_value, setCompact_toNat]
  rfl

theorem overflow_eq_false_iff :
    (setCompact nCompact).overflow = false ↔
      wordOf nCompact / 256 ^ (3 - sizeOf nCompact) = 0 ∨ (sizeOf nCompact ≤ 34 ∧
        (0xff < wordOf nCompact → sizeOf nCompact ≤ 33) ∧
          (0xffff < wordOf nCompact → sizeOf nCompact ≤ 32)) := by
  have word := shifted_word nCompact
  rw [setCompact]
  simp only [size_toNat]
  generalize (if sizeOf nCompact ≤ 3 then
      (nCompact &&& 0x007fffff) >>> UInt32.ofNat (8 * (3 - sizeOf nCompact))
    else nCompact &&& 0x007fffff) = nWord at *
  have zero : nWord = 0 ↔ wordOf nCompact / 256 ^ (3 - sizeOf nCompact) = 0 := by
    rw [← word]
    exact UInt32.toNat_inj.symm
  have first : 0xff < nWord ↔ 0xff < wordOf nCompact / 256 ^ (3 - sizeOf nCompact) := by
    rw [← word]
    exact UInt32.lt_iff_toNat_lt
  have second : 0xffff < nWord ↔ 0xffff < wordOf nCompact / 256 ^ (3 - sizeOf nCompact) := by
    rw [← word]
    exact UInt32.lt_iff_toNat_lt
  rw [Bool.and_eq_false_iff, bne_eq_false_iff_eq, zero, Bool.or_eq_false_iff,
    Bool.or_eq_false_iff, Bool.and_eq_false_iff, Bool.and_eq_false_iff]
  simp only [decide_eq_false_iff_not, first, second]
  by_cases long : 3 ≤ sizeOf nCompact
  · rw [show 3 - sizeOf nCompact = 0 by omega, pow_zero, Nat.div_one]
    omega
  · have short : sizeOf nCompact ≤ 32 := by omega
    constructor
    · intro _
      exact Or.inr ⟨by omega, fun _ => by omega, fun _ => short⟩
    · intro _
      exact Or.inr ⟨⟨by omega, Or.inr (by omega)⟩, Or.inr (by omega)⟩

theorem negative_eq_false (positive : nCompact &&& 0x00800000 = 0) :
    (setCompact nCompact).negative = false := by
  rw [setCompact]
  simp [positive]

theorem unpack_lt (fits : (setCompact nCompact).overflow = false) :
    unpack (sizeOf nCompact) (wordOf nCompact) < 2 ^ 256 := by
  have small : wordOf nCompact < 2 ^ 23 := Nat.mod_lt _ (by decide)
  rw [overflow_eq_false_iff] at fits
  by_cases short : sizeOf nCompact ≤ 3
  · rw [unpack_short _ _ short]
    exact lt_of_le_of_lt (Nat.div_le_self _ _) (by omega)
  · rw [unpack_long _ _ (by omega)]
    rw [show 3 - sizeOf nCompact = 0 by omega, pow_zero, Nat.div_one] at fits
    have bound (bytes : Nat) (few : bytes + (sizeOf nCompact - 3) ≤ 32)
        (below : wordOf nCompact < 256 ^ bytes) :
        wordOf nCompact * 256 ^ (sizeOf nCompact - 3) < 2 ^ 256 := by
      calc wordOf nCompact * 256 ^ (sizeOf nCompact - 3)
          < 256 ^ bytes * 256 ^ (sizeOf nCompact - 3) :=
            Nat.mul_lt_mul_of_pos_right below (by positivity)
        _ = 256 ^ (bytes + (sizeOf nCompact - 3)) := (pow_add ..).symm
        _ ≤ 256 ^ 32 := Nat.pow_le_pow_right (by decide) few
        _ = 2 ^ 256 := by norm_num
    obtain zero | ⟨most, more, medium⟩ := fits
    · rw [zero, Nat.zero_mul]
      decide
    · by_cases byte : wordOf nCompact ≤ 0xff
      · exact bound 1 (by omega) (by omega)
      · by_cases two : wordOf nCompact ≤ 0xffff
        · exact bound 2 (by omega) (by omega)
        · exact bound 3 (by omega) (by omega)

end Reading

theorem written_word (n : Uint256) (nonzero : n ≠ 0) :
    (if (bits n + 7) / 8 ≤ 3 then
        (getLow64 n <<< UInt64.ofNat (8 * (3 - (bits n + 7) / 8))).toUInt32
      else (getLow64 (shiftRight n (8 * ((bits n + 7) / 8 - 3)))).toUInt32).toNat = leading n := by
  have bounds := leading_bounds n nonzero
  obtain ⟨small, _, _, most⟩ := bytes_bounds n nonzero
  have taken := leading_eq n
  rw [bits_eq]
  split_ifs at taken ⊢ with short
  · have places : (UInt64.ofNat (8 * (3 - (ProofOfWork.bits n + 7) / 8))).toNat % 64 =
        8 * (3 - (ProofOfWork.bits n + 7) / 8) := by
      rw [UInt64.toNat_ofNat']
      omega
    have low : n.toNat % 2 ^ 64 = n.toNat := by
      apply Nat.mod_eq_of_lt
      calc n.toNat < 256 ^ ((ProofOfWork.bits n + 7) / 8) := small
        _ ≤ 256 ^ 3 := Nat.pow_le_pow_right (by decide) short
        _ < 2 ^ 64 := by norm_num
    rw [UInt64.toNat_toUInt32, UInt64.toNat_shiftLeft, places, getLow64_toNat, low, taken]
    omega
  · rw [UInt64.toNat_toUInt32, getLow64_toNat, shiftRight_eq, BitVec.toNat_ushiftRight, taken]
    omega

theorem packed_word (word : UInt32) (nSize : Nat) (small : word.toNat < 2 ^ 23)
    (few : nSize < 256) :
    word &&& ~~~0x007fffff = 0 ∧
      word ||| UInt32.ofNat nSize <<< 24 = pack nSize word.toNat := by
  have kept : word &&& 0x007fffff = word := by
    apply UInt32.toNat_inj.mp
    rw [word_toNat, wordOf, Nat.mod_eq_of_lt small]
  constructor
  · rw [← kept, UInt32.and_assoc]
    simp
  · have size : (UInt32.ofNat nSize <<< 24).toNat = nSize <<< 24 := by
      rw [UInt32.toNat_shiftLeft, UInt32.toNat_ofNat', Nat.shiftLeft_eq, Nat.shiftLeft_eq]
      change nSize % 2 ^ 32 * 2 ^ 24 % 2 ^ 32 = _
      omega
    apply UInt32.toNat_inj.mp
    rw [UInt32.toNat_or, size, or_size _ _ (by omega), pack_toNat _ _ few (by omega)]

theorem getCompact_eq (n : Uint256) : getCompact n false = some (ProofOfWork.getCompact n) := by
  by_cases zero : n = 0
  · rw [zero]
    decide +kernel
  · have bounds := leading_bounds n zero
    obtain ⟨_, _, _, most⟩ := bytes_bounds n zero
    have written := written_word n zero
    rw [getCompact_cases n zero, getCompact]
    simp only [Bool.false_and, Bool.false_eq_true, if_false, UInt32.or_zero]
    generalize (if (bits n + 7) / 8 ≤ 3 then
        (getLow64 n <<< UInt64.ofNat (8 * (3 - (bits n + 7) / 8))).toUInt32
      else (getLow64 (shiftRight n (8 * ((bits n + 7) / 8 - 3)))).toUInt32) = word at *
    have sign : word &&& 0x00800000 = 0 ↔ leading n < 2 ^ 23 := by
      rw [sign_clear_iff, written]
      omega
    rw [bits_eq, ← written]
    by_cases set : 2 ^ 23 ≤ leading n
    · have carried : (word &&& 0x00800000 != 0) = true := by
        rw [bne_iff_ne]
        exact fun clear => absurd (sign.mp clear) (by omega)
      have lower : (word >>> 8).toNat = word.toNat / 256 := by
        rw [UInt32.toNat_shiftRight, Nat.shiftRight_eq_div_pow]
        rfl
      obtain ⟨free, packed⟩ := packed_word (word >>> 8) ((ProofOfWork.bits n + 7) / 8 + 1)
        (by rw [lower]; omega) (by omega)
      simp only [carried, if_true, free, ne_eq, not_true_eq_false, if_false]
      rw [if_neg (by omega), packed, lower, if_pos (by omega)]
    · have stays : (word &&& 0x00800000 != 0) = false := by
        rw [bne_eq_false_iff_eq]
        exact sign.mpr (by omega)
      obtain ⟨free, packed⟩ := packed_word word ((ProofOfWork.bits n + 7) / 8)
        (by omega) (by omega)
      simp only [stays, Bool.false_eq_true, if_false, free, ne_eq, not_true_eq_false]
      rw [if_neg (by omega), packed, if_neg (by omega)]

/-- The bytes the compact form drops: all but three, or two where the first would be read as a sign.
-/
def clearedBytes (n : Uint256) : Nat :=
  let size := (bits n + 7) / 8
  if 128 ≤ n.toNat / 256 ^ (size - 1) then size - 2 else size - 3

theorem getCompact_parts (n : Uint256) (nonzero : n ≠ 0) :
    ∃ nSize nWord, ProofOfWork.getCompact n = pack nSize nWord ∧ nSize ≤ 33 ∧ nWord < 2 ^ 23 ∧
      nWord = n.toNat * 256 ^ 3 / 256 ^ nSize ∧ nSize - 3 = clearedBytes n := by
  have bounds := leading_bounds n nonzero
  obtain ⟨_, _, least, most⟩ := bytes_bounds n nonzero
  have top : leading n / 256 ^ 2 = n.toNat / 256 ^ ((ProofOfWork.bits n + 7) / 8 - 1) := by
    have split : 256 ^ ((ProofOfWork.bits n + 7) / 8) * 256 ^ 2 =
        256 ^ ((ProofOfWork.bits n + 7) / 8 - 1) * 256 ^ 3 := by
      rw [← pow_add, ← pow_add]
      congr 1
      omega
    rw [leading, Nat.div_div_eq_div_mul, split, Nat.mul_div_mul_right _ _ (by positivity)]
  rw [getCompact_cases n nonzero, clearedBytes, bits_eq, ← top]
  split_ifs with set carried carried
  · refine ⟨_, _, rfl, by omega, by omega, ?_, by omega⟩
    rw [leading, Nat.div_div_eq_div_mul, ← pow_succ]
  · omega
  · omega
  · exact ⟨_, _, rfl, by omega, by omega, rfl, rfl⟩

theorem unpack_parts (n nSize : Nat) :
    unpack nSize (n * 256 ^ 3 / 256 ^ nSize) = n / 256 ^ (nSize - 3) * 256 ^ (nSize - 3) := by
  by_cases short : nSize ≤ 3
  · have split : 256 ^ 3 = 256 ^ (3 - nSize) * 256 ^ nSize := by
      rw [← pow_add, Nat.sub_add_cancel short]
    rw [unpack_short _ _ short, split, ← Nat.mul_assoc, Nat.mul_div_cancel _ (by positivity),
      Nat.mul_div_cancel _ (by positivity), show nSize - 3 = 0 by omega]
    simp
  · have split : 256 ^ nSize = 256 ^ (nSize - 3) * 256 ^ 3 := by
      rw [← pow_add, Nat.sub_add_cancel (by omega)]
    rw [unpack_long _ _ (by omega), split, Nat.mul_div_mul_right _ _ (by positivity)]

theorem reread (n : Uint256) :
    (setCompact (ProofOfWork.getCompact n)).negative = false ∧
      (setCompact (ProofOfWork.getCompact n)).overflow = false ∧
        (setCompact (ProofOfWork.getCompact n)).value.toNat =
          n.toNat / 256 ^ clearedBytes n * 256 ^ clearedBytes n := by
  by_cases zero : n = 0
  · rw [zero]
    decide +kernel
  · obtain ⟨nSize, nWord, written, size, word, top, cleared⟩ := getCompact_parts n zero
    have below := n.isLt
    have last : nSize = 33 → nWord < 2 ^ 16 := by
      rintro rfl
      rw [top, Nat.div_lt_iff_lt_mul (by positivity)]
      calc n.toNat * 256 ^ 3 < 2 ^ 256 * 256 ^ 3 := Nat.mul_lt_mul_of_pos_right below (by decide)
        _ = 2 ^ 16 * 256 ^ 33 := by norm_num
    have fits : unpack nSize nWord < 2 ^ 256 := by
      rw [top, unpack_parts]
      exact lt_of_le_of_lt (Nat.div_mul_le_self _ _) below
    rw [written, ← cleared]
    refine ⟨negative_eq_false _ (sign_pack nSize nWord (by omega) word), ?_, ?_⟩
    · rw [overflow_eq_false_iff, size_pack nSize nWord (by omega) word,
        word_pack nSize nWord (by omega) word]
      exact Or.inr ⟨by omega, fun _ => size, fun many => by omega⟩
    · rw [setCompact_value, size_pack nSize nWord (by omega) word,
        word_pack nSize nWord (by omega) word, Nat.mod_eq_of_lt fits, top, unpack_parts]

/-- A compact form with its mantissa shifted up as far as the sign allows, and no byte
below the point. -/
def Canonical (nCompact : UInt32) : Prop :=
  nCompact = 0 ∨ (0x008000 ≤ wordOf nCompact ∧ 1 ≤ sizeOf nCompact ∧
    wordOf nCompact % 256 ^ (3 - sizeOf nCompact) = 0)

theorem getCompact_canonical (n : Uint256) : Canonical (ProofOfWork.getCompact n) := by
  by_cases zero : n = 0
  · left
    rw [zero]
    exact getCompact_zero
  · obtain ⟨nSize, nWord, written, size, least, word, floor, ceiling⟩ := getCompact_spec n zero
    have positive : 0 < n.toNat := Nat.pos_of_ne_zero fun none =>
      zero (BitVec.eq_of_toNat_eq (by simpa using none))
    right
    rw [written, size_pack nSize nWord (by omega) word, word_pack nSize nWord (by omega) word]
    refine ⟨least, ?_, ?_⟩
    · by_contra none
      rw [show nSize = 0 by omega, pow_zero, Nat.mul_one] at ceiling
      omega
    · by_cases short : nSize ≤ 3
      · have split : 256 ^ 3 = 256 ^ (3 - nSize) * 256 ^ nSize := by
          rw [← pow_add, Nat.sub_add_cancel short]
        rw [split, ← Nat.mul_assoc] at floor ceiling
        have lower := Nat.le_of_mul_le_mul_right floor (by positivity)
        have upper := Nat.lt_of_mul_lt_mul_right ceiling
        have exactly : nWord = n.toNat * 256 ^ (3 - nSize) := by omega
        rw [exactly, Nat.mul_mod_left]
      · rw [show 3 - nSize = 0 by omega, pow_zero, Nat.mod_one]

theorem parts_unique (nSize nWord size word number : Nat) (least : 2 ^ 15 ≤ nWord)
    (most : nWord < 2 ^ 23) (exactly : number = nWord * 256 ^ nSize) (wordLeast : 2 ^ 15 ≤ word)
    (wordMost : word < 2 ^ 23) (floor : word * 256 ^ size ≤ number)
    (ceiling : number < (word + 1) * 256 ^ size) : size = nSize ∧ word = nWord := by
  have apart (low high first second : Nat) (less : low < high) (small : first < 2 ^ 23)
      (large : 2 ^ 15 ≤ second) : (first + 1) * 256 ^ low ≤ second * 256 ^ high := by
    calc (first + 1) * 256 ^ low ≤ 2 ^ 15 * 256 * 256 ^ low :=
          Nat.mul_le_mul_right _ (by omega)
      _ = 2 ^ 15 * 256 ^ (low + 1) := by ring
      _ ≤ second * 256 ^ high :=
          Nat.mul_le_mul large (Nat.pow_le_pow_right (by decide) less)
  obtain less | rfl | more := Nat.lt_trichotomy size nSize
  · have beyond := apart size nSize word nWord less wordMost least
    omega
  · rw [exactly] at floor ceiling
    have lower := Nat.le_of_mul_le_mul_right floor (by positivity)
    have upper := Nat.lt_of_mul_lt_mul_right ceiling
    exact ⟨rfl, by omega⟩
  · have beyond := apart nSize size nWord word more most wordLeast
    have step : nWord * 256 ^ nSize < (nWord + 1) * 256 ^ nSize :=
      Nat.mul_lt_mul_of_pos_right (Nat.lt_succ_self _) (by positivity)
    omega

theorem canonical_rewritten (nCompact : UInt32) (positive : nCompact &&& 0x00800000 = 0)
    (fits : (setCompact nCompact).overflow = false) (canonical : Canonical nCompact) :
    ProofOfWork.getCompact (setCompact nCompact).value = nCompact := by
  obtain rfl | ⟨least, some, whole⟩ := canonical
  · decide +kernel
  · have value := setCompact_value nCompact
    rw [Nat.mod_eq_of_lt (unpack_lt nCompact fits)] at value
    have word : wordOf nCompact < 2 ^ 23 := Nat.mod_lt _ (by decide)
    have exactly : (setCompact nCompact).value.toNat * 256 ^ 3 =
        wordOf nCompact * 256 ^ sizeOf nCompact := by
      rw [value]
      by_cases short : sizeOf nCompact ≤ 3
      · have split : 256 ^ 3 = 256 ^ (3 - sizeOf nCompact) * 256 ^ sizeOf nCompact := by
          rw [← pow_add, Nat.sub_add_cancel short]
        rw [unpack_short _ _ short, split, ← Nat.mul_assoc,
          Nat.div_mul_cancel (Nat.dvd_of_mod_eq_zero whole)]
      · have split : 256 ^ sizeOf nCompact = 256 ^ (sizeOf nCompact - 3) * 256 ^ 3 := by
          rw [← pow_add, Nat.sub_add_cancel (by omega)]
        rw [unpack_long _ _ (by omega), split, Nat.mul_assoc]
    have nonzero : (setCompact nCompact).value ≠ 0 := by
      intro zero
      rw [zero] at exactly
      have power : 0 < 256 ^ sizeOf nCompact := by positivity
      have none : wordOf nCompact * 256 ^ sizeOf nCompact = 0 := by rw [← exactly]; rfl
      obtain first | second := Nat.mul_eq_zero.mp none
      · omega
      · omega
    obtain ⟨size, mantissa, written, _, wordLeast, wordMost, floor, ceiling⟩ :=
      getCompact_spec _ nonzero
    obtain ⟨rfl, rfl⟩ := parts_unique _ _ size mantissa _ least word exactly wordLeast wordMost
      floor ceiling
    rw [written, pack_fields nCompact positive]

/-- What `GetCompact` writes is read back as the highest bytes of the number, in the order of the
numbers; a form without sign and overflow is written again if and only if it is canonical. -/
theorem compact_codec :
    (∀ x : Uint256, ∃ c, getCompact x false = some c ∧ (setCompact c).negative = false ∧
      (setCompact c).overflow = false ∧
      (setCompact c).value.toNat = x.toNat / 256 ^ clearedBytes x * 256 ^ clearedBytes x ∧
      (setCompact c).value ≤ x) ∧
    (∀ x y : Uint256, x ≤ y → ∃ c d, getCompact x false = some c ∧ getCompact y false = some d ∧
      (setCompact c).value ≤ (setCompact d).value) ∧
    ∀ c : UInt32, c &&& 0x00800000 = 0 → (setCompact c).overflow = false →
      (getCompact (setCompact c).value false = some c ↔ Canonical c) := by
  refine ⟨?_, ?_, ?_⟩
  · intro x
    obtain ⟨negative, overflow, value⟩ := reread x
    refine ⟨_, getCompact_eq x, negative, overflow, value, ?_⟩
    rw [setCompact_value_eq, BitVec.le_def]
    exact reread_le x
  · intro x y ordered
    refine ⟨_, _, getCompact_eq x, getCompact_eq y, ?_⟩
    rw [setCompact_value_eq, setCompact_value_eq, BitVec.le_def]
    exact le_reread _ y ((reread_le x).trans (BitVec.le_def.mp ordered))
  · intro c positive fits
    rw [getCompact_eq, Option.some.injEq]
    constructor
    · intro same
      rw [← same]
      exact getCompact_canonical _
    · exact canonical_rewritten c positive fits

theorem highest_work_target_rewritten :
    getCompact (setCompact 0x1d00ffff).value false = some 0x1d00ffff :=
  (compact_codec.2.2 0x1d00ffff (by decide +kernel) (by decide +kernel)).mpr
    (Or.inr (by decide +kernel))

/-- The form of 18 in a size of three bytes, with no sign and no overflow, is written again
in a size of one byte. -/
theorem three_bytes_for_eighteen :
    ¬ ∀ c : UInt32, c &&& 0x00800000 = 0 → (setCompact c).overflow = false →
      ((3 : UInt32) < c >>> 24 → (0x008000 : UInt32) ≤ c &&& 0x007fffff) →
        getCompact (setCompact c).value false = some c := by
  intro rewritten
  have again := rewritten 0x03000012 (by decide +kernel) (by decide +kernel) (by decide +kernel)
  exact absurd again (by decide +kernel)

end ZenonCore.CompactCodec
