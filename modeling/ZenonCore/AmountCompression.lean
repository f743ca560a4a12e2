import Mathlib.Tactic.Linarith
import Mathlib.Tactic.Ring
import ZenonCore.ForkSerials

/-!
# Compression of amounts

`CompressAmount` and `DecompressAmount` in 64 bits, beside the same computations without a
bound.
-/

namespace ZenonCore.AmountCompression

open ChainParams Primitives
open ForkSerials (BuiltIn)

/-- The loop that divides by ten while it can, with the rounds it has left and
the number of those it took. -/
def strip : Nat → UInt64 → UInt64 × Nat
  | 0, n => (n, 0)
  | rounds + 1, n =>
    if n % 10 = 0 then
      let stripped := strip rounds (n / 10)
      (stripped.1, stripped.2 + 1)
    else (n, 0)

def compressAmount (n : UInt64) : UInt64 :=
  if n = 0 then 0
  else
    let stripped := strip 9 n
    let e := stripped.2
    if e < 9 then
      let d := stripped.1 % 10
      1 + (stripped.1 / 10 * 9 + d - 1) * 10 + UInt64.ofNat e
    else 1 + (stripped.1 - 1) * 10 + 9

def raise : Nat → UInt64 → UInt64
  | 0, n => n
  | e + 1, n => raise e (n * 10)

def decompressAmount (x : UInt64) : UInt64 :=
  if x = 0 then 0
  else
    let e := (x - 1) % 10
    let x := (x - 1) / 10
    raise e.toNat (if e < 9 then x / 9 * 10 + (x % 9 + 1) else x + 1)

def stripped : Nat → Nat → Nat × Nat
  | 0, n => (n, 0)
  | rounds + 1, n =>
    if n % 10 = 0 then
      let rest := stripped rounds (n / 10)
      (rest.1, rest.2 + 1)
    else (n, 0)

def compressed (n : Nat) : Nat :=
  if n = 0 then 0
  else
    let rest := stripped 9 n
    if rest.2 < 9 then 1 + (rest.1 / 10 * 9 + rest.1 % 10 - 1) * 10 + rest.2
    else 1 + (rest.1 - 1) * 10 + 9

def decompressed (x : Nat) : Nat :=
  if x = 0 then 0
  else
    let e := (x - 1) % 10
    let x := (x - 1) / 10
    (if e < 9 then x / 9 * 10 + (x % 9 + 1) else x + 1) * 10 ^ e

/-- What is left after the loop: the factors of ten that were taken, and
another one only if all rounds were. -/
theorem stripped_spec (rounds n : Nat) (positive : 0 < n) :
    (stripped rounds n).1 * 10 ^ (stripped rounds n).2 = n ∧ 0 < (stripped rounds n).1 ∧
      (stripped rounds n).2 ≤ rounds ∧
      ((stripped rounds n).2 < rounds → (stripped rounds n).1 % 10 ≠ 0) := by
  induction rounds generalizing n with
  | zero => exact ⟨Nat.mul_one n, positive, le_rfl, fun less => absurd less (Nat.lt_irrefl 0)⟩
  | succ rounds ih =>
    rw [stripped]
    split_ifs with multiple
    · obtain ⟨product, left, bound, last⟩ := ih (n / 10) (by omega)
      dsimp only
      refine ⟨?_, left, by omega, fun less => last (by omega)⟩
      rw [pow_succ, ← Nat.mul_assoc, product]
      omega
    · refine ⟨Nat.mul_one n, positive, Nat.zero_le _, fun _ => multiple⟩

theorem compressed_pos (n : Nat) (positive : 0 < n) :
    ∃ m e, m * 10 ^ e = n ∧ 0 < m ∧ e ≤ 9 ∧
      (e < 9 ∧ m % 10 ≠ 0 ∧ compressed n = 1 + (m / 10 * 9 + m % 10 - 1) * 10 + e ∨
        e = 9 ∧ compressed n = 1 + (m - 1) * 10 + 9) := by
  obtain ⟨product, left, bound, last⟩ := stripped_spec 9 n positive
  refine ⟨(stripped 9 n).1, (stripped 9 n).2, product, left, bound, ?_⟩
  unfold compressed
  rw [if_neg positive.ne']
  dsimp only
  split_ifs with less
  · exact Or.inl ⟨less, last less, rfl⟩
  · exact Or.inr ⟨by omega, rfl⟩

theorem decompressed_compressed (n : Nat) : decompressed (compressed n) = n := by
  obtain zero | positive := Nat.eq_zero_or_pos n
  · rw [zero]
    rfl
  · rcases compressed_pos n positive with ⟨m, e, product, left, bound, ⟨less, digit, same⟩ | ⟨nine, same⟩⟩
    · rw [same]
      unfold decompressed
      have exponent : (1 + (m / 10 * 9 + m % 10 - 1) * 10 + e - 1) % 10 = e := by omega
      have rest : (1 + (m / 10 * 9 + m % 10 - 1) * 10 + e - 1) / 10 = m / 10 * 9 + m % 10 - 1 := by
        omega
      rw [if_neg (by omega), exponent, rest]
      dsimp only
      have mantissa : (m / 10 * 9 + m % 10 - 1) / 9 * 10 +
          ((m / 10 * 9 + m % 10 - 1) % 9 + 1) = m := by omega
      rw [if_pos less, mantissa, product]
    · rw [same]
      unfold decompressed
      have exponent : (1 + (m - 1) * 10 + 9 - 1) % 10 = 9 := by omega
      have rest : (1 + (m - 1) * 10 + 9 - 1) / 10 = m - 1 := by omega
      rw [if_neg (by omega), exponent, rest]
      dsimp only
      rw [if_neg (Nat.lt_irrefl 9), Nat.sub_add_cancel left, ← nine, product]

theorem compressed_le (n : Nat) : compressed n ≤ 9 * n := by
  obtain zero | positive := Nat.eq_zero_or_pos n
  · rw [zero]
    exact le_rfl
  · rcases compressed_pos n positive with ⟨m, e, product, left, bound, ⟨less, digit, same⟩ | ⟨nine, same⟩⟩
    · obtain zero | more := Nat.eq_zero_or_pos e
      · rw [zero, pow_zero, Nat.mul_one] at product
        omega
      · have tenfold : m * 10 ≤ n := by
          rw [← product]
          exact Nat.mul_le_mul_left _ (Nat.le_self_pow more.ne' 10)
        omega
    · have tenfold : m * 10 ≤ n := by
        rw [← product, nine]
        exact Nat.mul_le_mul_left _ (by decide)
      omega

theorem toNat_eq_zero (n : UInt64) : n.toNat = 0 ↔ n = 0 := by
  rw [← UInt64.toNat_inj]
  rfl

theorem strip_toNat (rounds : Nat) (n : UInt64) :
    ((strip rounds n).1.toNat, (strip rounds n).2) = stripped rounds n.toNat := by
  induction rounds generalizing n with
  | zero => rfl
  | succ rounds ih =>
    have remainder : n % 10 = 0 ↔ n.toNat % 10 = 0 := by
      rw [← toNat_eq_zero, UInt64.toNat_mod]
      rfl
    have quotient : (n / 10).toNat = n.toNat / 10 := UInt64.toNat_div n 10
    rw [strip, stripped]
    split_ifs with word number
    · rw [← quotient, ← ih]
    · exact absurd (remainder.mp word) number
    · exact absurd (remainder.mpr ‹_›) word
    · rfl

theorem compressAmount_toNat (n : UInt64) (fits : 9 * n.toNat < 2 ^ 64) :
    (compressAmount n).toNat = compressed n.toNat := by
  have result := lt_of_le_of_lt (compressed_le n.toNat) fits
  have pair := strip_toNat 9 n
  unfold compressAmount
  unfold compressed at result ⊢
  by_cases zero : n = 0
  · rw [if_pos zero, if_pos ((toNat_eq_zero n).mpr zero)]
    rfl
  · have positive : n.toNat ≠ 0 := fun none => zero ((toNat_eq_zero n).mp none)
    have left := (stripped_spec 9 n.toNat (Nat.pos_of_ne_zero positive)).2.1
    have last := (stripped_spec 9 n.toNat (Nat.pos_of_ne_zero positive)).2.2.2
    rw [if_neg zero, if_neg positive]
    rw [if_neg positive] at result
    rw [← pair] at result left last ⊢
    dsimp only at result left last ⊢
    generalize (strip 9 n).1 = m at result left last ⊢
    generalize (strip 9 n).2 = e at result left last ⊢
    have one : (1 : UInt64).toNat = 1 := rfl
    have nine : (9 : UInt64).toNat = 9 := rfl
    have ten : (10 : UInt64).toNat = 10 := rfl
    split_ifs at result ⊢ with less
    · have digit := last less
      have exponent : (UInt64.ofNat e).toNat = e := by
        rw [UInt64.toNat_ofNat']
        omega
      have product : (m / 10 * 9).toNat = m.toNat / 10 * 9 := by
        rw [UInt64.toNat_mul, UInt64.toNat_div, nine, ten]
        omega
      have sum : (m / 10 * 9 + m % 10).toNat = m.toNat / 10 * 9 + m.toNat % 10 := by
        rw [UInt64.toNat_add, product, UInt64.toNat_mod, ten]
        omega
      have less : (m / 10 * 9 + m % 10 - 1).toNat = m.toNat / 10 * 9 + m.toNat % 10 - 1 := by
        rw [UInt64.toNat_sub_of_le _ _ (by rw [UInt64.le_iff_toNat_le, sum, one]; omega), sum, one]
      have scaled : ((m / 10 * 9 + m % 10 - 1) * 10).toNat =
          (m.toNat / 10 * 9 + m.toNat % 10 - 1) * 10 := by
        rw [UInt64.toNat_mul, less, ten]
        omega
      rw [UInt64.toNat_add, UInt64.toNat_add, scaled, exponent, one]
      omega
    · have before : (m - 1).toNat = m.toNat - 1 := by
        rw [UInt64.toNat_sub_of_le _ _ (by rw [UInt64.le_iff_toNat_le, one]; omega), one]
      have scaled : ((m - 1) * 10).toNat = (m.toNat - 1) * 10 := by
        rw [UInt64.toNat_mul, before, ten]
        omega
      rw [UInt64.toNat_add, UInt64.toNat_add, scaled, one, nine]
      omega

theorem raise_toNat (e : Nat) (n : UInt64) (fits : n.toNat * 10 ^ e < 2 ^ 64) :
    (raise e n).toNat = n.toNat * 10 ^ e := by
  induction e generalizing n with
  | zero => exact (Nat.mul_one _).symm
  | succ e ih =>
    have power : n.toNat * 10 ^ (e + 1) = n.toNat * 10 * 10 ^ e := by ring
    have tenfold : n.toNat * 10 < 2 ^ 64 := by
      rw [power] at fits
      exact lt_of_le_of_lt (Nat.le_mul_of_pos_right _ (by positivity)) fits
    have product : (n * 10).toNat = n.toNat * 10 := by
      rw [UInt64.toNat_mul]
      exact Nat.mod_eq_of_lt tenfold
    rw [raise, ih (n * 10) (by rw [product, ← power]; exact fits), product, power]

theorem decompressAmount_toNat (x : UInt64) (fits : decompressed x.toNat < 2 ^ 64) :
    (decompressAmount x).toNat = decompressed x.toNat := by
  unfold decompressAmount
  unfold decompressed at fits ⊢
  by_cases zero : x = 0
  · rw [if_pos zero, if_pos ((toNat_eq_zero x).mpr zero)]
    rfl
  · have positive : x.toNat ≠ 0 := fun none => zero ((toNat_eq_zero x).mp none)
    have one : (1 : UInt64).toNat = 1 := rfl
    have nine : (9 : UInt64).toNat = 9 := rfl
    have ten : (10 : UInt64).toNat = 10 := rfl
    have before : (x - 1).toNat = x.toNat - 1 := by
      rw [UInt64.toNat_sub_of_le _ _ (by rw [UInt64.le_iff_toNat_le, one]; omega), one]
    have exponent : ((x - 1) % 10).toNat = (x.toNat - 1) % 10 := by
      rw [UInt64.toNat_mod, before, ten]
    have rest : ((x - 1) / 10).toNat = (x.toNat - 1) / 10 := by
      rw [UInt64.toNat_div, before, ten]
    have small := x.toNat_lt
    have branch : (x - 1) % 10 < 9 ↔ (x.toNat - 1) % 10 < 9 := by
      rw [UInt64.lt_iff_toNat_lt, exponent, nine]
    rw [if_neg positive] at fits
    rw [if_neg zero, if_neg positive]
    dsimp only at fits ⊢
    have mantissa : (if (x - 1) % 10 < 9 then (x - 1) / 10 / 9 * 10 + ((x - 1) / 10 % 9 + 1)
        else (x - 1) / 10 + 1).toNat =
        if (x.toNat - 1) % 10 < 9 then (x.toNat - 1) / 10 / 9 * 10 + ((x.toNat - 1) / 10 % 9 + 1)
        else (x.toNat - 1) / 10 + 1 := by
      by_cases less : (x - 1) % 10 < 9
      · rw [if_pos less, if_pos (branch.mp less), UInt64.toNat_add, UInt64.toNat_add,
          UInt64.toNat_mul, UInt64.toNat_div, UInt64.toNat_mod, rest, one, nine, ten]
        omega
      · rw [if_neg less, if_neg fun number => less (branch.mpr number), UInt64.toNat_add, rest, one]
        omega
    rw [raise_toNat _ _ (by rw [mantissa, exponent]; exact fits), mantissa, exponent]

section Money

variable (params : CChainParams)

def word (n : CAmount) : UInt64 := UInt64.ofNat (n % 2 ^ 64).toNat

theorem word_toNat (n : CAmount) (nonneg : (0 : Int) ≤ n) (fits : n.toNat < 2 ^ 64) :
    (word n).toNat = n.toNat := by
  obtain ⟨amount, same⟩ := Int.eq_ofNat_of_zero_le nonneg
  rw [same, Int.toNat_natCast] at fits
  have whole : (amount : Int) % 2 ^ 64 = amount := by omega
  unfold word
  rw [same, whole, Int.toNat_natCast, UInt64.toNat_ofNat']
  exact Nat.mod_eq_of_lt fits

theorem moneyRange_fits (builtIn : BuiltIn params) (n : CAmount)
    (inRange : params.moneyRange n = true) :
    (0 : Int) ≤ n ∧ (word n).toNat = n.toNat ∧ 9 * n.toNat < 2 ^ 64 := by
  unfold CChainParams.moneyRange at inRange
  rw [Bool.and_eq_true, decide_eq_true_eq, decide_eq_true_eq] at inRange
  have supply : params.nMaxMoneyOut ≤ 398360470 * coin := by
    obtain main | ⟨hash, testnet | regtest⟩ := builtIn
    · rw [main]
      exact le_rfl
    · rw [testnet]
      show (43199500 * coin : Int) ≤ 398360470 * coin
      decide
    · rw [regtest]
      show (43199500 * coin : Int) ≤ 398360470 * coin
      decide
  have amount : n.toNat ≤ 39836047000000000 := Int.toNat_le.mpr (inRange.2.trans supply)
  have nonneg : (0 : Int) ≤ n := inRange.1
  exact ⟨nonneg, word_toNat n nonneg (by omega), by omega⟩

/-- An amount comes back from its compressed form, and on the way neither
direction wraps. -/
structure Exact (n : CAmount) : Prop where
  inverse : decompressAmount (compressAmount (word n)) = word n
  compressFits : (compressAmount (word n)).toNat = compressed n.toNat
  decompressFits : (decompressAmount (compressAmount (word n))).toNat =
    decompressed (compressed n.toNat)

theorem exact_of_fits (n : CAmount) (value : (word n).toNat = n.toNat)
    (fits : 9 * n.toNat < 2 ^ 64) : Exact n := by
  have compresses : (compressAmount (word n)).toNat = compressed n.toNat := by
    rw [compressAmount_toNat _ (by rw [value]; exact fits), value]
  have back : (decompressAmount (compressAmount (word n))).toNat =
      decompressed (compressed n.toNat) := by
    rw [decompressAmount_toNat, compresses]
    rw [compresses, decompressed_compressed]
    omega
  refine ⟨?_, compresses, back⟩
  apply UInt64.toNat_inj.mp
  rw [back, decompressed_compressed, value]

/-- In the range of money compression is exact in both directions and injective, and no step wraps.
-/
theorem compression_is_exact (builtIn : BuiltIn params) :
    (∀ n, params.moneyRange n = true → Exact n) ∧
      (∀ n x, params.moneyRange n = true → compressAmount (word n) = x →
        compressAmount (decompressAmount x) = x) ∧
      ∀ first second, params.moneyRange first = true → params.moneyRange second = true →
        compressAmount (word first) = compressAmount (word second) → first = second := by
  have exact : ∀ n, params.moneyRange n = true → Exact n := by
    intro n inRange
    obtain ⟨_, value, fits⟩ := moneyRange_fits params builtIn n inRange
    exact exact_of_fits n value fits
  refine ⟨exact, ?_, ?_⟩
  · intro n x inRange image
    rw [← image, (exact n inRange).inverse]
  · intro first second firstRange secondRange same
    have words : word first = word second := by
      rw [← (exact first firstRange).inverse, same, (exact second secondRange).inverse]
    obtain ⟨firstNonneg, firstValue, _⟩ := moneyRange_fits params builtIn first firstRange
    obtain ⟨secondNonneg, secondValue, _⟩ := moneyRange_fits params builtIn second secondRange
    have numbers : first.toNat = second.toNat := by rw [← firstValue, words, secondValue]
    rw [← Int.toNat_of_nonneg firstNonneg, numbers, Int.toNat_of_nonneg secondNonneg]

/-- The test of the source for 50 coins, on the main network. -/
theorem fifty_coins_come_back :
    Exact (50 * coin) ∧ compressAmount (word (50 * coin)) = 0x32 :=
  ⟨(compression_is_exact mainParams (Or.inl rfl)).1 (50 * coin) (by decide), by decide +kernel⟩

end Money

end ZenonCore.AmountCompression
