import Mathlib.Data.Nat.Digits.Lemmas
import Mathlib.Tactic.Ring

/-!
# Numbers in limbs

Loops over limbs, the lowest first, in words of twice the width. The number is `Nat.ofDigits
base`; what does not fit is dropped.
-/

namespace ZenonCore.Limbs

open List

def AllFit (base : Nat) (limbs : List Nat) : Prop := ∀ limb ∈ limbs, limb < base

def limbsOf (base : Nat) : Nat → Nat → List Nat
  | 0, _ => []
  | count + 1, n => n % base :: limbsOf base count (n / base)

def scale (base factor : Nat) : Nat → List Nat → List Nat
  | _, [] => []
  | carry, limb :: rest =>
    let n := (carry + factor * limb) % base ^ 2
    n % base :: scale base factor (n / base) rest

/-- The loop that adds the multiple of a number by one limb. -/
def addScaled (base factor : Nat) : Nat → List Nat → List Nat → List Nat
  | _, [], _ => []
  | carry, limb :: rest, other =>
    let n := (carry + limb + factor * other.headD 0) % base ^ 2
    n % base :: addScaled base factor (n / base) rest other.tail

section Words

variable (base : Nat) (positive : 0 < base)

include positive

theorem word_fits (factor limb first second : Nat) (factorFits : factor < base)
    (limbFits : limb < base) (firstFits : first < base) (secondFits : second < base) :
    first + second + factor * limb < base ^ 2 := by
  obtain ⟨top, rfl⟩ : ∃ top, base = top + 1 := ⟨base - 1, by omega⟩
  have product : factor * limb ≤ top * top :=
    Nat.mul_le_mul (by omega) (by omega)
  have square : (top + 1) ^ 2 = top * top + (top + top) + 1 := by ring
  omega

theorem carry_fits (word : Nat) (fits : word < base ^ 2) : word / base < base := by
  rw [Nat.div_lt_iff_lt_mul positive]
  rwa [pow_two] at fits

theorem split_limb (limb rest carry count : Nat) :
    (carry + limb) % base + base * (((carry + limb) / base + rest) % base ^ count) =
      (carry + (limb + base * rest)) % base ^ (count + 1) := by
  have whole : carry + (limb + base * rest) = carry + limb + base * rest := by omega
  rw [whole, pow_succ', Nat.mod_mul, Nat.add_mul_mod_self_left,
    Nat.add_mul_div_left _ _ positive]

end Words

section Values

variable (base : Nat) (positive : 0 < base)

theorem headD_fits (other : List Nat) (fits : AllFit base other) (positive : 0 < base) :
    other.headD 0 < base := by
  cases other with
  | nil => exact positive
  | cons limb rest => exact fits limb mem_cons_self

theorem ofDigits_headD (other : List Nat) :
    Nat.ofDigits base other = other.headD 0 + base * Nat.ofDigits base other.tail := by
  cases other with
  | nil => rfl
  | cons limb rest => exact Nat.ofDigits_cons

theorem ofDigits_fits (limbs : List Nat)
    (fits : AllFit base limbs) :
    Nat.ofDigits base limbs < base ^ limbs.length := by
  induction limbs with
  | nil => exact Nat.one_pos
  | cons limb rest ih =>
    have limbFits := fits limb mem_cons_self
    have restFits := ih fun other member => fits other (mem_cons_of_mem _ member)
    have scaled : base * (Nat.ofDigits base rest + 1) ≤ base * base ^ rest.length :=
      Nat.mul_le_mul_left _ restFits
    rw [Nat.ofDigits_cons, length_cons, pow_succ']
    rw [Nat.mul_add] at scaled
    omega

theorem limbsOf_value (count n : Nat) :
    Nat.ofDigits base (limbsOf base count n) = n % base ^ count := by
  induction count generalizing n with
  | zero =>
    rw [pow_zero, Nat.mod_one]
    rfl
  | succ count ih => rw [limbsOf, Nat.ofDigits_cons, ih, pow_succ', Nat.mod_mul]

@[simp] theorem limbsOf_length (count n : Nat) : (limbsOf base count n).length = count := by
  induction count generalizing n with
  | zero => rfl
  | succ count ih => rw [limbsOf, length_cons, ih]

include positive

theorem limbsOf_limbs (count n : Nat) : AllFit base (limbsOf base count n) := by
  induction count generalizing n with
  | zero => exact fun _ member => absurd member not_mem_nil
  | succ count ih =>
    intro limb member
    obtain same | later := mem_cons.mp member
    · rw [same]
      exact Nat.mod_lt _ positive
    · exact ih _ limb later

variable (factor carry : Nat) (limbs other : List Nat)

theorem scale_value (factor carry : Nat) (limbs : List Nat) (factorFits : factor < base)
    (carryFits : carry < base) (fits : AllFit base limbs) :
    Nat.ofDigits base (scale base factor carry limbs) =
      (carry + factor * Nat.ofDigits base limbs) % base ^ limbs.length := by
  induction limbs generalizing carry with
  | nil =>
    rw [length_nil, pow_zero, Nat.mod_one]
    rfl
  | cons limb rest ih =>
    have limbFits := fits limb mem_cons_self
    have word := word_fits base positive factor limb carry 0 factorFits limbFits carryFits positive
    rw [Nat.add_zero] at word
    have carried := carry_fits base positive _ word
    rw [scale, Nat.mod_eq_of_lt word, Nat.ofDigits_cons,
      ih _ carried fun other member => fits other (mem_cons_of_mem _ member),
      split_limb base positive, Nat.ofDigits_cons, length_cons]
    congr 1
    ring

theorem addScaled_value (factorFits : factor < base)
    (carryFits : carry < base) (fits : AllFit base limbs) (otherFits : AllFit base other) :
    Nat.ofDigits base (addScaled base factor carry limbs other) =
      (carry + (Nat.ofDigits base limbs + factor * Nat.ofDigits base other)) %
        base ^ limbs.length := by
  induction limbs generalizing carry other with
  | nil =>
    rw [length_nil, pow_zero, Nat.mod_one]
    rfl
  | cons limb rest ih =>
    have limbFits := fits limb mem_cons_self
    have headFits := headD_fits base other otherFits positive
    have word := word_fits base positive factor (other.headD 0) carry limb factorFits headFits
      carryFits limbFits
    have carried := carry_fits base positive _ word
    rw [addScaled, Nat.mod_eq_of_lt word, Nat.ofDigits_cons,
      ih _ _ carried (fun digit member => fits digit (mem_cons_of_mem _ member))
        fun digit member => otherFits digit (mem_of_mem_tail member),
      Nat.add_assoc carry, split_limb base positive, Nat.ofDigits_cons, length_cons,
      ofDigits_headD base other]
    congr 1
    ring

end Values

/-- The rounds of long division, with the shifted divisor: the quotient, and
what is left. -/
def divideRounds (quotient num div : Nat) : Nat → Nat × Nat
  | 0 => (quotient, num)
  | shift + 1 =>
    if div ≤ num then divideRounds (quotient ||| 2 ^ shift) (num - div) (div / 2) shift
    else divideRounds quotient num (div / 2) shift

/-- While the quotient has no bit below the shift and the rest is small enough, the rounds complete
the division. -/
theorem divideRounds_eq (quotient num shifted div rounds : Nat)
    (aligned : ∀ shift, rounds = shift + 1 → shifted = div * 2 ^ shift)
    (below : num < div * 2 ^ rounds) :
    divideRounds (2 ^ rounds * quotient) num shifted rounds =
      (2 ^ rounds * quotient + num / div, num % div) := by
  induction rounds generalizing quotient num shifted with
  | zero =>
    rw [pow_zero, Nat.mul_one] at below
    rw [divideRounds, Nat.div_eq_of_lt below, Nat.mod_eq_of_lt below, Nat.add_zero]
  | succ shift ih =>
    have next : ∀ lower, shift = lower + 1 → shifted / 2 = div * 2 ^ lower := by
      intro lower same
      rw [aligned shift rfl, same, pow_succ, ← Nat.mul_assoc, Nat.mul_div_cancel _ Nat.two_pos]
    have here := aligned shift rfl
    have doubled : div * 2 ^ (shift + 1) = shifted + shifted := by
      rw [here]
      ring
    rw [divideRounds]
    split_ifs with fits
    · have bit : 2 ^ (shift + 1) * quotient ||| 2 ^ shift = 2 ^ shift * (2 * quotient + 1) := by
        rw [← Nat.two_pow_add_eq_or_of_lt
          (Nat.pow_lt_pow_right Nat.one_lt_two (Nat.lt_add_one shift))]
        ring
      have positive : 0 < div := by
        obtain zero | positive := Nat.eq_zero_or_pos div
        · rw [zero, Nat.zero_mul] at below
          omega
        · exact positive
      have enough : 2 ^ shift ≤ num / div := by
        rw [Nat.le_div_iff_mul_le positive, Nat.mul_comm, ← here]
        exact fits
      rw [bit, ih (2 * quotient + 1) (num - shifted) (shifted / 2) next (by omega)]
      rw [here] at fits ⊢
      rw [Nat.sub_mul_div, Nat.sub_mul_mod fits]
      have expand : 2 ^ shift * (2 * quotient + 1) = 2 ^ (shift + 1) * quotient + 2 ^ shift := by
        ring
      simp only [Prod.mk.injEq, and_true]
      omega
    · have same : 2 ^ (shift + 1) * quotient = 2 ^ shift * (2 * quotient) := by ring
      rw [same, ih (2 * quotient) num (shifted / 2) next (by omega)]

end ZenonCore.Limbs
