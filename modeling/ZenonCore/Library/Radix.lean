import ZenonCore.Library.Limbs

/-!
# Numbers in digits, the highest first

A buffer of digits is multiplied and added to in place, from its end; what does
not fit is the carry that is left.
-/

namespace ZenonCore.Radix

open Limbs List

/-- The number behind digits, the highest first. -/
def value (base : Nat) (digits : List Nat) : Nat := Nat.ofDigits base digits.reverse

/-- The loop from the end of a buffer that multiplies by a factor and adds a
first carry, with the carry behind it. -/
def multiplyAdd (base factor carry : Nat) : List Nat → Nat × List Nat
  | [] => (carry, [])
  | digit :: rest =>
    let (carry, rest) := multiplyAdd base factor carry rest
    ((carry + factor * digit) / base, (carry + factor * digit) % base :: rest)

/-- One multiplication for each digit; no result where a carry is left. -/
def convert (base factor : Nat) : List Nat → List Nat → Option (List Nat)
  | [], buffer => some buffer
  | digit :: digits, buffer =>
    let (carry, buffer) := multiplyAdd base factor digit buffer
    if carry = 0 then convert base factor digits buffer else none

theorem value_cons (base digit : Nat) (rest : List Nat) :
    value base (digit :: rest) = base ^ rest.length * digit + value base rest := by
  simp [value, Nat.ofDigits_append, Nat.add_comm]

theorem value_zeros (base count : Nat) : value base (replicate count 0) = 0 := by
  induction count with
  | zero => rfl
  | succ count ih => rw [replicate_succ, value_cons, ih, Nat.mul_zero]

section Buffers

variable (base factor : Nat) (large : 1 < base)

theorem multiplyAdd_length (carry : Nat) (buffer : List Nat) :
    (multiplyAdd base factor carry buffer).2.length = buffer.length := by
  induction buffer with
  | nil => rfl
  | cons digit rest ih => simp [multiplyAdd, ih]

theorem multiplyAdd_value (carry : Nat) (buffer : List Nat) :
    (multiplyAdd base factor carry buffer).1 * base ^ buffer.length +
        value base (multiplyAdd base factor carry buffer).2 =
      value base buffer * factor + carry := by
  induction buffer with
  | nil => simp [multiplyAdd, value]
  | cons digit rest ih =>
    have length := multiplyAdd_length base factor carry rest
    simp only [multiplyAdd, value_cons, length_cons, length, pow_succ]
    generalize multiplyAdd base factor carry rest = tail at ih
    have split := Nat.div_add_mod (tail.1 + factor * digit) base
    calc _ = base ^ rest.length * (base * ((tail.1 + factor * digit) / base) +
              (tail.1 + factor * digit) % base) + value base tail.2 := by ring
      _ = base ^ rest.length * (tail.1 + factor * digit) + value base tail.2 := by rw [split]
      _ = (tail.1 * base ^ rest.length + value base tail.2) +
              base ^ rest.length * factor * digit := by ring
      _ = _ := by rw [ih]; ring

include large

theorem multiplyAdd_fits (carry : Nat) (buffer : List Nat) :
    AllFit base (multiplyAdd base factor carry buffer).2 := by
  induction buffer with
  | nil => simp [multiplyAdd, AllFit]
  | cons digit rest ih =>
    simp only [multiplyAdd, AllFit, mem_cons, forall_eq_or_imp]
    exact ⟨Nat.mod_lt _ (by omega), ih⟩

/-- With room for one more digit, no carry is left and the number is exact. -/
theorem multiplyAdd_exact (digit n : Nat) (buffer : List Nat) (small : digit < factor)
    (room : (value base buffer + 1) * factor ^ (n + 1) ≤ base ^ buffer.length) :
    ∃ next, multiplyAdd base factor digit buffer = (0, next) ∧ AllFit base next ∧
      next.length = buffer.length ∧ value base next = value base buffer * factor + digit ∧
      (value base next + 1) * factor ^ n ≤ base ^ next.length := by
  have exact := multiplyAdd_value base factor digit buffer
  have fits := multiplyAdd_fits base factor large digit buffer
  have length := multiplyAdd_length base factor digit buffer
  generalize multiplyAdd base factor digit buffer = after at exact fits length
  obtain ⟨carry, next⟩ := after
  have step : (value base buffer * factor + digit + 1) * factor ^ n ≤ base ^ buffer.length := by
    have one : value base buffer * factor + digit + 1 ≤ (value base buffer + 1) * factor := by
      rw [Nat.add_mul]
      omega
    calc _ ≤ (value base buffer + 1) * factor * factor ^ n := Nat.mul_le_mul_right _ one
      _ = (value base buffer + 1) * factor ^ (n + 1) := by ring
      _ ≤ _ := room
  have below : value base buffer * factor + digit < base ^ buffer.length :=
    le_trans (Nat.le_mul_of_pos_right _ (Nat.pow_pos (by omega))) step
  have none : carry = 0 := by
    by_contra some
    have one := Nat.le_mul_of_pos_left (base ^ buffer.length) (Nat.pos_of_ne_zero some)
    simp only at exact
    omega
  simp only [none, Nat.zero_mul, Nat.zero_add] at exact
  simp only at length
  refine ⟨next, by rw [none], fits, length, exact, ?_⟩
  rw [exact, length]
  exact step

theorem convert_exact (digits buffer : List Nat) (small : AllFit factor digits)
    (fits : AllFit base buffer)
    (room : (value base buffer + 1) * factor ^ digits.length ≤ base ^ buffer.length) :
    ∃ next, convert base factor digits buffer = some next ∧ AllFit base next ∧
      value base next = value base buffer * factor ^ digits.length + value factor digits := by
  induction digits generalizing buffer with
  | nil => exact ⟨buffer, rfl, fits, by simp [value]⟩
  | cons digit digits ih =>
    obtain ⟨next, step, nextFits, -, exact, nextRoom⟩ :=
      multiplyAdd_exact base factor large digit digits.length buffer
        (small digit mem_cons_self) room
    obtain ⟨last, rest, lastFits, total⟩ :=
      ih next (fun other member => small other (mem_cons_of_mem _ member)) nextFits nextRoom
    refine ⟨last, by simp [convert, step, rest], lastFits, ?_⟩
    rw [total, exact, value_cons, length_cons, pow_succ]
    ring

/-- Behind its leading zeros a buffer is what `Nat.digits` gives. -/
theorem dropWhile_zeros (buffer : List Nat) (fits : AllFit base buffer) :
    buffer.dropWhile (· == 0) = (Nat.digits base (value base buffer)).reverse := by
  induction buffer with
  | nil => simp [value]
  | cons digit rest ih =>
    by_cases zero : digit = 0
    · rw [dropWhile_cons_of_pos (by simp [zero]), value_cons, zero, Nat.mul_zero, Nat.zero_add]
      exact ih fun other member => fits other (mem_cons_of_mem _ member)
    · rw [dropWhile_cons_of_neg (by simp [zero]), value,
        Nat.digits_ofDigits base large _ (by simpa [AllFit, or_comm] using fits)
          (by simp [zero]), reverse_reverse]

omit large in
theorem width_suffices (n scale rate width : Nat) (positive : 0 < scale)
    (estimate : factor ^ scale ≤ base ^ rate) (enough : rate * n ≤ scale * width)
    (basePositive : 0 < base) : factor ^ n ≤ base ^ width := by
  refine (Nat.pow_le_pow_iff_left positive.ne').mp ?_
  calc (factor ^ n) ^ scale = (factor ^ scale) ^ n := by rw [← pow_mul, ← pow_mul, Nat.mul_comm]
    _ ≤ (base ^ rate) ^ n := Nat.pow_le_pow_left estimate n
    _ = base ^ (rate * n) := (pow_mul ..).symm
    _ ≤ base ^ (scale * width) := Nat.pow_le_pow_right basePositive enough
    _ = (base ^ width) ^ scale := by rw [← pow_mul, Nat.mul_comm]

end Buffers

end ZenonCore.Radix
