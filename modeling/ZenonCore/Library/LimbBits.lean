import ZenonCore.Library.Limbs
import Mathlib.Data.Nat.Bitwise

/-!
# Bits of numbers in limbs

Loops that move, compare and complement limbs whose base is a power of two.
-/

namespace ZenonCore.LimbBits

open Limbs List

def orAt (limbs : List Nat) (i value : Nat) : List Nat := limbs.modify i fun limb => limb ||| value

/-- A round of the left shift by `k` limbs and `shift` bits. -/
def shiftUpRound (w k shift : Nat) (a limbs : List Nat) (i : Nat) : List Nat :=
  let limbs :=
    if i + k + 1 < a.length ∧ shift ≠ 0 then orAt limbs (i + k + 1) (a.getD i 0 >>> (w - shift))
    else limbs
  if i + k < a.length then orAt limbs (i + k) ((a.getD i 0 <<< shift) % 2 ^ w) else limbs

def shiftUp (w k shift : Nat) (a : List Nat) : List Nat :=
  (List.range a.length).foldl (shiftUpRound w k shift a) (List.replicate a.length 0)

/-- A round of the right shift by `k` limbs and `shift` bits. -/
def shiftDownRound (w k shift : Nat) (a limbs : List Nat) (i : Nat) : List Nat :=
  let limbs :=
    if k + 1 ≤ i ∧ shift ≠ 0 then orAt limbs (i - k - 1) ((a.getD i 0 <<< (w - shift)) % 2 ^ w)
    else limbs
  if k ≤ i then orAt limbs (i - k) (a.getD i 0 >>> shift) else limbs

def shiftDown (w k shift : Nat) (a : List Nat) : List Nat :=
  (List.range a.length).foldl (shiftDownRound w k shift a) (List.replicate a.length 0)

/-- The highest bit of a limb from a position down to the lowest bit, from one on. -/
def limbBits (limb : Nat) : Nat → Nat
  | 0 => 1
  | bits + 1 => if limb &&& 1 <<< (bits + 1) ≠ 0 then bits + 2 else limbBits limb bits

/-- The highest bit of the limbs below a position, from one on. -/
def bitsBelow (w : Nat) (limbs : List Nat) : Nat → Nat
  | 0 => 0
  | pos + 1 =>
    if limbs.getD pos 0 ≠ 0 then w * pos + limbBits (limbs.getD pos 0) (w - 1)
    else bitsBelow w limbs pos

/-- The comparison of the limbs below a position, from the highest on. -/
def compareBelow (a b : List Nat) : Nat → Int
  | 0 => 0
  | i + 1 =>
    if a.getD i 0 < b.getD i 0 then -1
    else if b.getD i 0 < a.getD i 0 then 1
    else compareBelow a b i

def complement (w : Nat) (limbs : List Nat) : List Nat := limbs.map fun limb => 2 ^ w - 1 - limb

def increment (base : Nat) : List Nat → List Nat
  | [] => []
  | limb :: rest =>
    let next := (limb + 1) % base
    if next = 0 then next :: increment base rest else next :: rest

section Bits

variable (w : Nat)

def bit (limbs : List Nat) (j : Nat) : Bool := (limbs.getD (j / w) 0).testBit (j % w)

theorem testBit_ofDigits (positive : 0 < w) (limbs : List Nat) (fits : AllFit (2 ^ w) limbs)
    (j : Nat) : (Nat.ofDigits (2 ^ w) limbs).testBit j = bit w limbs j := by
  induction limbs generalizing j with
  | nil => simp [bit]
  | cons limb rest ih =>
    have limbFits := fits limb mem_cons_self
    have below := ih fun other among => fits other (mem_cons_of_mem limb among)
    rw [Nat.ofDigits_cons, Nat.add_comm, Nat.testBit_two_pow_mul_add _ limbFits, bit]
    by_cases low : j < w
    · rw [if_pos low, Nat.div_eq_of_lt low, Nat.mod_eq_of_lt low]
      rfl
    · obtain ⟨later, rfl⟩ : ∃ later, j = later + w := ⟨j - w, by omega⟩
      rw [if_neg low, Nat.add_sub_cancel, Nat.add_div_right _ positive, Nat.add_mod_right, below]
      rfl

variable (limbs : List Nat)

theorem bit_of_place (t b : Nat) (inside : b < w) :
    bit w limbs (w * t + b) = (limbs.getD t 0).testBit b := by
  rw [bit, Nat.mul_add_div (by omega), Nat.mul_add_mod, Nat.div_eq_of_lt inside,
    Nat.mod_eq_of_lt inside, Nat.add_zero]

theorem orAt_length (i value : Nat) :
    (orAt limbs i value).length = limbs.length := length_modify ..

theorem testBit_orAt (i value t b : Nat) (inside : t < limbs.length) :
    ((orAt limbs i value).getD t 0).testBit b =
      ((limbs.getD t 0).testBit b || (decide (i = t) && value.testBit b)) := by
  rw [orAt, getD_eq_getElem?_getD, getElem?_modify, getD_eq_getElem?_getD,
    getElem?_eq_getElem inside]
  by_cases same : i = t
  · simp [same]
  · simp [same]

theorem orAt_fits (i value : Nat) (fits : AllFit (2 ^ w) limbs)
    (small : value < 2 ^ w) : AllFit (2 ^ w) (orAt limbs i value) := by
  intro limb among
  obtain ⟨t, inside, rfl⟩ := mem_iff_getElem.mp among
  have within : t < limbs.length := by rwa [orAt_length] at inside
  have old : limbs[t] < 2 ^ w := fits _ (getElem_mem within)
  have split : (orAt limbs i value)[t] = if i = t then limbs[t] ||| value else limbs[t] :=
    getElem_modify ..
  rw [split]
  split_ifs
  · exact Nat.or_lt_two_pow old small
  · exact old

theorem getD_fits (fits : AllFit (2 ^ w) limbs) (i : Nat) :
    limbs.getD i 0 < 2 ^ w := by
  rw [getD_eq_getElem?_getD]
  by_cases inside : i < limbs.length
  · rw [getElem?_eq_getElem inside]
    exact fits _ (getElem_mem inside)
  · rw [getElem?_eq_none (by omega)]
    exact Nat.two_pow_pos w

theorem orAt_value (fits : AllFit (2 ^ w) limbs) (i b : Nat) (inside : b < w)
    (place : i < limbs.length) :
    Nat.ofDigits (2 ^ w) (orAt limbs i (2 ^ b)) = Nat.ofDigits (2 ^ w) limbs ||| 2 ^ (w * i + b) := by
  have power : 2 ^ b < 2 ^ w := Nat.pow_lt_pow_right Nat.one_lt_two inside
  apply Nat.eq_of_testBit_eq
  intro j
  rw [testBit_ofDigits w (by omega) _ (orAt_fits w limbs i _ fits power), Nat.testBit_or,
    testBit_ofDigits w (by omega) limbs fits, Nat.testBit_two_pow, bit, bit]
  have apart := Nat.div_add_mod j w
  by_cases within : j / w < limbs.length
  · rw [testBit_orAt limbs i _ _ _ within, Nat.testBit_two_pow]
    have same : (i = j / w ∧ b = j % w) ↔ w * i + b = j := by
      constructor
      · rintro ⟨rfl, rfl⟩
        exact apart
      · rintro rfl
        rw [Nat.mul_add_div (by omega), Nat.mul_add_mod, Nat.div_eq_of_lt inside,
          Nat.mod_eq_of_lt inside]
        exact ⟨rfl, rfl⟩
    rw [← Bool.decide_and, decide_eq_decide.mpr same]
  · have other : w * i + b ≠ j := by
      rintro rfl
      rw [Nat.mul_add_div (by omega), Nat.div_eq_of_lt inside] at within
      omega
    rw [getD_eq_default _ _ (by rw [orAt_length]; omega),
      getD_eq_default _ _ (by omega)]
    simp [other]

end Bits

section Shifts

variable (w k shift : Nat) (a : List Nat)

variable (limbs : List Nat)

theorem shiftUpRound_length (i : Nat) :
    (shiftUpRound w k shift a limbs i).length = limbs.length := by
  unfold shiftUpRound
  split_ifs <;> simp only [orAt_length]

theorem shiftDownRound_length (i : Nat) :
    (shiftDownRound w k shift a limbs i).length = limbs.length := by
  unfold shiftDownRound
  split_ifs <;> simp only [orAt_length]

variable (round : List Nat → Nat → List Nat)

theorem rounds_length (keeps : ∀ limbs i, (round limbs i).length = limbs.length) (indexes start : List Nat) :
    (indexes.foldl round start).length = start.length := by
  induction indexes generalizing start with
  | nil => rfl
  | cons i indexes ih => rw [foldl_cons, ih, keeps]

theorem shiftUp_length : (shiftUp w k shift a).length = a.length := by
  rw [shiftUp, rounds_length _ (shiftUpRound_length w k shift a), length_replicate]

theorem shiftDown_length : (shiftDown w k shift a).length = a.length := by
  rw [shiftDown, rounds_length _ (shiftDownRound_length w k shift a), length_replicate]

theorem rounds_bits (adds : Nat → Nat → Nat → Prop)
    (keeps : ∀ limbs i, (round limbs i).length = limbs.length)
    (puts : ∀ limbs i t b, limbs.length = a.length → t < a.length →
      (((round limbs i).getD t 0).testBit b = true ↔
        (limbs.getD t 0).testBit b = true ∨ adds i t b))
    (n t b : Nat) (inside : t < a.length) :
    ((((range n).foldl round (replicate a.length 0)).getD t 0).testBit b = true ↔
      ∃ i < n, adds i t b) := by
  induction n with
  | zero =>
    rw [range_zero, foldl_nil, getD_replicate _ inside]
    simp
  | succ n ih =>
    have length : ((range n).foldl round (replicate a.length 0)).length = a.length := by
      rw [rounds_length round keeps, length_replicate]
    rw [range_succ, foldl_append, foldl_cons, foldl_nil,
      puts _ n t b length inside, ih]
    constructor
    · intro found
      obtain ⟨i, earlier, put⟩ | put := found
      · exact ⟨i, by omega, put⟩
      · exact ⟨n, by omega, put⟩
    · intro ⟨i, earlier, put⟩
      obtain before | rfl := Nat.lt_succ_iff_lt_or_eq.mp earlier
      · exact Or.inl ⟨i, before, put⟩
      · exact Or.inr put

theorem shiftUpRound_bit (i t b : Nat) (length : limbs.length = a.length)
    (inside : t < a.length) :
    ((shiftUpRound w k shift a limbs i).getD t 0).testBit b = true ↔
      (limbs.getD t 0).testBit b = true ∨
        (i + k + 1 = t ∧ shift ≠ 0 ∧ (a.getD i 0).testBit (w - shift + b) = true) ∨
          (i + k = t ∧ shift ≤ b ∧ b < w ∧ (a.getD i 0).testBit (b - shift) = true) := by
  have lower : t < limbs.length := by omega
  have middle (value place : Nat) : t < (orAt limbs place value).length := by
    rw [orAt_length]
    exact lower
  unfold shiftUpRound
  dsimp only
  split_ifs with low high high
  · rw [testBit_orAt _ _ _ t b (middle _ _), testBit_orAt _ _ _ t b lower, Nat.testBit_shiftRight,
      Nat.testBit_mod_two_pow, Nat.testBit_shiftLeft]
    simp [high.2]
    tauto
  · rw [testBit_orAt _ _ _ t b lower, Nat.testBit_mod_two_pow, Nat.testBit_shiftLeft]
    have other : ¬ (i + k + 1 = t ∧ shift ≠ 0) := fun both => high ⟨by omega, both.2⟩
    simp
    tauto
  · omega
  · constructor
    · exact Or.inl
    · rintro (old | ⟨place, nonzero, _⟩ | ⟨place, _⟩)
      · exact old
      · omega
      · omega

theorem shiftDownRound_bit (i t b : Nat) (length : limbs.length = a.length)
    (inside : t < a.length) :
    ((shiftDownRound w k shift a limbs i).getD t 0).testBit b = true ↔
      (limbs.getD t 0).testBit b = true ∨
        (i = t + k + 1 ∧ shift ≠ 0 ∧ w - shift ≤ b ∧ b < w ∧
          (a.getD i 0).testBit (b - (w - shift)) = true) ∨
          (i = t + k ∧ (a.getD i 0).testBit (shift + b) = true) := by
  have lower : t < limbs.length := by omega
  have middle (value place : Nat) : t < (orAt limbs place value).length := by
    rw [orAt_length]
    exact lower
  unfold shiftDownRound
  dsimp only
  split_ifs with low high high
  · rw [testBit_orAt _ _ _ t b (middle _ _), testBit_orAt _ _ _ t b lower, Nat.testBit_shiftRight,
      Nat.testBit_mod_two_pow, Nat.testBit_shiftLeft]
    have first : i - k - 1 = t ↔ i = t + k + 1 := by omega
    have second : i - k = t ↔ i = t + k := by omega
    simp [high.2, first, second]
    tauto
  · rw [testBit_orAt _ _ _ t b lower, Nat.testBit_shiftRight]
    have second : i - k = t ↔ i = t + k := by omega
    have other : ¬ (i = t + k + 1 ∧ shift ≠ 0) := fun both => high ⟨by omega, both.2⟩
    simp [second]
    tauto
  · omega
  · constructor
    · exact Or.inl
    · rintro (old | ⟨place, nonzero, _⟩ | ⟨place, _⟩)
      · exact old
      · omega
      · omega

theorem rounds_fit (keeps : ∀ limbs i, AllFit (2 ^ w) limbs → AllFit (2 ^ w) (round limbs i))
    (indexes start : List Nat) (fits : AllFit (2 ^ w) start) :
    AllFit (2 ^ w) (indexes.foldl round start) := by
  induction indexes generalizing start with
  | nil => exact fits
  | cons i indexes ih => exact ih _ (keeps start i fits)

theorem zeros_fit (count : Nat) : AllFit (2 ^ w) (replicate count 0) := by
  intro limb among
  rw [eq_of_mem_replicate among]
  exact Nat.two_pow_pos w

variable (small : shift < w) (fits : AllFit (2 ^ w) a)

include fits

theorem shiftUp_fits : AllFit (2 ^ w) (shiftUp w k shift a) := by
  apply rounds_fit w _ _ _ _ (zeros_fit w a.length)
  intro limbs i before
  have moved : a.getD i 0 >>> (w - shift) < 2 ^ w :=
    lt_of_le_of_lt (Nat.shiftRight_le _ _) (getD_fits w a fits i)
  have kept : (a.getD i 0 <<< shift) % 2 ^ w < 2 ^ w := Nat.mod_lt _ (Nat.two_pow_pos w)
  unfold shiftUpRound
  dsimp only
  split_ifs
  · exact orAt_fits w _ _ _ (orAt_fits w _ _ _ before moved) kept
  · exact orAt_fits w _ _ _ before kept
  · exact orAt_fits w _ _ _ before moved
  · exact before

theorem shiftDown_fits : AllFit (2 ^ w) (shiftDown w k shift a) := by
  apply rounds_fit w _ _ _ _ (zeros_fit w a.length)
  intro limbs i before
  have moved : (a.getD i 0 <<< (w - shift)) % 2 ^ w < 2 ^ w := Nat.mod_lt _ (Nat.two_pow_pos w)
  have kept : a.getD i 0 >>> shift < 2 ^ w :=
    lt_of_le_of_lt (Nat.shiftRight_le _ _) (getD_fits w a fits i)
  unfold shiftDownRound
  dsimp only
  split_ifs
  · exact orAt_fits w _ _ _ (orAt_fits w _ _ _ before moved) kept
  · exact orAt_fits w _ _ _ before kept
  · exact orAt_fits w _ _ _ before moved
  · exact before

include small

theorem bit_shiftUp (j : Nat) (inside : j < w * a.length) :
    bit w (shiftUp w k shift a) j =
      (decide (w * k + shift ≤ j) && bit w a (j - (w * k + shift))) := by
  obtain ⟨t, b, rfl, within⟩ : ∃ t b, j = w * t + b ∧ b < w :=
    ⟨j / w, j % w, (Nat.div_add_mod j w).symm, Nat.mod_lt j (by omega)⟩
  have position : t < a.length := by
    by_contra beyond
    have more : w * a.length ≤ w * t := Nat.mul_le_mul_left w (by omega)
    omega
  have rounds := rounds_bits a (shiftUpRound w k shift a) _ (shiftUpRound_length w k shift a)
    (shiftUpRound_bit w k shift a) a.length t b position
  rw [bit_of_place w _ t b within, Bool.eq_iff_iff]
  change ((shiftUp w k shift a).getD t 0).testBit b = true ↔ _ at rounds
  rw [rounds, Bool.and_eq_true, decide_eq_true_iff]
  constructor
  · rintro ⟨i, earlier, ⟨rfl, nonzero, set⟩ | ⟨rfl, low, _, set⟩⟩
    · have limit : w - shift + b < w := by
        by_contra beyond
        rw [Nat.testBit_lt_two_pow (lt_of_lt_of_le (getD_fits w a fits i)
          (Nat.pow_le_pow_right Nat.two_pos (Nat.le_of_not_lt beyond)))] at set
        cases set
      have place : w * (i + k + 1) + b - (w * k + shift) = w * i + (w - shift + b) := by
        rw [Nat.mul_add, Nat.mul_add]
        omega
      refine ⟨?_, ?_⟩
      · rw [Nat.mul_add, Nat.mul_add]
        omega
      · rw [place, bit_of_place w a i _ limit]
        exact set
    · have place : w * (i + k) + b - (w * k + shift) = w * i + (b - shift) := by
        rw [Nat.mul_add]
        omega
      refine ⟨?_, ?_⟩
      · rw [Nat.mul_add]
        omega
      · rw [place, bit_of_place w a i _ (by omega)]
        exact set
  · rintro ⟨above, set⟩
    by_cases low : shift ≤ b
    · have limbs : k ≤ t := by
        by_contra below
        have less : w * (t + 1) ≤ w * k := Nat.mul_le_mul_left w (by omega)
        rw [Nat.mul_add] at less
        omega
      obtain ⟨i, rfl⟩ : ∃ i, t = i + k := ⟨t - k, by omega⟩
      have place : w * (i + k) + b - (w * k + shift) = w * i + (b - shift) := by
        rw [Nat.mul_add]
        omega
      rw [place, bit_of_place w a i _ (by omega)] at set
      exact ⟨i, by omega, Or.inr ⟨rfl, low, within, set⟩⟩
    · have limbs : k + 1 ≤ t := by
        by_contra below
        have less : w * t ≤ w * k := Nat.mul_le_mul_left w (by omega)
        omega
      obtain ⟨i, rfl⟩ : ∃ i, t = i + k + 1 := ⟨t - k - 1, by omega⟩
      have place : w * (i + k + 1) + b - (w * k + shift) = w * i + (w - shift + b) := by
        rw [Nat.mul_add, Nat.mul_add]
        omega
      rw [place, bit_of_place w a i _ (by omega)] at set
      exact ⟨i, by omega, Or.inl ⟨rfl, by omega, set⟩⟩

theorem bit_shiftDown (j : Nat) (inside : j < w * a.length) :
    bit w (shiftDown w k shift a) j = bit w a (w * k + shift + j) := by
  obtain ⟨t, b, rfl, within⟩ : ∃ t b, j = w * t + b ∧ b < w :=
    ⟨j / w, j % w, (Nat.div_add_mod j w).symm, Nat.mod_lt j (by omega)⟩
  have position : t < a.length := by
    by_contra beyond
    have more : w * a.length ≤ w * t := Nat.mul_le_mul_left w (by omega)
    omega
  have rounds := rounds_bits a (shiftDownRound w k shift a) _ (shiftDownRound_length w k shift a)
    (shiftDownRound_bit w k shift a) a.length t b position
  have absent (i : Nat) (beyond : a.length ≤ i) (place : Nat) :
      (a.getD i 0).testBit place = false := by
    rw [getD_eq_default _ _ beyond, Nat.zero_testBit]
  rw [bit_of_place w _ t b within, Bool.eq_iff_iff]
  change ((shiftDown w k shift a).getD t 0).testBit b = true ↔ _ at rounds
  rw [rounds]
  by_cases stays : shift + b < w
  · have place : w * k + shift + (w * t + b) = w * (t + k) + (shift + b) := by
      rw [Nat.mul_add]
      omega
    rw [place, bit_of_place w a _ _ stays]
    constructor
    · rintro ⟨i, earlier, ⟨rfl, nonzero, low, _⟩ | ⟨rfl, set⟩⟩
      · omega
      · exact set
    · intro set
      refine ⟨t + k, ?_, Or.inr ⟨rfl, set⟩⟩
      by_contra beyond
      rw [absent _ (by omega)] at set
      cases set
  · have place : w * k + shift + (w * t + b) = w * (t + k + 1) + (b - (w - shift)) := by
      rw [Nat.mul_add, Nat.mul_add]
      omega
    rw [place, bit_of_place w a _ _ (by omega)]
    constructor
    · rintro ⟨i, earlier, ⟨rfl, nonzero, low, _, set⟩ | ⟨rfl, set⟩⟩
      · exact set
      · rw [Nat.testBit_lt_two_pow (lt_of_lt_of_le (getD_fits w a fits _)
          (Nat.pow_le_pow_right Nat.two_pos (by omega)))] at set
        cases set
    · intro set
      refine ⟨t + k + 1, ?_, Or.inl ⟨rfl, by omega, by omega, within, set⟩⟩
      by_contra beyond
      rw [absent _ (by omega)] at set
      cases set

theorem shiftUp_value :
    Nat.ofDigits (2 ^ w) (shiftUp w k shift a) =
      Nat.ofDigits (2 ^ w) a * 2 ^ (w * k + shift) % 2 ^ (w * a.length) := by
  apply Nat.eq_of_testBit_eq
  intro j
  rw [testBit_ofDigits w (by omega) _ (shiftUp_fits w k shift a fits), Nat.testBit_mod_two_pow,
    Nat.testBit_mul_two_pow, testBit_ofDigits w (by omega) a fits]
  by_cases inside : j < w * a.length
  · rw [bit_shiftUp w k shift a small fits j inside]
    simp [inside]
  · have beyond : a.length ≤ j / w := (Nat.le_div_iff_mul_le (by omega)).mpr (by
      rw [Nat.mul_comm]
      omega)
    rw [bit, getD_eq_default _ _ (by rw [shiftUp_length]; exact beyond)]
    simp [inside]

theorem shiftDown_value :
    Nat.ofDigits (2 ^ w) (shiftDown w k shift a) =
      Nat.ofDigits (2 ^ w) a / 2 ^ (w * k + shift) := by
  apply Nat.eq_of_testBit_eq
  intro j
  rw [testBit_ofDigits w (by omega) _ (shiftDown_fits w k shift a fits), Nat.testBit_div_two_pow,
    testBit_ofDigits w (by omega) a fits]
  by_cases inside : j < w * a.length
  · rw [bit_shiftDown w k shift a small fits j inside, Nat.add_comm]
  · have beyond : a.length ≤ j / w := (Nat.le_div_iff_mul_le (by omega)).mpr (by
      rw [Nat.mul_comm]
      omega)
    have later : a.length ≤ (j + (w * k + shift)) / w :=
      beyond.trans (Nat.div_le_div_right (Nat.le_add_right _ _))
    rw [bit, bit, getD_eq_default _ _ (by rw [shiftDown_length]; exact beyond),
      getD_eq_default _ _ later, Nat.zero_testBit, Nat.zero_testBit]

end Shifts

section Comparison

variable (w : Nat)

theorem ofDigits_take_succ (base : Nat) (limbs : List Nat) (pos : Nat) :
    Nat.ofDigits base (limbs.take (pos + 1)) =
      Nat.ofDigits base (limbs.take pos) + base ^ pos * limbs.getD pos 0 := by
  by_cases inside : pos < limbs.length
  · rw [take_add_one, getElem?_eq_getElem inside, Nat.ofDigits_append, length_take,
      Nat.min_eq_left (by omega), getD_eq_getElem?_getD, getElem?_eq_getElem inside]
    simp
  · rw [take_of_length_le (by omega), take_of_length_le (by omega),
      getD_eq_default _ _ (by omega), Nat.mul_zero, Nat.add_zero]

theorem ofDigits_eq_zero_iff (base : Nat) (positive : 0 < base) (limbs : List Nat) :
    Nat.ofDigits base limbs = 0 ↔ ∀ limb ∈ limbs, limb = 0 := by
  induction limbs with
  | nil => simp
  | cons limb rest ih =>
    rw [Nat.ofDigits_cons, Nat.add_eq_zero_iff, Nat.mul_eq_zero, ih, forall_mem_cons]
    simp [Nat.ne_of_gt positive]

theorem take_fits (limbs : List Nat) (fits : AllFit (2 ^ w) limbs) (pos : Nat) :
    Nat.ofDigits (2 ^ w) (limbs.take pos) < 2 ^ (w * pos) := by
  have below := ofDigits_fits (2 ^ w) (limbs.take pos)
    fun limb among => fits limb (mem_of_mem_take among)
  rw [pow_mul]
  exact lt_of_lt_of_le below (Nat.pow_le_pow_right (Nat.two_pow_pos w) (length_take_le ..))

theorem limbBits_spec (limb bits : Nat) (nonzero : limb ≠ 0) (small : limb < 2 ^ (bits + 1)) :
    1 ≤ limbBits limb bits ∧ 2 ^ (limbBits limb bits - 1) ≤ limb ∧
      limb < 2 ^ limbBits limb bits := by
  induction bits with
  | zero => exact ⟨le_rfl, by simp [limbBits]; omega, small⟩
  | succ bits ih =>
    have masked : limb &&& 1 <<< (bits + 1) = (limb.testBit (bits + 1)).toNat * 2 ^ (bits + 1) := by
      rw [Nat.one_shiftLeft]
      exact Nat.and_two_pow limb (bits + 1)
    rw [limbBits, masked]
    by_cases low : limb < 2 ^ (bits + 1)
    · rw [Nat.testBit_lt_two_pow low]
      simpa using ih low
    · rw [Nat.testBit_of_two_pow_le_and_two_pow_add_one_gt (by omega) small]
      simpa using ⟨Nat.le_of_not_lt low, small⟩

theorem bitsBelow_spec (positive : 0 < w) (limbs : List Nat) (fits : AllFit (2 ^ w) limbs)
    (pos : Nat) :
    (bitsBelow w limbs pos = 0 ∧ Nat.ofDigits (2 ^ w) (limbs.take pos) = 0) ∨
      (1 ≤ bitsBelow w limbs pos ∧
        2 ^ (bitsBelow w limbs pos - 1) ≤ Nat.ofDigits (2 ^ w) (limbs.take pos) ∧
          Nat.ofDigits (2 ^ w) (limbs.take pos) < 2 ^ bitsBelow w limbs pos) := by
  induction pos with
  | zero => exact Or.inl ⟨rfl, rfl⟩
  | succ pos ih =>
    rw [bitsBelow, ofDigits_take_succ]
    by_cases zero : limbs.getD pos 0 = 0
    · rw [if_neg fun nonzero => nonzero zero, zero, Nat.mul_zero, Nat.add_zero]
      exact ih
    · rw [if_pos zero]
      have limbFits := getD_fits w limbs fits pos
      have low := take_fits w limbs fits pos
      obtain ⟨least, floor, ceiling⟩ := limbBits_spec (limbs.getD pos 0) (w - 1) zero
        (by rwa [Nat.sub_add_cancel positive])
      generalize limbBits (limbs.getD pos 0) (w - 1) = bits at *
      generalize limbs.getD pos 0 = limb at *
      rw [← pow_mul]
      right
      refine ⟨by omega, ?_, ?_⟩
      · calc 2 ^ (w * pos + bits - 1) = 2 ^ (w * pos) * 2 ^ (bits - 1) := by
              rw [← pow_add, Nat.add_sub_assoc least]
          _ ≤ 2 ^ (w * pos) * limb := Nat.mul_le_mul_left _ floor
          _ ≤ _ := Nat.le_add_left _ _
      · calc Nat.ofDigits (2 ^ w) (limbs.take pos) + 2 ^ (w * pos) * limb
            < 2 ^ (w * pos) * (limb + 1) := by
              rw [Nat.mul_add]
              omega
          _ ≤ 2 ^ (w * pos) * 2 ^ bits := Nat.mul_le_mul_left _ ceiling
          _ = 2 ^ (w * pos + bits) := (pow_add ..).symm

theorem compareBelow_spec (a b : List Nat) (aFits : AllFit (2 ^ w) a) (bFits : AllFit (2 ^ w) b)
    (i : Nat) :
    compareBelow a b i =
      if Nat.ofDigits (2 ^ w) (a.take i) < Nat.ofDigits (2 ^ w) (b.take i) then -1
      else if Nat.ofDigits (2 ^ w) (b.take i) < Nat.ofDigits (2 ^ w) (a.take i) then 1
      else 0 := by
  have greater (power low other first second : Nat) (less : first < second) (small : low < power) :
      low + power * first < other + power * second := by
    calc low + power * first < power * (first + 1) := by
          rw [Nat.mul_add]
          omega
      _ ≤ power * second := Nat.mul_le_mul_left _ less
      _ ≤ other + power * second := Nat.le_add_left _ _
  induction i with
  | zero => rfl
  | succ i ih =>
    have aLow := take_fits w a aFits i
    have bLow := take_fits w b bFits i
    rw [compareBelow, ofDigits_take_succ, ofDigits_take_succ, ih, ← pow_mul]
    generalize Nat.ofDigits (2 ^ w) (a.take i) = first at *
    generalize Nat.ofDigits (2 ^ w) (b.take i) = second at *
    generalize a.getD i 0 = x
    generalize b.getD i 0 = y
    obtain less | rfl | more := Nat.lt_trichotomy x y
    · rw [if_pos less, if_pos (greater _ first second x y less aLow)]
    · rw [if_neg (Nat.lt_irrefl x), if_neg (Nat.lt_irrefl x)]
      simp only [Nat.add_lt_add_iff_right]
    · have above := greater _ second first y x more bLow
      rw [if_neg (Nat.lt_asymm more), if_pos more, if_neg (Nat.lt_asymm above), if_pos above]

end Comparison

theorem complement_value (w : Nat) (limbs : List Nat) (fits : AllFit (2 ^ w) limbs) :
    Nat.ofDigits (2 ^ w) (complement w limbs) + Nat.ofDigits (2 ^ w) limbs + 1 =
      (2 ^ w) ^ limbs.length := by
  induction limbs with
  | nil => rfl
  | cons limb rest ih =>
    have limbFits := fits limb mem_cons_self
    have below := ih fun other among => fits other (mem_cons_of_mem limb among)
    have scaled := congrArg (fun value => 2 ^ w * value) below
    simp only [Nat.mul_add, Nat.mul_one] at scaled
    rw [complement] at scaled ⊢
    rw [map_cons, Nat.ofDigits_cons, Nat.ofDigits_cons, length_cons, pow_succ', ← scaled]
    omega

theorem increment_value (base : Nat) (limbs : List Nat) (fits : AllFit base limbs) :
    Nat.ofDigits base (increment base limbs) =
      (Nat.ofDigits base limbs + 1) % base ^ limbs.length := by
  induction limbs with
  | nil => rw [length_nil, pow_zero, Nat.mod_one]; rfl
  | cons limb rest ih =>
    have limbFits := fits limb mem_cons_self
    have restFits : AllFit base rest := fun other among =>
      fits other (mem_cons_of_mem limb among)
    have below := ofDigits_fits base rest restFits
    rw [increment]
    by_cases full : limb + 1 = base
    · have sum : Nat.ofDigits base (limb :: rest) + 1 = base * (Nat.ofDigits base rest + 1) := by
        rw [Nat.ofDigits_cons, Nat.mul_add]
        omega
      rw [full, Nat.mod_self, if_pos rfl, Nat.ofDigits_cons, ih restFits, sum, length_cons,
        pow_succ', Nat.mul_mod_mul_left, Nat.zero_add]
    · have next : (limb + 1) % base = limb + 1 := Nat.mod_eq_of_lt (by omega)
      have room : base * (Nat.ofDigits base rest + 1) ≤ base * base ^ rest.length :=
        Nat.mul_le_mul_left _ below
      rw [Nat.mul_add] at room
      rw [next, if_neg (by omega), Nat.ofDigits_cons, Nat.ofDigits_cons, length_cons,
        pow_succ', Nat.mod_eq_of_lt (by omega)]
      omega

end ZenonCore.LimbBits
