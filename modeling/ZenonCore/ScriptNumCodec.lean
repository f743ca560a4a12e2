import Mathlib.Data.List.GetD
import Mathlib.Tactic.Ring
import ZenonCore.ScriptNum

/-!
# The encoding of script numbers

`set_vch` and `serialize` in 64 bits, down to the bytes. The shortest encodings are those with
a sign on a magnitude without a last zero byte.
-/

namespace ZenonCore.ScriptNumCodec

open Script ScriptNum Strictness List
open NetMessage (readLE_lt)

def orBytes : BitVec 64 → Nat → Bytes → BitVec 64
  | result, _, [] => result
  | result, i, byte :: rest =>
    orBytes (result ||| byte.toBitVec.setWidth 64 <<< (8 * i)) (i + 1) rest

def setVchInt64 (vch : Bytes) : BitVec 64 :=
  if vch.isEmpty then 0
  else
    let result := orBytes 0 0 vch
    if vch.getLastD 0 &&& 0x80 != 0 then
      -(result &&& ~~~((0x80 : BitVec 64) <<< (8 * (vch.length - 1))))
    else result

/-- `CScriptNum(vch, fRequireMinimal, nMaxNumSize)`, by its `m_value`. -/
def scriptNumInt64 (fRequireMinimal : Bool) (nMaxNumSize : Nat) (vch : Bytes) :
    Except ScriptError (BitVec 64) := do
  ensure (vch.length ≤ nMaxNumSize) .unknownError
  demand fRequireMinimal (ensure (isMinimal vch) .unknownError)
  .ok (setVchInt64 vch)

def absBytes (absvalue : BitVec 64) : Bytes :=
  if absvalue = 0 then []
  else UInt8.ofBitVec (absvalue.setWidth 8) :: absBytes (absvalue >>> 8)
termination_by absvalue.toNat
decreasing_by
  rename_i positive
  have larger : absvalue.toNat ≠ 0 := fun zero => positive (BitVec.eq_of_toNat_eq zero)
  rw [BitVec.toNat_ushiftRight, Nat.shiftRight_eq_div_pow]
  omega

/-- The end of `serialize`: a byte is added for the sign, or its bit is set. -/
def withSign (neg : Bool) (result : Bytes) : Bytes :=
  if result.getLastD 0 &&& 0x80 != 0 then result ++ [if neg then 0x80 else 0]
  else if neg then result.dropLast ++ [result.getLastD 0 ||| 0x80]
  else result

def serializeInt64 (value : BitVec 64) : Bytes :=
  if value = 0 then []
  else withSign (value.slt 0) (absBytes (if value.slt 0 then -value else value))

theorem forall_byte (holds : UInt8 → Prop) (all : ∀ bits : BitVec 8, holds ⟨bits⟩)
    (byte : UInt8) : holds byte := all byte.toBitVec

theorem sign_bit (byte : UInt8) : (byte &&& 0x80 != 0) = decide (128 ≤ byte.toNat) := by
  apply forall_byte fun byte => (byte &&& 0x80 != 0) = decide (128 ≤ byte.toNat)
  decide +kernel

theorem magnitude_bits (byte : UInt8) :
    (byte &&& 0x7f != 0) = decide (byte.toNat ≠ 0 ∧ byte.toNat ≠ 128) := by
  apply forall_byte fun byte => (byte &&& 0x7f != 0) = decide (byte.toNat ≠ 0 ∧ byte.toNat ≠ 128)
  decide +kernel

theorem set_sign (byte : UInt8) (small : byte.toNat < 128) :
    (byte ||| 0x80).toNat = byte.toNat + 128 := by
  revert small
  apply forall_byte fun byte => byte.toNat < 128 → (byte ||| 0x80).toNat = byte.toNat + 128
  decide +kernel

theorem readLE_append (first second : Bytes) :
    readLE (first ++ second) = readLE first + 256 ^ first.length * readLE second := by
  induction first with
  | nil => simp [readLE]
  | cons byte rest ih =>
    rw [cons_append, readLE, readLE, ih, length_cons, Nat.pow_succ]
    ring

theorem readLE_snoc (body : Bytes) (last : UInt8) :
    readLE (body ++ [last]) = readLE body + 256 ^ body.length * last.toNat := by
  rw [readLE_append]
  rfl

section Magnitudes

/-- The last byte is not zero: the magnitude cannot be written with fewer. -/
def Reduced (bytes : Bytes) : Prop := ∀ body last, bytes = body ++ [last] → last.toNat ≠ 0

theorem reduced_tail (byte : UInt8) (rest : Bytes) (reduced : Reduced (byte :: rest)) :
    Reduced rest := by
  intro body last same
  exact reduced (byte :: body) last (by rw [same, cons_append])

theorem reduced_positive (bytes : Bytes) (nonempty : bytes ≠ []) (reduced : Reduced bytes) :
    0 < readLE bytes := by
  obtain none | ⟨body, last, same⟩ := eq_nil_or_concat' bytes
  · exact absurd none nonempty
  · have positive := reduced body last same
    rw [same, readLE_snoc]
    have power : 0 < 256 ^ body.length := Nat.pow_pos (by decide)
    have product : 0 < 256 ^ body.length * last.toNat := Nat.mul_pos power (by omega)
    omega

variable (absvalue : BitVec 64)

theorem absBytes_toNat (positive : absvalue ≠ 0) :
    ∃ byte : UInt8, byte.toNat = absvalue.toNat % 256 ∧
      absBytes absvalue = byte :: absBytes (absvalue >>> 8) := by
  refine ⟨UInt8.ofBitVec (absvalue.setWidth 8), ?_, ?_⟩
  · exact BitVec.toNat_setWidth 8 absvalue
  · rw [absBytes, if_neg positive]

theorem shifted_toNat : (absvalue >>> 8).toNat = absvalue.toNat / 256 := by
  rw [BitVec.toNat_ushiftRight, Nat.shiftRight_eq_div_pow]

theorem absBytes_spec :
    readLE (absBytes absvalue) = absvalue.toNat ∧ Reduced (absBytes absvalue) := by
  induction size : absvalue.toNat using Nat.strong_induction_on generalizing absvalue with
  | _ number ih =>
    by_cases zero : absvalue = 0
    · have none : absBytes absvalue = [] := by rw [absBytes, if_pos zero]
      rw [none, ← size, zero]
      refine ⟨rfl, fun body last same => ?_⟩
      cases body <;> cases same
    · obtain ⟨byte, low, bytes⟩ := absBytes_toNat absvalue zero
      have positive : absvalue.toNat ≠ 0 := fun none => zero (BitVec.eq_of_toNat_eq none)
      have shifted := shifted_toNat absvalue
      obtain ⟨value, reduced⟩ := ih (absvalue >>> 8).toNat (by omega) (absvalue >>> 8) rfl
      rw [bytes]
      constructor
      · rw [readLE, value, shifted, low]
        omega
      · intro body last same
        cases body with
        | nil =>
          have alone := cons.inj same
          rw [alone.2] at value
          have high : absvalue.toNat / 256 = 0 := by rw [← shifted, ← value]; rfl
          rw [← alone.1, low]
          omega
        | cons first others =>
          exact reduced others last (cons.inj same).2

theorem absBytes_readLE (bytes : Bytes) (reduced : Reduced bytes) (size : bytes.length ≤ 8) :
    absBytes (BitVec.ofNat 64 (readLE bytes)) = bytes := by
  have fits : ∀ bytes : Bytes, bytes.length ≤ 8 →
      (BitVec.ofNat 64 (readLE bytes)).toNat = readLE bytes := by
    intro bytes size
    rw [BitVec.toNat_ofNat]
    apply Nat.mod_eq_of_lt
    exact Nat.lt_of_lt_of_le (readLE_lt bytes) (Nat.pow_le_pow_right (by decide) size)
  induction bytes with
  | nil => rw [absBytes, if_pos (by rfl)]
  | cons byte rest ih =>
    have shorter : rest.length ≤ 8 := Nat.le_of_succ_le size
    have number := fits (byte :: rest) size
    have positive := reduced_positive (byte :: rest) (cons_ne_nil _ _) reduced
    have small : byte.toNat < 256 := byte.toNat_lt
    rcases absBytes_toNat (BitVec.ofNat 64 (readLE (byte :: rest))) (by
      intro zero
      rw [zero] at number
      rw [← number] at positive
      exact absurd positive (Nat.lt_irrefl 0)) with ⟨low, isLow, bytes⟩
    have shifted : BitVec.ofNat 64 (readLE (byte :: rest)) >>> 8 =
        BitVec.ofNat 64 (readLE rest) := by
      apply BitVec.eq_of_toNat_eq
      rw [shifted_toNat, number, fits rest shorter, readLE]
      omega
    rw [bytes, shifted, ih (reduced_tail byte rest reduced) shorter]
    congr 1
    apply UInt8.toNat_inj.mp
    rw [isLow, number, readLE]
    omega

theorem reduced_length (bytes : Bytes) (reduced : Reduced bytes) (count : Nat)
    (below : readLE bytes < 256 ^ count) : bytes.length ≤ count := by
  obtain none | ⟨body, last, same⟩ := eq_nil_or_concat' bytes
  · rw [none]
    exact Nat.zero_le count
  · have positive := reduced body last same
    rw [same, readLE_snoc] at below
    rw [same, length_append, length_singleton]
    by_contra longer
    have power : 256 ^ count ≤ 256 ^ body.length := Nat.pow_le_pow_right (by decide) (by omega)
    have product : 256 ^ body.length * 1 ≤ 256 ^ body.length * last.toNat :=
      Nat.mul_le_mul_left _ (by omega)
    omega

end Magnitudes

section Signs

variable (body : Bytes) (last : UInt8)

theorem getLastD_snoc : (body ++ [last]).getLastD 0 = last := by
  rw [getLastD_eq_getLast?, getLast?_concat]
  rfl

theorem setVch_snoc :
    setVch (body ++ [last]) =
      if 128 ≤ last.toNat then
        -((readLE body + 256 ^ body.length * (last.toNat - 128 : Nat) : Nat) : Int)
      else ((readLE body + 256 ^ body.length * last.toNat : Nat) : Int) := by
  unfold setVch isNegative
  rw [getLastD_snoc, sign_bit, readLE_snoc, length_append, length_singleton,
    Nat.add_sub_cancel]
  by_cases negative : 128 ≤ last.toNat
  · rw [decide_eq_true negative, if_pos rfl, if_pos negative]
    push_cast [Nat.cast_sub negative]
    ring
  · rw [decide_eq_false negative, if_neg Bool.false_ne_true, if_neg negative]

theorem isMinimal_snoc :
    isMinimal (body ++ [last]) =
      (decide (last.toNat ≠ 0 ∧ last.toNat ≠ 128) ||
        (!body.isEmpty && decide (128 ≤ (body.getLastD 0).toNat))) := by
  unfold isMinimal
  rw [getLastD_snoc, magnitude_bits, length_append, length_singleton]
  have notEmpty : (body ++ [last]).isEmpty = false := by
    cases body <;> rfl
  rw [notEmpty, Bool.false_or]
  congr 1
  obtain none | ⟨front, before, same⟩ := eq_nil_or_concat' body
  · rw [none]
    rfl
  · rw [same, getLastD_snoc, length_append, length_singleton, ← sign_bit]
    have second : (front ++ [before] ++ [last]).getD (front.length + 1 + 1 - 2) 0 = before := by
      rw [append_assoc, getD_append_right _ _ _ _ (by omega)]
      have here : front.length + 1 + 1 - 2 - front.length = 0 := by omega
      rw [here]
      rfl
    rw [second, decide_eq_true (by omega)]
    cases front <;> rfl

theorem setVch_withSign (neg : Bool) (result : Bytes) (nonempty : result ≠ []) :
    setVch (withSign neg result) =
      if neg then -(readLE result : Int) else (readLE result : Int) := by
  obtain none | ⟨body, last, same⟩ := eq_nil_or_concat' result
  · exact absurd none nonempty
  · unfold withSign
    rw [same, getLastD_snoc, sign_bit]
    by_cases full : 128 ≤ last.toNat
    · rw [decide_eq_true full, if_pos rfl, setVch_snoc]
      cases neg with
      | false => simp
      | true => simp
    · rw [decide_eq_false full, if_neg Bool.false_ne_true]
      cases neg with
      | false =>
        rw [if_neg Bool.false_ne_true, if_neg Bool.false_ne_true, setVch_snoc, if_neg full,
          readLE_snoc]
      | true =>
        have set := set_sign last (by omega)
        rw [if_pos rfl, if_pos rfl, dropLast_concat, setVch_snoc, if_pos (by omega), set,
          Nat.add_sub_cancel, readLE_snoc]

theorem isMinimal_withSign (neg : Bool) (result : Bytes) (nonempty : result ≠ [])
    (reduced : Reduced result) : isMinimal (withSign neg result) = true := by
  obtain none | ⟨body, last, same⟩ := eq_nil_or_concat' result
  · exact absurd none nonempty
  · have positive := reduced body last same
    unfold withSign
    rw [same, getLastD_snoc, sign_bit]
    by_cases full : 128 ≤ last.toNat
    · have notEmpty : (body ++ [last]).isEmpty = false := by
        cases body <;> rfl
      rw [decide_eq_true full, if_pos rfl, isMinimal_snoc, getLastD_snoc, decide_eq_true full,
        notEmpty]
      exact Bool.or_true _
    · rw [decide_eq_false full, if_neg Bool.false_ne_true]
      cases neg with
      | false =>
        rw [if_neg Bool.false_ne_true, isMinimal_snoc, decide_eq_true (by omega)]
        rfl
      | true =>
        have set := set_sign last (by omega)
        rw [if_pos rfl, dropLast_concat, isMinimal_snoc, set, decide_eq_true (by omega)]
        rfl

theorem withSign_of_bare (bare : last.toNat = 0 ∨ last.toNat = 128)
    (full : 128 ≤ (body.getLastD 0).toNat) :
    body ++ [last] = withSign (decide (last.toNat = 128)) body := by
  unfold withSign
  rw [sign_bit, decide_eq_true full, if_pos rfl]
  congr 2
  apply UInt8.toNat_inj.mp
  obtain zero | sign := bare
  · rw [decide_eq_false (by omega), if_neg Bool.false_ne_true, zero]
    rfl
  · rw [decide_eq_true sign, if_pos rfl, sign]
    rfl

theorem withSign_of_negative (body : Bytes) (last byte : UInt8) (negative : 128 ≤ last.toNat)
    (cleared : byte.toNat = last.toNat - 128) :
    body ++ [last] = withSign true (body ++ [byte]) := by
  have small : last.toNat < 256 := last.toNat_lt
  unfold withSign
  rw [getLastD_snoc, sign_bit, cleared, decide_eq_false (by omega), if_neg Bool.false_ne_true,
    if_pos rfl, dropLast_concat]
  congr 2
  apply UInt8.toNat_inj.mp
  rw [set_sign _ (by omega), cleared]
  omega

theorem withSign_of_positive (positive : ¬ 128 ≤ last.toNat) :
    body ++ [last] = withSign false (body ++ [last]) := by
  unfold withSign
  rw [getLastD_snoc, sign_bit, decide_eq_false positive, if_neg Bool.false_ne_true,
    if_neg Bool.false_ne_true]

theorem reduced_snoc (body : Bytes) (byte : UInt8) (notZero : byte.toNat ≠ 0) :
    Reduced (body ++ [byte]) := by
  intro front final same
  rw [← (cons.inj (append_inj' same rfl).2).1]
  exact notZero

theorem withSign_of_isMinimal (vch : Bytes) (nonempty : vch ≠ []) (minimal : isMinimal vch = true) :
    ∃ neg result, result ≠ [] ∧ Reduced result ∧ result.length ≤ vch.length ∧
      vch = withSign neg result := by
  obtain none | ⟨body, last, same⟩ := eq_nil_or_concat' vch
  · exact absurd none nonempty
  rw [same, isMinimal_snoc] at minimal
  rw [same]
  have small : last.toNat < 256 := last.toNat_lt
  have snoc_ne_nil : ∀ byte : UInt8, body ++ [byte] ≠ [] := fun byte =>
    append_ne_nil_of_right_ne_nil _ (cons_ne_nil _ _)
  by_cases bare : last.toNat = 0 ∨ last.toNat = 128
  · -- the last byte has the sign alone, so the magnitude is the rest
    rw [decide_eq_false (by omega), Bool.false_or, Bool.and_eq_true, Bool.not_eq_true',
      decide_eq_true_eq] at minimal
    obtain ⟨notEmpty, full⟩ := minimal
    refine ⟨decide (last.toNat = 128), body, ?_, ?_, ?_, withSign_of_bare body last bare full⟩
    · intro none
      rw [none] at notEmpty
      cases notEmpty
    · intro front before isBody
      rw [isBody, getLastD_snoc] at full
      omega
    · rw [length_append]
      exact Nat.le_add_right _ _
  · by_cases negative : 128 ≤ last.toNat
    · have cleared : (UInt8.ofNat (last.toNat - 128)).toNat = last.toNat - 128 := by
        rw [UInt8.toNat_ofNat']
        exact Nat.mod_eq_of_lt (by omega)
      refine ⟨true, body ++ [UInt8.ofNat (last.toNat - 128)], snoc_ne_nil _,
        reduced_snoc body _ (by omega), ?_, withSign_of_negative body last _ negative cleared⟩
      rw [length_append, length_append, length_singleton, length_singleton]
    · exact ⟨false, body ++ [last], snoc_ne_nil _, reduced_snoc body last (by omega),
        Nat.le_refl _, withSign_of_positive body last negative⟩

end Signs

theorem or_shifted (result : BitVec 64) (byte : UInt8) (i : Nat) (inside : i < 8)
    (below : result.toNat < 256 ^ i) :
    (result ||| byte.toBitVec.setWidth 64 <<< (8 * i)).toNat =
      result.toNat + 256 ^ i * byte.toNat := by
  have small : byte.toNat < 256 := byte.toNat_lt
  have power : (256 : Nat) ^ i = 2 ^ (8 * i) := by rw [Nat.pow_mul]
  have shifted : (byte.toBitVec.setWidth 64 <<< (8 * i)).toNat = 2 ^ (8 * i) * byte.toNat := by
    have fits : byte.toNat * 2 ^ (8 * i) < 2 ^ 64 := by
      calc byte.toNat * 2 ^ (8 * i) < 256 * 2 ^ (8 * i) :=
            Nat.mul_lt_mul_of_pos_right small (Nat.two_pow_pos _)
        _ = 2 ^ (8 + 8 * i) := by rw [Nat.pow_add]
        _ ≤ 2 ^ 64 := Nat.pow_le_pow_right (by decide) (by omega)
    have wide : (byte.toBitVec.setWidth 64).toNat = byte.toNat := by
      rw [BitVec.toNat_setWidth]
      exact Nat.mod_eq_of_lt (by change byte.toNat < 2 ^ 64; omega)
    rw [BitVec.toNat_shiftLeft, wide, Nat.shiftLeft_eq, Nat.mod_eq_of_lt fits, Nat.mul_comm]
  rw [power] at below ⊢
  rw [BitVec.toNat_or, shifted, Nat.or_comm, ← Nat.two_pow_add_eq_or_of_lt below]
  exact Nat.add_comm _ _

theorem orBytes_toNat (result : BitVec 64) (i : Nat) (bytes : Bytes)
    (inside : i + bytes.length ≤ 8) (below : result.toNat < 256 ^ i) :
    (orBytes result i bytes).toNat = result.toNat + 256 ^ i * readLE bytes := by
  induction bytes generalizing result i with
  | nil => rfl
  | cons byte rest ih =>
    have small : byte.toNat < 256 := byte.toNat_lt
    rw [length_cons] at inside
    have added := or_shifted result byte i (by omega) below
    have next : (result ||| byte.toBitVec.setWidth 64 <<< (8 * i)).toNat < 256 ^ (i + 1) := by
      rw [added, Nat.pow_succ]
      have product : 256 ^ i * byte.toNat ≤ 256 ^ i * 255 := Nat.mul_le_mul_left _ (by omega)
      omega
    rw [orBytes, ih _ (i + 1) (by omega) next, added, readLE, Nat.pow_succ]
    ring

theorem clear_bit (word : BitVec 64) (bit : Nat) (set : word.getLsbD bit = true) :
    (word &&& ~~~BitVec.twoPow 64 bit).toNat + (BitVec.twoPow 64 bit).toNat = word.toNat := by
  have apart : (word &&& ~~~BitVec.twoPow 64 bit) &&& BitVec.twoPow 64 bit = 0 := by
    rw [BitVec.and_assoc, BitVec.and_comm (~~~BitVec.twoPow 64 bit), BitVec.and_not_self]
    exact BitVec.and_zero
  have whole : (word &&& ~~~BitVec.twoPow 64 bit) ||| BitVec.twoPow 64 bit = word := by
    apply BitVec.eq_of_getLsbD_eq
    intro i bound
    rw [BitVec.getLsbD_or, BitVec.getLsbD_and, BitVec.getLsbD_not, BitVec.getLsbD_twoPow]
    by_cases same : bit = i
    · rw [← same] at bound ⊢
      rw [set, decide_eq_true bound, decide_eq_true rfl]
      rfl
    · rw [decide_eq_true bound, decide_eq_false same]
      simp
  have sum := BitVec.toNat_add_of_and_eq_zero apart
  rw [BitVec.add_eq_or_of_and_eq_zero _ _ apart, whole] at sum
  exact sum.symm

section Bits

variable (body : Bytes) (last : UInt8)

theorem orBytes_snoc (size : body.length + 1 ≤ 8) :
    (orBytes 0 0 (body ++ [last])).toNat = readLE body + 256 ^ body.length * last.toNat := by
  rw [orBytes_toNat 0 0 (body ++ [last]) (by simpa using size) (by decide), readLE_snoc]
  simp

theorem top_place : (256 : Nat) ^ body.length * 128 = 2 ^ (8 * body.length + 7) := by
  rw [Nat.pow_add, Nat.pow_mul]

theorem sign_mask :
    (0x80 : BitVec 64) <<< (8 * body.length) = BitVec.twoPow 64 (8 * body.length + 7) := by
  apply BitVec.eq_of_toNat_eq
  rw [BitVec.toNat_shiftLeft, BitVec.toNat_twoPow, Nat.shiftLeft_eq, ← top_place, Nat.pow_mul,
    Nat.mul_comm]
  rfl

theorem sign_set (size : body.length + 1 ≤ 8) (negative : 128 ≤ last.toNat) :
    (orBytes 0 0 (body ++ [last])).getLsbD (8 * body.length + 7) = true := by
  have small : last.toNat < 256 := last.toNat_lt
  have low := readLE_lt body
  have quotient : (readLE body + 256 ^ body.length * last.toNat) /
      2 ^ (8 * body.length + 7) = 1 := by
    rw [← top_place]
    apply Nat.div_eq_of_lt_le
    · have product := Nat.mul_le_mul_left (256 ^ body.length) negative
      omega
    · have product : 256 ^ body.length * last.toNat ≤ 256 ^ body.length * 255 :=
        Nat.mul_le_mul_left _ (by omega)
      omega
  rw [BitVec.getLsbD, orBytes_snoc body last size, Nat.testBit_eq_decide_div_mod_eq, quotient]
  rfl

theorem sign_cleared (size : body.length + 1 ≤ 8) (negative : 128 ≤ last.toNat) :
    (orBytes 0 0 (body ++ [last]) &&& ~~~BitVec.twoPow 64 (8 * body.length + 7)).toNat =
      readLE body + 256 ^ body.length * (last.toNat - 128) := by
  have cleared := clear_bit _ _ (sign_set body last size negative)
  have below : 2 ^ (8 * body.length + 7) ≤ 2 ^ 63 :=
    Nat.pow_le_pow_right (by decide) (by omega)
  have inWord : 2 ^ (8 * body.length + 7) < 2 ^ 64 := by omega
  rw [orBytes_snoc body last size, BitVec.toNat_twoPow, Nat.mod_eq_of_lt inWord, ← top_place]
    at cleared
  rw [Nat.mul_sub]
  have product := Nat.mul_le_mul_left (256 ^ body.length) negative
  omega

theorem magnitude_bound (size : body.length + 1 ≤ 8) (rest : Nat) (unsigned : rest ≤ 127) :
    readLE body + 256 ^ body.length * rest < 2 ^ 63 := by
  have low := readLE_lt body
  have top := top_place body
  have limit : 2 ^ (8 * body.length + 7) ≤ 2 ^ 63 :=
    Nat.pow_le_pow_right (by decide) (by omega)
  have product : 256 ^ body.length * rest ≤ 256 ^ body.length * 127 :=
    Nat.mul_le_mul_left _ unsigned
  omega

end Bits

theorem setVchInt64_toInt (vch : Bytes) (size : vch.length ≤ 8) :
    (setVchInt64 vch).toInt = setVch vch := by
  obtain none | ⟨body, last, same⟩ := eq_nil_or_concat' vch
  · rw [none]
    rfl
  have small : last.toNat < 256 := last.toNat_lt
  have notEmpty : (body ++ [last]).isEmpty = false := by
    cases body <;> rfl
  rw [same, length_append, length_singleton] at size
  have word := orBytes_snoc body last size
  rw [same, setVch_snoc, setVchInt64, notEmpty, if_neg Bool.false_ne_true, getLastD_snoc, sign_bit,
    length_append, length_singleton, Nat.add_sub_cancel]
  dsimp only
  by_cases negative : 128 ≤ last.toNat
  · rw [decide_eq_true negative, if_pos rfl, if_pos negative]
    have magnitude := sign_cleared body last size negative
    have bound := magnitude_bound body size (last.toNat - 128) (by omega)
    rw [sign_mask, BitVec.toInt_neg, BitVec.toInt_eq_toNat_of_lt (by omega), magnitude]
    apply Int.bmod_eq_of_le <;> omega
  · have bound := magnitude_bound body size last.toNat (by omega)
    rw [decide_eq_false negative, if_neg Bool.false_ne_true, if_neg negative,
      BitVec.toInt_eq_toNat_of_lt (by omega), word]

section Numbers

variable (value : BitVec 64)

theorem absvalue_toNat :
    (if value.slt 0 then -value else value).toNat = value.toInt.natAbs := by
  have sign : value.slt 0 = decide (value.toInt < 0) := rfl
  have cases := BitVec.toInt_eq_toNat_cond value
  have bound := value.isLt
  rw [sign]
  by_cases negative : value.toInt < 0
  · rw [decide_eq_true negative, if_pos rfl, BitVec.toNat_neg]
    split at cases <;> omega
  · rw [decide_eq_false negative, if_neg Bool.false_ne_true]
    split at cases <;> omega

theorem serializeInt64_withSign (nonzero : value ≠ 0) :
    ∃ result, result ≠ [] ∧ Reduced result ∧ readLE result = value.toInt.natAbs ∧
      serializeInt64 value = withSign (decide (value.toInt < 0)) result := by
  have nonzeroInt : value.toInt ≠ 0 := fun zero => nonzero (BitVec.eq_of_toInt_eq zero)
  have sign : value.slt 0 = decide (value.toInt < 0) := rfl
  obtain ⟨number, reduced⟩ := absBytes_spec (if value.slt 0 then -value else value)
  refine ⟨_, ?_, reduced, number.trans (absvalue_toNat value), ?_⟩
  · intro none
    rw [none, absvalue_toNat] at number
    exact nonzeroInt (Int.natAbs_eq_zero.mp number.symm)
  · rw [serializeInt64, if_neg nonzero, ← sign]

theorem setVch_serializeInt64 :
    setVch (serializeInt64 value) = value.toInt := by
  by_cases zero : value = 0
  · rw [zero]
    rfl
  · obtain ⟨result, nonempty, _, number, written⟩ := serializeInt64_withSign value zero
    rw [written, setVch_withSign _ _ nonempty, number]
    by_cases negative : value.toInt < 0
    · rw [decide_eq_true negative, if_pos rfl]
      omega
    · rw [decide_eq_false negative, if_neg Bool.false_ne_true]
      omega

theorem isMinimal_serializeInt64 : isMinimal (serializeInt64 value) = true := by
  by_cases zero : value = 0
  · rw [zero]
    rfl
  · obtain ⟨result, nonempty, reduced, _, written⟩ := serializeInt64_withSign value zero
    rw [written]
    exact isMinimal_withSign _ result nonempty reduced

theorem serializeInt64_length (larger : value ≠ BitVec.intMin 64) :
    (serializeInt64 value).length ≤ 8 := by
  by_cases zero : value = 0
  · rw [zero]
    exact Nat.zero_le 8
  · obtain ⟨result, nonempty, reduced, number, written⟩ := serializeInt64_withSign value zero
    have small : readLE result < 2 ^ 63 := by
      have above : value.toInt ≠ -2 ^ 63 := by
        intro smallest
        apply larger
        apply BitVec.eq_of_toInt_eq
        rw [smallest]
        decide
      have range := BitVec.le_toInt value
      have range' := BitVec.toInt_lt (x := value)
      omega
    have size := reduced_length result reduced 8 (by omega)
    obtain none | ⟨body, last, same⟩ := eq_nil_or_concat' result
    · exact absurd none nonempty
    · rw [written, withSign]
      rw [same, readLE_snoc] at small
      rw [same, length_append, length_singleton] at size
      rw [same, getLastD_snoc, sign_bit]
      by_cases full : 128 ≤ last.toNat
      · rw [decide_eq_true full, if_pos rfl, length_append, length_append,
          length_singleton, length_singleton]
        by_contra nine
        have isSeven : body.length = 7 := by omega
        rw [isSeven] at small
        omega
      · rw [decide_eq_false full, if_neg Bool.false_ne_true]
        split
        · rw [dropLast_concat, length_append, length_singleton]
          exact size
        · rw [length_append, length_singleton]
          exact size

theorem serializeInt64_setVchInt64 (vch : Bytes) (size : vch.length ≤ 8)
    (minimal : isMinimal vch = true) : serializeInt64 (setVchInt64 vch) = vch := by
  by_cases none : vch = []
  · rw [none]
    rfl
  · rcases withSign_of_isMinimal vch none minimal with
      ⟨neg, result, nonempty, reduced, shorter, written⟩
    have value := setVchInt64_toInt vch size
    have positive := reduced_positive result nonempty reduced
    rw [written, setVch_withSign neg result nonempty, ← written] at value
    have nonzero : setVchInt64 vch ≠ 0 := by
      intro zero
      rw [zero] at value
      cases neg with
      | false =>
        rw [if_neg Bool.false_ne_true] at value
        change 0 = (readLE result : Int) at value
        omega
      | true =>
        rw [if_pos rfl] at value
        change 0 = -(readLE result : Int) at value
        omega
    rcases serializeInt64_withSign (setVchInt64 vch) nonzero with
      ⟨other, _, otherReduced, number, serialized⟩
    have same : readLE other = readLE result ∧ decide ((setVchInt64 vch).toInt < 0) = neg := by
      rw [number, value]
      cases neg with
      | false =>
        rw [if_neg Bool.false_ne_true]
        exact ⟨Int.natAbs_natCast _, decide_eq_false (by omega)⟩
      | true =>
        rw [if_pos rfl]
        exact ⟨by omega, decide_eq_true (by omega)⟩
    have otherShort : other.length ≤ 8 := by
      apply reduced_length other otherReduced
      rw [same.1]
      exact Nat.lt_of_lt_of_le (readLE_lt result)
        (Nat.pow_le_pow_right (by decide) (Nat.le_trans shorter size))
    have unique : other = result := by
      rw [← absBytes_readLE other otherReduced otherShort, same.1,
        absBytes_readLE result reduced (Nat.le_trans shorter size)]
    rw [serialized, same.2, unique, ← written]

theorem scriptNumInt64_ok (vch : Bytes) (size : vch.length ≤ 8) (value : BitVec 64) :
    scriptNumInt64 true 8 vch = .ok value ↔ isMinimal vch = true ∧ setVchInt64 vch = value := by
  unfold scriptNumInt64
  rw [decide_eq_true size]
  cases isMinimal vch with
  | false =>
    constructor
    · intro accepted
      cases accepted
    · intro both
      cases both.1
  | true =>
    constructor
    · intro accepted
      exact ⟨rfl, Except.ok.inj accepted⟩
    · intro both
      exact congrArg Except.ok both.2

end Numbers

/-- The numbers but the smallest and their shortest forms of at most eight bytes
belong to each other one by one. -/
theorem numbers_and_minimal_forms :
    (∀ value : BitVec 64, value ≠ BitVec.intMin 64 →
      (serializeInt64 value).length ≤ 8 ∧
        scriptNumInt64 true 8 (serializeInt64 value) = .ok value) ∧
    ∀ vch : Bytes, vch.length ≤ 8 →
      ((∃ value, scriptNumInt64 true 8 vch = .ok value) ↔
        serializeInt64 (setVchInt64 vch) = vch) := by
  constructor
  · intro value larger
    have size := serializeInt64_length value larger
    refine ⟨size, (scriptNumInt64_ok _ size value).mpr ⟨isMinimal_serializeInt64 value, ?_⟩⟩
    apply BitVec.eq_of_toInt_eq
    rw [setVchInt64_toInt _ size, setVch_serializeInt64]
  · intro vch size
    constructor
    · intro accepted
      obtain ⟨value, isValue⟩ := accepted
      exact serializeInt64_setVchInt64 vch size ((scriptNumInt64_ok vch size value).mp isValue).1
    · intro written
      have minimal := isMinimal_serializeInt64 (setVchInt64 vch)
      rw [written] at minimal
      exact ⟨_, (scriptNumInt64_ok vch size _).mpr ⟨minimal, rfl⟩⟩

/-- The bytes of minus 255, and what they are read as. -/
theorem minus_255_forms :
    ((serializeInt64 (-255)).length ≤ 8 ∧
      scriptNumInt64 true 8 (serializeInt64 (-255)) = .ok (-255)) ∧
    ((∃ value, scriptNumInt64 true 8 [0xff, 0x80] = .ok value) ↔
      serializeInt64 (setVchInt64 [0xff, 0x80]) = [0xff, 0x80]) :=
  ⟨numbers_and_minimal_forms.1 (-255) (by decide),
    numbers_and_minimal_forms.2 [0xff, 0x80] (by decide)⟩

end ZenonCore.ScriptNumCodec
