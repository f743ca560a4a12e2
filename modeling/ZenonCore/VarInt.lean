import ZenonCore.CoinsSize

/-!
# Variable-length integers

`WriteVarInt` fills a buffer and sends it backwards. `ReadVarInt` shifts by seven bits, and
drops what does not fit.
-/

namespace ZenonCore.VarInt

open Script List
open Serialize (varIntDigits)
open CoinsSize (sizeLoop)

section Code

variable {w : Nat}

/-- The loop of `GetSizeOfVarInt`, over at most `fuel` rounds. -/
def sizeRounds : Nat → BitVec w → Nat
  | 0, _ => 0
  | fuel + 1, n => if n ≤ 0x7F then 1 else sizeRounds fuel ((n >>> 7) - 1) + 1

def getSizeOfVarInt (n : BitVec w) : Nat := sizeRounds (n.toNat + 1) n

def digit (len : Nat) (n : BitVec w) : UInt8 :=
  UInt8.ofNat (n &&& 0x7F).toNat ||| if len = 0 then 0x00 else 0x80

/-- What the loop of `WriteVarInt` puts into `tmp` from `tmp[len]` on, with `room` bytes left;
nothing past the end. -/
def fillTmp : Nat → Nat → BitVec w → Option Bytes
  | 0, _, _ => none
  | room + 1, len, n =>
    if n ≤ 0x7F then some [digit len n]
    else (fillTmp room (len + 1) ((n >>> 7) - 1)).map fun rest => digit len n :: rest

/-- `WriteVarInt`, which sends `tmp` from the last byte to the first. -/
def writeVarInt (n : BitVec w) : Option Bytes :=
  (fillTmp ((w / 8 * 8 + 6) / 7) 0 n).map List.reverse

/-- `ReadVarInt`, with the number read so far; nothing if the stream ends. -/
def readFrom (n : BitVec w) : Bytes → Option (BitVec w × Bytes)
  | [] => none
  | chData :: rest =>
    let n := (n <<< 7) ||| BitVec.ofNat w (chData &&& 0x7F).toNat
    if chData &&& 0x80 ≠ 0 then readFrom (n + 1) rest else some (n, rest)

def readVarInt (bytes : Bytes) : Option (BitVec w × Bytes) := readFrom 0 bytes

/-- `(a[len-1] & 0x7F) + sum(i=1..len-1, 128^i*((a[len-i-1] & 0x7F)+1))`, the number that
the comment gives for a sequence of bytes. -/
def spelled (bytes : Bytes) : Nat :=
  match bytes.reverse with
  | [] => 0
  | last :: before =>
    last.toNat % 128 + 128 * Nat.ofDigits 128 (before.map fun a => a.toNat % 128 + 1)

end Code

section Agreement

variable {w : Nat} (wide : 8 ≤ w)

include wide

theorem toNat_mask : (0x7F : BitVec w).toNat = 127 := by
  have power : 2 ^ 8 ≤ 2 ^ w := Nat.pow_le_pow_right Nat.two_pos wide
  change 127 % 2 ^ w = 127
  exact Nat.mod_eq_of_lt (by omega)

variable (n : BitVec w)

theorem le_mask : n ≤ 0x7F ↔ n.toNat ≤ 127 := by
  rw [BitVec.le_def, toNat_mask wide]

theorem toNat_next (above : ¬ n.toNat ≤ 127) :
    ((n >>> 7) - 1).toNat = n.toNat / 128 - 1 := by
  have one : (1 : BitVec w).toNat = 1 := Nat.mod_eq_of_lt (Nat.one_lt_two_pow (by omega))
  have shifted : (n >>> 7).toNat = n.toNat / 128 := by
    rw [BitVec.toNat_ushiftRight, Nat.shiftRight_eq_div_pow]
  have least : (1 : BitVec w) ≤ n >>> 7 := by
    rw [BitVec.le_def, one, shifted]
    omega
  rw [BitVec.toNat_sub_of_le least, one, shifted]

theorem sizeRounds_eq (fuel : Nat) (n : BitVec w) : sizeRounds fuel n = sizeLoop fuel n.toNat := by
  induction fuel generalizing n with
  | zero => rfl
  | succ fuel ih =>
    rw [sizeRounds, sizeLoop]
    by_cases short : n.toNat ≤ 127
    · rw [if_pos ((le_mask wide n).mpr short), if_pos short]
    · rw [if_neg fun few => short ((le_mask wide n).mp few), if_neg short, ih,
        toNat_next wide n short]

theorem getSizeOfVarInt_eq :
    getSizeOfVarInt n = CoinsSize.getSizeOfVarInt n.toNat :=
  sizeRounds_eq wide _ n

theorem digit_first : digit 0 n = UInt8.ofNat (n.toNat % 128) := by
  unfold digit
  rw [if_pos rfl, BitVec.toNat_and, toNat_mask wide]
  rw [show n.toNat &&& 127 = n.toNat % 128 from Nat.and_two_pow_sub_one_eq_mod n.toNat 7]
  exact UInt8.or_zero

theorem digit_later (len : Nat) (n : BitVec w) :
    digit (len + 1) n = UInt8.ofNat (128 + n.toNat % 128) := by
  have low := Nat.mod_lt n.toNat (show 0 < 128 by decide)
  unfold digit
  rw [if_neg (Nat.succ_ne_zero len), BitVec.toNat_and, toNat_mask wide,
    show n.toNat &&& 127 = n.toNat % 128 from Nat.and_two_pow_sub_one_eq_mod n.toNat 7]
  apply UInt8.toNat_inj.mp
  have joined : n.toNat % 128 ||| 128 = 128 + n.toNat % 128 := by
    rw [Nat.or_comm]
    exact (Nat.two_pow_add_eq_or_of_lt (i := 7) low 1).symm
  have first : (UInt8.ofNat (n.toNat % 128)).toNat = n.toNat % 128 := by
    rw [UInt8.toNat_ofNat']
    omega
  have both : (UInt8.ofNat (128 + n.toNat % 128)).toNat = 128 + n.toNat % 128 := by
    rw [UInt8.toNat_ofNat']
    omega
  rw [UInt8.toNat_or, first, both]
  exact joined

theorem fillTmp_later (room len fuel : Nat) (n : BitVec w) (small : n.toNat < 128 ^ (room + 1))
    (enough : n.toNat < fuel) :
    fillTmp (room + 1) (len + 1) n = some (varIntDigits fuel n.toNat).reverse := by
  induction room generalizing len fuel n with
  | zero =>
    cases fuel with
    | zero => omega
    | succ fuel =>
      rw [fillTmp, varIntDigits, if_pos ((le_mask wide n).mpr (by omega)), if_pos (by omega),
        digit_later wide]
      rfl
  | succ room ih =>
    cases fuel with
    | zero => omega
    | succ fuel =>
      rw [fillTmp, varIntDigits, digit_later wide]
      by_cases short : n.toNat ≤ 127
      · rw [if_pos ((le_mask wide n).mpr short), if_pos short]
        rfl
      · have next := toNat_next wide n short
        have power : 128 ^ (room + 1 + 1) = 128 ^ (room + 1) * 128 := Nat.pow_succ ..
        rw [if_neg fun few => short ((le_mask wide n).mp few), if_neg short,
          ih (len + 1) fuel _ (by omega) (by omega), next, reverse_append]
        rfl

theorem fillTmp_first (room : Nat) (n : BitVec w) (small : n.toNat < 128 ^ (room + 1)) :
    fillTmp (room + 1) 0 n = some (Serialize.writeVarInt n.toNat).reverse := by
  rw [fillTmp, Serialize.writeVarInt, digit_first wide, reverse_append]
  by_cases short : n.toNat ≤ 127
  · rw [if_pos ((le_mask wide n).mpr short), if_pos short]
    rfl
  · have next := toNat_next wide n short
    rw [if_neg fun few => short ((le_mask wide n).mp few), if_neg short]
    cases room with
    | zero => omega
    | succ room =>
      have power : 128 ^ (room + 1 + 1) = 128 ^ (room + 1) * 128 := Nat.pow_succ ..
      rw [fillTmp_later wide room 0 n.toNat _ (by omega) (by omega), next]
      rfl

theorem writeVarInt_eq (bytes : 8 ∣ w) (n : BitVec w) :
    writeVarInt n = some (Serialize.writeVarInt n.toNat) := by
  have size : (w / 8 * 8 + 6) / 7 = (w / 8 * 8 - 1) / 7 + 1 := by omega
  have small : n.toNat < 128 ^ ((w / 8 * 8 - 1) / 7 + 1) := by
    calc n.toNat < 2 ^ w := n.isLt
      _ ≤ 2 ^ (7 * ((w / 8 * 8 - 1) / 7 + 1)) := Nat.pow_le_pow_right Nat.two_pos (by omega)
      _ = 128 ^ ((w / 8 * 8 - 1) / 7 + 1) := by rw [Nat.pow_mul]
  rw [writeVarInt, size, fillTmp_first wide _ n small, Option.map_some, reverse_reverse]

theorem toNat_read (chData : UInt8) :
    ((n <<< 7) ||| BitVec.ofNat w (chData &&& 0x7F).toNat).toNat =
      (n.toNat * 128 + chData.toNat % 128) % 2 ^ w := by
  have low : (chData &&& 0x7F).toNat = chData.toNat % 128 := by
    rw [UInt8.toNat_and]
    exact Nat.and_two_pow_sub_one_eq_mod chData.toNat 7
  have under := Nat.mod_lt chData.toNat (show 0 < 128 by decide)
  have power : 2 ^ w = 2 ^ 7 * 2 ^ (w - 7) := by
    rw [← Nat.pow_add]
    congr 1
    omega
  have room : 2 ^ 8 ≤ 2 ^ w := Nat.pow_le_pow_right Nat.two_pos wide
  have shifted : (n <<< 7).toNat = 2 ^ 7 * (n.toNat % 2 ^ (w - 7)) := by
    rw [BitVec.toNat_shiftLeft, Nat.shiftLeft_eq, Nat.mul_comm, power, Nat.mul_mod_mul_left]
  have split := Nat.div_add_mod n.toNat (2 ^ (w - 7))
  have rest := Nat.mod_lt n.toNat (Nat.two_pow_pos (w - 7))
  have whole : n.toNat * 128 + chData.toNat % 128 =
      2 ^ 7 * (n.toNat % 2 ^ (w - 7)) + chData.toNat % 128 + 2 ^ w * (n.toNat / 2 ^ (w - 7)) := by
    rw [power, Nat.mul_assoc]
    omega
  rw [BitVec.toNat_or, shifted, BitVec.toNat_ofNat, low,
    Nat.mod_eq_of_lt (show chData.toNat % 128 < 2 ^ w by omega),
    ← Nat.two_pow_add_eq_or_of_lt (i := 7) under, whole, Nat.add_mul_mod_self_left]
  exact (Nat.mod_eq_of_lt (by omega)).symm

omit wide in
theorem continues (chData : UInt8) : chData &&& 0x80 ≠ 0 ↔ 128 ≤ chData.toNat := by
  have every : ∀ v : Fin 256, UInt8.ofFin v &&& 0x80 ≠ 0 ↔ 128 ≤ v.val := by decide +kernel
  exact every chData.toFin

theorem readFrom_eq (bytes : Bytes) :
    (readFrom n bytes).map (fun got => (got.1.toNat, got.2)) =
      Serialize.readVarInt w n.toNat bytes := by
  induction bytes generalizing n with
  | nil => rfl
  | cons chData rest ih =>
    have one : (1 : BitVec w).toNat = 1 := Nat.mod_eq_of_lt (Nat.one_lt_two_pow (by omega))
    rw [readFrom, Serialize.readVarInt]
    by_cases more : 128 ≤ chData.toNat
    · simp only [if_pos ((continues chData).mpr more), if_pos more]
      rw [ih, BitVec.toNat_add, toNat_read wide, one]
    · simp only [if_neg fun high => more ((continues chData).mp high), if_neg more]
      rw [Option.map_some, toNat_read wide]

end Agreement

def Shaped (bytes : Bytes) : Prop :=
  ∃ before last, bytes = before ++ [last] ∧ (∀ a ∈ before, 128 ≤ a.toNat) ∧ last.toNat < 128

theorem spelled_snoc (before : Bytes) (last : UInt8) :
    spelled (before ++ [last]) = last.toNat % 128 +
      128 * Nat.ofDigits 128 (before.reverse.map fun a => a.toNat % 128 + 1) := by
  rw [spelled, reverse_append]
  rfl

theorem spelled_cons (first : UInt8) (rest : Bytes) (last : UInt8) :
    spelled (first :: (rest ++ [last])) =
      (first.toNat % 128 + 1) * 128 ^ (rest.length + 1) + spelled (rest ++ [last]) := by
  rw [← cons_append, spelled_snoc, spelled_snoc, reverse_cons, map_append,
    Nat.ofDigits_append, length_map, length_reverse, map_singleton,
    Nat.ofDigits_singleton, Nat.pow_succ]
  ring

theorem readVarInt_consumes (width n m : Nat) (stream rest : Bytes)
    (accepted : Serialize.readVarInt width n stream = some (m, rest)) :
    ∃ bytes, stream = bytes ++ rest ∧ Shaped bytes ∧
      m = (n * 128 ^ bytes.length + spelled bytes) % 2 ^ width := by
  induction stream generalizing n with
  | nil => cases accepted
  | cons chData stream ih =>
    rw [Serialize.readVarInt] at accepted
    split_ifs at accepted with more
    · obtain ⟨bytes, joined, ⟨before, last, parts, high, low⟩, value⟩ := ih _ accepted
      refine ⟨chData :: bytes, by rw [joined, cons_append],
        ⟨chData :: before, last, by rw [parts, cons_append], ?_, low⟩, ?_⟩
      · intro a among
        obtain rfl | behind := mem_cons.mp among
        · exact more
        · exact high a behind
      · have wrapped : ((n * 128 + chData.toNat % 128) % 2 ^ width + 1) % 2 ^ width ≡
            n * 128 + chData.toNat % 128 + 1 [MOD 2 ^ width] :=
          (Nat.mod_modEq _ _).trans ((Nat.mod_modEq _ _).add_right 1)
        rw [value, parts, spelled_cons, length_cons, length_append,
          length_singleton, Nat.pow_succ 128 (before.length + 1)]
        refine ((wrapped.mul_right _).add_right _).trans ?_
        have expanded : (n * 128 + chData.toNat % 128 + 1) * 128 ^ (before.length + 1) +
            spelled (before ++ [last]) =
              n * (128 ^ (before.length + 1) * 128) +
                ((chData.toNat % 128 + 1) * 128 ^ (before.length + 1) +
                  spelled (before ++ [last])) := by
          ring
        rw [expanded]
    · obtain ⟨rfl, rfl⟩ := Prod.mk.inj (Option.some.inj accepted)
      refine ⟨[chData], rfl, ⟨[], chData, rfl, by simp, by omega⟩, ?_⟩
      rw [← nil_append [chData], spelled_snoc, length_append]
      simp

theorem varIntDigits_ofDigits (digits : Bytes) (nonempty : digits ≠ []) (fuel : Nat)
    (high : ∀ a ∈ digits, 128 ≤ a.toNat)
    (enough : Nat.ofDigits 128 (digits.map fun a => a.toNat % 128 + 1) ≤ fuel) :
    varIntDigits fuel (Nat.ofDigits 128 (digits.map fun a => a.toNat % 128 + 1) - 1) =
      digits.reverse := by
  induction digits generalizing fuel with
  | nil => exact absurd rfl nonempty
  | cons a digits ih =>
    have flagged : 128 ≤ a.toNat := high a mem_cons_self
    have bound := a.toNat_lt
    rw [map_cons, Nat.ofDigits_cons] at enough ⊢
    cases fuel with
    | zero => omega
    | succ fuel =>
      have byte : UInt8.ofNat (128 + a.toNat % 128) = a := by
        rw [show 128 + a.toNat % 128 = a.toNat by omega]
        exact UInt8.ofNat_toNat
      cases digits with
      | nil =>
        rw [varIntDigits, map_nil, Nat.ofDigits_nil, if_pos (by omega),
          show (a.toNat % 128 + 1 + 128 * 0 - 1) % 128 = a.toNat % 128 by omega, byte]
        rfl
      | cons b digits =>
        have more : 1 ≤ Nat.ofDigits 128 ((b :: digits).map fun a => a.toNat % 128 + 1) := by
          rw [map_cons, Nat.ofDigits_cons]
          omega
        have inner := ih (cons_ne_nil b digits) fuel
          (fun other among => high other (mem_cons_of_mem a among)) (by omega)
        generalize Nat.ofDigits 128 ((b :: digits).map fun a => a.toNat % 128 + 1) = v at *
        rw [varIntDigits, if_neg (by omega),
          show (a.toNat % 128 + 1 + 128 * v - 1) / 128 - 1 = v - 1 by omega,
          show (a.toNat % 128 + 1 + 128 * v - 1) % 128 = a.toNat % 128 by omega, byte, inner,
          reverse_cons (a := a)]

theorem writeVarInt_spelled (bytes : Bytes) (shaped : Shaped bytes) :
    Serialize.writeVarInt (spelled bytes) = bytes := by
  obtain ⟨before, last, rfl, high, low⟩ := shaped
  have byte : UInt8.ofNat (last.toNat % 128) = last := by
    rw [Nat.mod_eq_of_lt low]
    exact UInt8.ofNat_toNat
  rw [spelled_snoc, Serialize.writeVarInt]
  cases split : before.reverse with
  | nil =>
    rw [reverse_eq_nil_iff.mp split, map_nil, Nat.ofDigits_nil, if_pos (by omega),
      show (last.toNat % 128 + 128 * 0) % 128 = last.toNat % 128 by omega, byte]
  | cons b digits =>
    have more : 1 ≤ Nat.ofDigits 128 ((b :: digits).map fun a => a.toNat % 128 + 1) := by
      rw [map_cons, Nat.ofDigits_cons]
      omega
    have inner := varIntDigits_ofDigits (b :: digits) (cons_ne_nil b digits)
      (last.toNat % 128 +
        128 * Nat.ofDigits 128 ((b :: digits).map fun a => a.toNat % 128 + 1))
      (fun a among => high a (mem_reverse.mp (split ▸ among))) (by omega)
    rw [← split, reverse_reverse, split] at inner
    generalize Nat.ofDigits 128 ((b :: digits).map fun a => a.toNat % 128 + 1) = v at *
    rw [if_neg (by omega),
      show (last.toNat % 128 + 128 * v) / 128 - 1 = v - 1 by omega,
      show (last.toNat % 128 + 128 * v) % 128 = last.toNat % 128 by omega, byte, inner]

theorem writeVarInt_injective (first second : Nat)
    (same : Serialize.writeVarInt first = Serialize.writeVarInt second) : first = second := by
  have wide (n : Nat) (among : n ≤ first + second) :=
    Serialize.readVarInt_write (first + second) n (lt_of_le_of_lt among Nat.lt_two_pow_self) []
  have one := wide first (Nat.le_add_right ..)
  rw [same, wide second (Nat.le_add_left ..)] at one
  exact (Prod.mk.inj (Option.some.inj one)).1.symm

/-- What is written is read back, and what is read has been written if and only if the number it
spells fits into the type. -/
theorem varint_one_to_one_iff (w : Nat) (width : w = 32 ∨ w = 64) :
    (∀ (n : BitVec w) (rest : Bytes), ∃ bytes, writeVarInt n = some bytes ∧
      readVarInt (bytes ++ rest) = some (n, rest) ∧ getSizeOfVarInt n = bytes.length) ∧
    ∀ (n : BitVec w) (bytes rest : Bytes), readVarInt (bytes ++ rest) = some (n, rest) →
      (writeVarInt n = some bytes ↔ spelled bytes < 2 ^ w) := by
  have wide : 8 ≤ w := by omega
  have whole : 8 ∣ w := by omega
  have zero : (0 : BitVec w).toNat = 0 := Nat.zero_mod _
  constructor
  · intro n rest
    refine ⟨_, writeVarInt_eq wide whole n, ?_, ?_⟩
    · have read := readFrom_eq wide 0 (Serialize.writeVarInt n.toNat ++ rest)
      rw [zero, Serialize.readVarInt_write w n.toNat n.isLt rest, Option.map_eq_some_iff] at read
      obtain ⟨⟨got, left⟩, accepted, values⟩ := read
      obtain ⟨value, behind⟩ := Prod.mk.inj values
      have number : got = n := BitVec.eq_of_toNat_eq value
      rw [readVarInt, accepted, number, show left = rest from behind]
    · rw [getSizeOfVarInt_eq wide, CoinsSize.writeVarInt_length]
  · intro n bytes rest accepted
    have read := readFrom_eq wide 0 (bytes ++ rest)
    rw [← readVarInt, accepted, zero] at read
    obtain ⟨taken, joined, shaped, value⟩ := readVarInt_consumes w 0 n.toNat _ rest read.symm
    obtain rfl := append_cancel_right joined
    rw [Nat.zero_mul, Nat.zero_add] at value
    rw [writeVarInt_eq wide whole, Option.some.injEq]
    constructor
    · intro same
      have number := writeVarInt_injective n.toNat (spelled bytes)
        (same.trans (writeVarInt_spelled bytes shaped).symm)
      rw [← number]
      exact n.isLt
    · intro fits
      rw [value, Nat.mod_eq_of_lt fits, writeVarInt_spelled bytes shaped]

theorem one_to_one_of_32_bits :
    (∀ (n : BitVec 32) (rest : Bytes), ∃ bytes, writeVarInt n = some bytes ∧
      readVarInt (bytes ++ rest) = some (n, rest) ∧ getSizeOfVarInt n = bytes.length) ∧
    ∀ (n : BitVec 32) (bytes rest : Bytes), readVarInt (bytes ++ rest) = some (n, rest) →
      (writeVarInt n = some bytes ↔ spelled bytes < 2 ^ 32) :=
  varint_one_to_one_iff 32 (Or.inl rfl)

/-- The encoding of `2^32` from the comment is read as 0, which is written as one byte. -/
theorem two_encodings_of_zero :
    ¬ ∀ w : Nat, w = 32 ∨ w = 64 → ∀ (n : BitVec w) (bytes rest : Bytes),
      readVarInt (bytes ++ rest) = some (n, rest) → writeVarInt n = some bytes := by
  intro unique
  have written := unique 32 (Or.inl rfl) 0 [0x8E, 0xFE, 0xFE, 0xFF, 0x00] [] (by decide +kernel)
  exact absurd written (by decide +kernel)

end ZenonCore.VarInt
