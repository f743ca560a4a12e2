import Mathlib.Algebra.Order.Ring.Int
import ZenonCore.Library.Formats
import ZenonCore.MoneySupply
import ZenonCore.NetMessage

/-!
# Serialization

The formats of `serialize.h` that an entry of the block index is written with.
-/

namespace ZenonCore.Serialize

open Formats NetMessage Primitives Script List
open StakeInput (zerocoinDenomList)
open Zerocoin

abbrev ByteFormat (α : Type) := Format UInt8 α

def unsigned (size : Nat) : ByteFormat Nat :=
  Format.block size (writeLE size) readLE (fun number => number < 256 ^ size)
    (writeLE_length size) (readLE_writeLE size)

theorem bmod_back (size : Nat) (number : Int) (lower : -(2 ^ (8 * size) : Nat) ≤ 2 * number)
    (upper : 2 * number < (2 ^ (8 * size) : Nat)) :
    Int.bmod ((number % (2 ^ (8 * size) : Nat)).toNat : Int) (2 ^ (8 * size)) = number := by
  have positive : (0 : Int) < (2 ^ (8 * size) : Nat) := by positivity
  rw [Int.toNat_of_nonneg (Int.emod_nonneg _ positive.ne'), Int.emod_bmod]
  exact Int.bmod_eq_of_le_mul_two (by omega) (by omega)

def signed (size : Nat) : ByteFormat Int :=
  Format.block size (fun number => writeLE size (number % (2 ^ (8 * size) : Nat)).toNat)
    (fun bytes => Int.bmod (readLE bytes) (2 ^ (8 * size)))
    (fun number => -(2 ^ (8 * size) : Nat) ≤ 2 * number ∧ 2 * number < (2 ^ (8 * size) : Nat))
    (fun number => writeLE_length size _)
    (by
      intro number fitting
      have positive : (0 : Int) < (2 ^ (8 * size) : Nat) := by positivity
      have bound : (number % (2 ^ (8 * size) : Nat)).toNat < 256 ^ size := by
        have less := Int.emod_lt_of_pos number positive
        have same : (256 : Nat) ^ size = 2 ^ (8 * size) := by
          rw [Nat.pow_mul]
        rw [same]
        omega
      rw [readLE_writeLE size _ bound]
      exact bmod_back size number fitting.1 fitting.2)

def uint32 : ByteFormat UInt32 :=
  (unsigned 4).convert UInt32.toNat UInt32.ofNat fun _ => UInt32.ofNat_toNat

def uint64 : ByteFormat UInt64 :=
  (unsigned 8).convert UInt64.toNat UInt64.ofNat fun _ => UInt64.ofNat_toNat

def uint256 : ByteFormat Uint256 :=
  (unsigned 32).convert BitVec.toNat (BitVec.ofNat 256) fun value => BitVec.ofNat_toNat 256 value

theorem uint32_fits (value : UInt32) : uint32.fits value := value.toNat_lt

theorem uint64_fits (value : UInt64) : uint64.fits value := value.toNat_lt

theorem uint256_fits (value : Uint256) : uint256.fits value := value.isLt

def outPoint : ByteFormat COutPoint :=
  (Format.pair uint256 uint32).convert (fun out => (out.hash, out.n))
    (fun read => { hash := read.1, n := read.2 }) fun _ => rfl

theorem outPoint_fits (value : COutPoint) : outPoint.fits value :=
  ⟨uint256_fits value.hash, uint32_fits value.n⟩

def varIntDigits : Nat → Nat → Bytes
  | 0, _ => []
  | fuel + 1, n =>
    (if n ≤ 0x7f then [] else varIntDigits fuel (n / 128 - 1)) ++ [UInt8.ofNat (128 + n % 128)]

def writeVarInt (n : Nat) : Bytes :=
  (if n ≤ 0x7f then [] else varIntDigits n (n / 128 - 1)) ++ [UInt8.ofNat (n % 128)]

/-- `ReadVarInt` into a number of a width, with the number `n` read so far. -/
def readVarInt (width n : Nat) : Bytes → Option (Nat × Bytes)
  | [] => none
  | chData :: rest =>
    let next := (n * 128 + chData.toNat % 128) % 2 ^ width
    if 128 ≤ chData.toNat then readVarInt width ((next + 1) % 2 ^ width) rest
    else some (next, rest)

theorem readVarInt_digit (width n digit : Nat) (small : digit < 128) (rest : Bytes)
    (bound : n * 128 + digit + 1 < 2 ^ width) :
    readVarInt width n (UInt8.ofNat (128 + digit) :: rest) =
      readVarInt width (n * 128 + digit + 1) rest := by
  have value : (UInt8.ofNat (128 + digit)).toNat = 128 + digit := by
    rw [UInt8.toNat_ofNat']
    omega
  have low : (128 + digit) % 128 = digit := by omega
  rw [readVarInt, value, low]
  rw [if_pos (Nat.le_add_right _ _), Nat.mod_eq_of_lt (Nat.lt_of_succ_lt bound),
    Nat.mod_eq_of_lt bound]

theorem readVarInt_last (width n digit : Nat) (small : digit < 128) (rest : Bytes)
    (bound : n * 128 + digit < 2 ^ width) :
    readVarInt width n (UInt8.ofNat digit :: rest) = some (n * 128 + digit, rest) := by
  have value : (UInt8.ofNat digit).toNat = digit := by
    rw [UInt8.toNat_ofNat']
    omega
  rw [readVarInt, value, Nat.mod_eq_of_lt small]
  rw [if_neg (by omega), Nat.mod_eq_of_lt bound]

theorem readVarInt_digits (width fuel n : Nat) (enough : n < fuel) (bound : n + 1 < 2 ^ width)
    (rest : Bytes) :
    readVarInt width 0 (varIntDigits fuel n ++ rest) = readVarInt width (n + 1) rest := by
  induction fuel generalizing n rest with
  | zero => omega
  | succ fuel ih =>
    rw [varIntDigits, append_assoc, singleton_append]
    have digit := Nat.mod_lt n (show 0 < 128 by decide)
    split_ifs with short
    · rw [nil_append, readVarInt_digit width 0 (n % 128) digit rest (by omega)]
      congr 1
      omega
    · rw [ih (n / 128 - 1) (by omega) (by omega),
        readVarInt_digit width (n / 128 - 1 + 1) (n % 128) digit rest (by omega)]
      congr 1
      omega

theorem readVarInt_write (width n : Nat) (bound : n < 2 ^ width) (rest : Bytes) :
    readVarInt width 0 (writeVarInt n ++ rest) = some (n, rest) := by
  rw [writeVarInt, append_assoc, singleton_append]
  have digit := Nat.mod_lt n (show 0 < 128 by decide)
  split_ifs with short
  · rw [nil_append, readVarInt_last width 0 (n % 128) digit rest (by omega)]
    simp only [Option.some.injEq, Prod.mk.injEq, and_true]
    omega
  · rw [readVarInt_digits width n (n / 128 - 1) (by omega) (by omega),
      readVarInt_last width (n / 128 - 1 + 1) (n % 128) digit rest (by omega)]
    simp only [Option.some.injEq, Prod.mk.injEq, and_true]
    omega

def varIntOf (width : Nat) : ByteFormat Nat where
  write := writeVarInt
  read := readVarInt width 0
  fits := fun n => n < 2 ^ width
  reads := readVarInt_write width

def varInt : ByteFormat Nat := varIntOf 32

def varUInt32 : ByteFormat UInt32 :=
  varInt.convert UInt32.toNat UInt32.ofNat fun _ => UInt32.ofNat_toNat

theorem varUInt32_fits (value : UInt32) : varUInt32.fits value := value.toNat_lt

def writeCompactSize (nSize : Nat) : Bytes :=
  if nSize < 253 then [UInt8.ofNat nSize]
  else if nSize ≤ 0xffff then 253 :: writeLE 2 nSize
  else if nSize ≤ 0xffffffff then 254 :: writeLE 4 nSize
  else 255 :: writeLE 8 nSize

/-- What `ReadCompactSize` reads behind its first byte: `size` bytes, at least `least` and at most
`MAX_SIZE`. -/
def readSize (size least : Nat) : Reader UInt8 Nat := do
  let nSizeRet ← (unsigned size).read
  if nSizeRet < least then failure
  else if maxSize < nSizeRet then failure
  else pure nSizeRet

def readCompactSize : Reader UInt8 Nat := do
  let chSize ← (unsigned 1).read
  if chSize < 253 then pure chSize
  else if chSize = 253 then readSize 2 253
  else if chSize = 254 then readSize 4 0x10000
  else readSize 8 0x100000000

theorem readSize_write (size least nSize : Nat) (fitting : nSize < 256 ^ size)
    (canonical : least ≤ nSize) (limit : nSize ≤ maxSize) (rest : Bytes) :
    (readSize size least).run (writeLE size nSize ++ rest) = some (nSize, rest) := by
  have read := (unsigned size).run_bind nSize fitting (fun nSizeRet =>
    if nSizeRet < least then failure
    else if maxSize < nSizeRet then failure
    else (pure nSizeRet : Reader UInt8 Nat)) rest
  rw [if_neg (by omega), if_neg (by omega)] at read
  exact read

theorem readCompactSize_first (chSize : Nat) (small : chSize < 256) (behind : Bytes) :
    readCompactSize.run (UInt8.ofNat chSize :: behind) =
      (if chSize < 253 then (pure chSize : Reader UInt8 Nat)
      else if chSize = 253 then readSize 2 253
      else if chSize = 254 then readSize 4 0x10000
      else readSize 8 0x100000000).run behind :=
  (unsigned 1).run_bind chSize small _ behind

theorem readCompactSize_write (nSize : Nat) (limit : nSize ≤ maxSize) (rest : Bytes) :
    readCompactSize.run (writeCompactSize nSize ++ rest) = some (nSize, rest) := by
  unfold writeCompactSize
  unfold maxSize at limit
  split_ifs with one two four
  · rw [singleton_append, readCompactSize_first nSize (by omega), if_pos one]
    rfl
  · rw [cons_append]
    rw [show (253 : UInt8) = UInt8.ofNat 253 from rfl, readCompactSize_first 253 (by decide)]
    exact readSize_write 2 253 nSize (by omega) (by omega) limit rest
  · rw [cons_append]
    rw [show (254 : UInt8) = UInt8.ofNat 254 from rfl, readCompactSize_first 254 (by decide)]
    exact readSize_write 4 0x10000 nSize (by omega) (by omega) limit rest
  · omega

def compactSize : ByteFormat Nat where
  write := writeCompactSize
  read := readCompactSize
  fits := fun nSize => nSize ≤ maxSize
  reads := readCompactSize_write

def denomination : ByteFormat CoinDenomination :=
  (signed 4).convert zerocoinDenominationToInt intToZerocoinDenomination
    intToZerocoinDenomination_toInt

theorem denomination_fits (denom : CoinDenomination) : denomination.fits denom := by
  cases denom <;> exact ⟨by decide, by decide⟩

def denominations : ByteFormat (List CoinDenomination) := Format.counted compactSize denomination

/-- `m.insert` of one item after the other, which keeps an earlier one. A
denomination that is not a key counts nothing. -/
def supplyOf (items : List (CoinDenomination × Int)) (denom : CoinDenomination) : Int :=
  ((items.find? fun item => item.1 == denom).map Prod.snd).getD 0

/-- The items of `mapZerocoinSupply`, in the order of their keys. -/
def itemsOf (mapZerocoinSupply : CoinDenomination → Int) : List (CoinDenomination × Int) :=
  zerocoinDenomList.map fun denom => (denom, mapZerocoinSupply denom)

def IsInt64 (value : Int) : Prop := (signed 8).fits value

structure IsSupply (mapZerocoinSupply : CoinDenomination → Int) : Prop where
  keys : mapZerocoinSupply .zqError = 0
  values : ∀ denom, IsInt64 (mapZerocoinSupply denom)

theorem supplyOf_itemsOf (mapZerocoinSupply : CoinDenomination → Int)
    (isSupply : IsSupply mapZerocoinSupply) :
    supplyOf (itemsOf mapZerocoinSupply) = mapZerocoinSupply := by
  funext denom
  cases denom with
  | zqError => exact isSupply.keys.symm
  | _ => rfl

def supply : ByteFormat (CoinDenomination → Int) where
  write := fun mapZerocoinSupply =>
    (Format.counted compactSize (Format.pair denomination (signed 8))).write
      (itemsOf mapZerocoinSupply)
  read := supplyOf <$> (Format.counted compactSize (Format.pair denomination (signed 8))).read
  fits := IsSupply
  reads := by
    intro mapZerocoinSupply isSupply rest
    have fitting : (Format.counted compactSize (Format.pair denomination (signed 8))).fits
        (itemsOf mapZerocoinSupply) := by
      constructor
      · show (itemsOf mapZerocoinSupply).length ≤ maxSize
        rw [itemsOf, List.length_map]
        decide
      · intro item member
        obtain ⟨denom, _, same⟩ := List.mem_map.mp member
        rw [← same]
        exact ⟨denomination_fits denom, isSupply.values denom⟩
    rw [StateT.run_map, Format.reads _ _ fitting rest]
    exact congrArg (fun result => some (result, rest)) (supplyOf_itemsOf _ isSupply)

end ZenonCore.Serialize
