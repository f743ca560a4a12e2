import Mathlib.Data.List.TakeWhile
import ZenonCore.Library.Radix

/-!
# Base58

Each direction converts in place, in a buffer sized from the length of its input; an assertion
fails where a carry does not fit.
-/

namespace ZenonCore.Base58

open Limbs Radix List

/-- The characters in front of the null that ends a string. -/
abbrev CString := { psz : List UInt8 // 0 ∉ psz }

def cStr (str : List UInt8) : CString :=
  ⟨str.takeWhile (· ≠ 0), fun member => by simpa using List.mem_takeWhile_imp member⟩

/-- All alphanumeric characters except for "0", "I", "O", and "l". -/
def pszBase58 : List UInt8 :=
  "123456789ABCDEFGHJKLMNPQRSTUVWXYZabcdefghijkmnopqrstuvwxyz".toList.map fun c =>
    UInt8.ofNat c.toNat

def symbol (digit : Nat) : UInt8 := pszBase58.getD digit 0

def isspace (c : UInt8) : Bool := (9 ≤ c && c ≤ 13) || c == 32

/-- The loop up to the first space: no result where the assertion fails, no pair at an unknown
character. -/
def decodeCharacters : List UInt8 → List Nat → Option (Option (List UInt8 × List Nat))
  | [], b256 => some (some ([], b256))
  | c :: psz, b256 =>
    if isspace c then some (some (c :: psz, b256))
    else match pszBase58.idxOf? c with
      | none => some none
      | some ch =>
        let (carry, b256) := multiplyAdd 256 58 ch b256
        if carry = 0 then decodeCharacters psz b256 else none

/-- `DecodeBase58`; no result where the assertion fails, and no bytes in it
where `false` is returned. -/
def decodeBase58 (psz : CString) : Option (Option (List UInt8)) :=
  let psz := psz.val.dropWhile isspace
  let zeroes := (psz.takeWhile (· == symbol 0)).length
  let psz := psz.dropWhile (· == symbol 0)
  (decodeCharacters psz (List.replicate (psz.length * 733 / 1000 + 1) 0)).map fun read =>
    read.bind fun (psz, b256) =>
      if (psz.dropWhile isspace).isEmpty then
        some (List.replicate zeroes 0 ++ (b256.dropWhile (· == 0)).map UInt8.ofNat)
      else none

/-- `EncodeBase58`; no result where the assertion fails. -/
def encodeBase58 (vch : List UInt8) : Option (List UInt8) :=
  let zeroes := (vch.takeWhile (· == 0)).length
  let bytes := vch.dropWhile (· == 0)
  let b58 := List.replicate (bytes.length * 138 / 100 + 1) 0
  (convert 58 256 (bytes.map UInt8.toNat) b58).map fun b58 =>
    List.replicate zeroes (symbol 0) ++ (b58.dropWhile (· == 0)).map symbol

theorem symbol_facts : ∀ digit, digit < 58 →
    pszBase58.idxOf? (symbol digit) = some digit ∧ isspace (symbol digit) = false ∧
      symbol digit ≠ 0 ∧ (symbol digit = symbol 0 → digit = 0) := by
  decide +kernel

theorem symbol_of_idxOf (c : UInt8) (digit : Nat) (found : pszBase58.idxOf? c = some digit) :
    digit < 58 ∧ symbol digit = c := by
  obtain ⟨inside, same, -⟩ := findIdx?_eq_some_iff_getElem.mp found
  refine ⟨lt_of_lt_of_eq inside (by decide +kernel), ?_⟩
  simpa [symbol, getD, inside] using same

theorem room_for_characters (n : Nat) : 58 ^ n ≤ 256 ^ (n * 733 / 1000 + 1) :=
  width_suffices 256 58 n 1000 733 _ (by norm_num) (by decide +kernel) (by omega) (by norm_num)

theorem room_for_bytes (n : Nat) : 256 ^ n ≤ 58 ^ (n * 138 / 100 + 1) :=
  width_suffices 58 256 n 100 138 _ (by norm_num) (by decide +kernel) (by omega) (by norm_num)

theorem zeros_fit (base count : Nat) (positive : 0 < base) :
    AllFit base (replicate count 0) := by
  intro limb member
  rwa [eq_of_mem_replicate member]

/-- What the loop over the characters leaves: with room in the buffer it never
stops at the assertion. -/
inductive Read (psz : List UInt8) (b256 : List Nat) : Option (Option (List UInt8 × List Nat)) → Prop
  | refused (c : UInt8) (member : c ∈ psz) (unknown : pszBase58.idxOf? c = none) :
      Read psz b256 (some none)
  | done (digits : List Nat) (rest : List UInt8) (after : List Nat)
      (split : psz = digits.map symbol ++ rest) (stop : ∀ c ∈ rest.head?, isspace c = true)
      (small : AllFit 58 digits) (fits : AllFit 256 after)
      (exact : value 256 after = value 256 b256 * 58 ^ digits.length + value 58 digits) :
      Read psz b256 (some (some (rest, after)))

theorem decodeCharacters_spec (psz : List UInt8) (b256 : List Nat) (fits : AllFit 256 b256)
    (room : (value 256 b256 + 1) * 58 ^ psz.length ≤ 256 ^ b256.length) :
    Read psz b256 (decodeCharacters psz b256) := by
  induction psz generalizing b256 with
  | nil => exact .done [] [] b256 rfl (by simp) (by simp [AllFit]) fits (by simp [value])
  | cons c psz ih =>
    rw [decodeCharacters]
    by_cases space : isspace c = true
    · rw [if_pos space]
      exact .done [] (c :: psz) b256 rfl (by simpa) (by simp [AllFit]) fits (by simp [value])
    rw [if_neg space]
    cases found : pszBase58.idxOf? c with
    | none => exact .refused c mem_cons_self found
    | some ch =>
      obtain ⟨small, same⟩ := symbol_of_idxOf c ch found
      obtain ⟨next, step, nextFits, -, total, nextRoom⟩ :=
        multiplyAdd_exact 256 58 (by norm_num) ch psz.length b256 small room
      simp only [step, if_true]
      have read := ih next nextFits nextRoom
      generalize decodeCharacters psz next = result at read ⊢
      cases read with
      | refused c member unknown => exact .refused c (mem_cons_of_mem _ member) unknown
      | done digits rest after split stop digitsSmall afterFits exact =>
        refine .done (ch :: digits) rest after (by simp [split, same]) stop ?_ afterFits ?_
        · exact forall_mem_cons.mpr ⟨small, digitsSmall⟩
        · rw [exact, total, value_cons, length_cons, pow_succ]
          ring

theorem decoding_spec (psz : List UInt8) :
    Read psz [] (decodeCharacters psz (replicate (psz.length * 733 / 1000 + 1) 0)) := by
  have read := decodeCharacters_spec psz (replicate (psz.length * 733 / 1000 + 1) 0)
    (zeros_fit _ _ (by norm_num)) (by simpa [value_zeros] using room_for_characters psz.length)
  generalize decodeCharacters psz _ = result at read ⊢
  cases read with
  | refused c member unknown => exact .refused c member unknown
  | done digits rest after split stop small fits exact =>
    exact .done digits rest after split stop small fits (by simpa [value_zeros, value] using exact)

/-- The digits of another base, the highest first, without leading zeros. -/
def digitsIn (base n : Nat) : List Nat := (Nat.digits base n).reverse

theorem digitsIn_value (base : Nat) (large : 1 < base) (digits : List Nat)
    (fits : AllFit base digits) (canonical : ∀ digit ∈ digits.head?, digit ≠ 0) :
    digitsIn base (value base digits) = digits := by
  rw [digitsIn, ← dropWhile_zeros base large digits fits]
  cases digits with
  | nil => rfl
  | cons digit rest => exact dropWhile_cons_of_neg (by simpa using canonical)

theorem digitsIn_fits (base n : Nat) (large : 1 < base) : AllFit base (digitsIn base n) := by
  intro digit member
  exact Nat.digits_lt_base large (mem_reverse.mp member)

theorem digitsIn_head (base n : Nat) : ∀ digit ∈ (digitsIn base n).head?, digit ≠ 0 := by
  intro digit first
  rw [digitsIn, head?_reverse] at first
  obtain ⟨nonempty, rfl⟩ := mem_getLast?_eq_getLast first
  exact Nat.getLast_digit_ne_zero base (Nat.digits_ne_nil_iff_ne_zero.mp nonempty)

@[simp] theorem value_digitsIn (base n : Nat) : value base (digitsIn base n) = n := by
  rw [value, digitsIn, reverse_reverse, Nat.ofDigits_digits]

variable (bytes : List UInt8)

theorem bytes_fit : AllFit 256 (bytes.map UInt8.toNat) := by
  intro limb member
  obtain ⟨byte, -, rfl⟩ := mem_map.mp member
  exact byte.toNat_lt

theorem bytes_back : (bytes.map UInt8.toNat).map UInt8.ofNat = bytes := by
  simp [Function.comp_def]

/-- Encoding never stops at the assertion. -/
theorem encodeBase58_eq (vch : List UInt8) :
    encodeBase58 vch = some (replicate (vch.takeWhile (· == 0)).length (symbol 0) ++
      (digitsIn 58 (value 256 ((vch.dropWhile (· == 0)).map UInt8.toNat))).map symbol) := by
  have room := room_for_bytes (vch.dropWhile (· == 0)).length
  obtain ⟨b58, converted, fits, exact⟩ := convert_exact 58 256 (by norm_num)
    ((vch.dropWhile (· == 0)).map UInt8.toNat)
    (replicate ((vch.dropWhile (· == 0)).length * 138 / 100 + 1) 0) (bytes_fit _)
    (zeros_fit _ _ (by norm_num)) (by simpa [value_zeros] using room)
  rw [value_zeros, Nat.zero_mul, Nat.zero_add] at exact
  simp only [encodeBase58, converted, Option.map_some, digitsIn, ← exact]
  rw [dropWhile_zeros 58 (by norm_num) b58 fits]

theorem dropWhile_replicate {α : Type} [BEq α] [LawfulBEq α] (c : α) (count : Nat) (rest : List α)
    (other : ∀ first ∈ rest.head?, first ≠ c) :
    (replicate count c ++ rest).takeWhile (· == c) = replicate count c ∧
      (replicate count c ++ rest).dropWhile (· == c) = rest := by
  induction count with
  | zero => cases rest <;> simp_all
  | succ count ih => simp [replicate_succ, ih]

theorem takeWhile_same {α : Type} [BEq α] [LawfulBEq α] (c : α) (list : List α) :
    list = replicate (list.takeWhile (· == c)).length c ++ list.dropWhile (· == c) := by
  induction list with
  | nil => rfl
  | cons first rest ih =>
    by_cases same : first = c
    · simpa [same, replicate_succ] using ih
    · simp [same]

theorem head_dropWhile {α : Type} (p : α → Bool) (list : List α) :
    ∀ first ∈ (list.dropWhile p).head?, p first = false := by
  intro first member
  cases stop : list.dropWhile p with
  | nil => simp [stop] at member
  | cons other rest =>
    obtain rfl : other = first := by simpa [stop] using member
    simpa [stop] using head_dropWhile_not p (l := list) (by simp [stop])

/-- The bytes of a number, the highest first. -/
def bytesOf (n : Nat) : List UInt8 := (digitsIn 256 n).map UInt8.ofNat

theorem bytesOf_value (canonical : ∀ byte ∈ bytes.head?, byte ≠ 0) :
    bytesOf (value 256 (bytes.map UInt8.toNat)) = bytes := by
  rw [bytesOf, digitsIn_value 256 (by norm_num) _ (bytes_fit bytes), bytes_back]
  intro digit first
  obtain ⟨byte, member, rfl⟩ : ∃ byte, byte ∈ bytes.head? ∧ byte.toNat = digit := by
    simpa using first
  exact fun zero => canonical byte member (UInt8.toNat_inj.mp zero)

theorem toNat_bytesOf (n : Nat) : (bytesOf n).map UInt8.toNat = digitsIn 256 n := by
  rw [bytesOf, map_map]
  refine (map_congr_left fun digit member => ?_).trans (map_id _)
  have small := digitsIn_fits 256 n (by norm_num) digit member
  simpa using Nat.mod_eq_of_lt small

theorem bytesOf_head (n : Nat) : ∀ byte ∈ (bytesOf n).head?, byte ≠ 0 := by
  intro byte first zero
  have head : byte.toNat ∈ (digitsIn 256 n).head? := by
    rw [← toNat_bytesOf, head?_map]
    exact Option.mem_map_of_mem _ first
  exact digitsIn_head 256 n _ head (by rw [zero]; rfl)

theorem decodeBase58_spec (psz : CString) (zeroes : Nat) (tail : List UInt8)
    (shape : psz.val.dropWhile isspace = replicate zeroes (symbol 0) ++ tail)
    (other : ∀ c ∈ tail.head?, c ≠ symbol 0) :
    (decodeBase58 psz = some none ∧ ∃ c ∈ tail, isspace c = true ∨ pszBase58.idxOf? c = none) ∨
    ∃ digits rest, tail = map symbol digits ++ rest ∧ AllFit 58 digits ∧
      rest.dropWhile isspace = [] ∧
      decodeBase58 psz = some (some (replicate zeroes 0 ++ bytesOf (value 58 digits))) := by
  obtain ⟨front, back⟩ := dropWhile_replicate (symbol 0) zeroes tail other
  have read := decoding_spec tail
  simp only [decodeBase58, shape, front, back, length_replicate]
  generalize decodeCharacters tail _ = result at read ⊢
  cases read with
  | refused c member unknown => exact .inl ⟨rfl, c, member, .inr unknown⟩
  | done digits rest after split stop small fits exact =>
    by_cases finished : rest.dropWhile isspace = []
    · refine .inr ⟨digits, rest, split, small, finished, ?_⟩
      have bytes := dropWhile_zeros 256 (by norm_num) after fits
      rw [show value 256 [] = 0 from rfl, Nat.zero_mul, Nat.zero_add] at exact
      simp only [Option.map_some, Option.bind_some, finished, isEmpty_nil, if_true, bytes,
        exact, bytesOf, digitsIn]
    · refine .inl ⟨?_, ?_⟩
      · rw [Option.map_some, Option.bind_some, if_neg (by rwa [List.isEmpty_iff])]
      cases rest with
      | nil => exact absurd rfl finished
      | cons c rest => exact ⟨c, by simp [split], .inl (stop c rfl)⟩

theorem symbols_injective (digits other : List Nat) (fits : AllFit 58 digits)
    (otherFits : AllFit 58 other) (same : digits.map symbol = other.map symbol) :
    digits = other := by
  have back (list : List Nat) (small : AllFit 58 list) :
      (list.map symbol).map pszBase58.idxOf? = list.map some := by
    rw [map_map]
    exact map_congr_left fun digit member => (symbol_facts digit (small digit member)).1
  have options : digits.map some = other.map some := by
    rw [← back digits fits, same, back other otherFits]
  exact map_injective_iff.mpr (Option.some_injective _) options

theorem decode_of_encoding (vch : List UInt8) :
    ∃ str, encodeBase58 vch = some str ∧ decodeBase58 (cStr str) = some (some vch) := by
  have split := takeWhile_same 0 vch
  have canonical : ∀ byte ∈ (vch.dropWhile (· == 0)).head?, byte ≠ 0 := fun byte first =>
    by simpa using head_dropWhile (· == 0) vch byte first
  refine ⟨_, encodeBase58_eq vch, ?_⟩
  generalize (vch.takeWhile (· == 0)).length = zeroes at split ⊢
  generalize vch.dropWhile (· == 0) = bytes at split canonical ⊢
  have small := digitsIn_fits 58 (value 256 (bytes.map UInt8.toNat)) (by norm_num)
  have nonzero := digitsIn_head 58 (value 256 (bytes.map UInt8.toNat))
  have whole := value_digitsIn 58 (value 256 (bytes.map UInt8.toNat))
  generalize digitsIn 58 (value 256 (bytes.map UInt8.toNat)) = digits at small nonzero whole ⊢
  have known (c : UInt8) (member : c ∈ replicate zeroes (symbol 0) ++ digits.map symbol) :
      ∃ digit < 58, symbol digit = c := by
    obtain leading | written := mem_append.mp member
    · exact ⟨0, by norm_num, (eq_of_mem_replicate leading).symm⟩
    · obtain ⟨digit, among, rfl⟩ := mem_map.mp written
      exact ⟨digit, small digit among, rfl⟩
  have kept : (cStr (replicate zeroes (symbol 0) ++ digits.map symbol)).val =
      replicate zeroes (symbol 0) ++ digits.map symbol := by
    refine takeWhile_eq_self_iff.mpr fun c member => ?_
    obtain ⟨digit, below, rfl⟩ := known c member
    simpa using (symbol_facts digit below).2.2.1
  have noSpace : (cStr (replicate zeroes (symbol 0) ++ digits.map symbol)).val.dropWhile
      isspace = replicate zeroes (symbol 0) ++ digits.map symbol := by
    rw [kept, dropWhile_eq_self_iff]
    intro nonempty
    obtain ⟨digit, below, same⟩ := known _ (getElem_mem nonempty)
    rw [← same, (symbol_facts digit below).2.1]
    exact Bool.false_ne_true
  obtain ⟨-, c, member, wrong⟩ | ⟨read, rest, shape, readFits, ending, result⟩ :=
    decodeBase58_spec _ zeroes (digits.map symbol) noSpace (by
      intro c first same
      obtain ⟨digit, head, rfl⟩ : ∃ digit, digit ∈ digits.head? ∧ symbol digit = c := by
        simpa using first
      have among : digit ∈ digits := mem_of_mem_head? head
      exact nonzero digit head ((symbol_facts digit (small digit among)).2.2.2 same))
  · obtain ⟨digit, below, rfl⟩ := known c (mem_append_right _ member)
    rw [(symbol_facts digit below).1, (symbol_facts digit below).2.1] at wrong
    simp at wrong
  · obtain rfl : rest = [] := by
      cases rest with
      | nil => rfl
      | cons c rest =>
        obtain ⟨digit, below, rfl⟩ :=
          known c (mem_append_right _ (by rw [shape]; simp))
        rw [dropWhile_cons_of_neg (by simp [(symbol_facts digit below).2.1])] at ending
        cases ending
    rw [append_nil] at shape
    rw [result, symbols_injective read digits readFits small shape.symm, whole,
      bytesOf_value bytes canonical, ← split]

theorem encoding_of_decoded (psz : CString) : ∃ read, decodeBase58 psz = some read ∧
    ∀ vch ∈ read, ∃ before str after, encodeBase58 vch = some str ∧
      psz.val = before ++ str ++ after ∧ ∀ c ∈ before ++ after, isspace c = true := by
  have lead := (takeWhile_append_dropWhile (p := isspace) (l := psz.val)).symm
  have ones := takeWhile_same (symbol 0) (psz.val.dropWhile isspace)
  have other : ∀ c ∈ ((psz.val.dropWhile isspace).dropWhile (· == symbol 0)).head?,
      c ≠ symbol 0 := fun c first => by simpa using head_dropWhile _ _ c first
  obtain ⟨refused, -⟩ | ⟨digits, rest, shape, fits, ending, result⟩ :=
    decodeBase58_spec psz _ _ ones other
  · exact ⟨none, refused, by simp⟩
  refine ⟨_, result, ?_⟩
  rintro vch ⟨rfl⟩
  generalize ((psz.val.dropWhile isspace).takeWhile (· == symbol 0)).length = zeroes at ones ⊢
  refine ⟨psz.val.takeWhile isspace, _, rest, encodeBase58_eq _, ?_, ?_⟩
  · obtain ⟨front, back⟩ := dropWhile_replicate (0 : UInt8) zeroes (bytesOf (value 58 digits))
      (bytesOf_head _)
    have canonical : ∀ digit ∈ digits.head?, digit ≠ 0 := by
      rintro digit head rfl
      refine other (symbol 0) ?_ rfl
      rw [shape, head?_append, head?_map, head]
      rfl
    rw [front, back, length_replicate, toNat_bytesOf, value_digitsIn,
      digitsIn_value 58 (by norm_num) digits fits canonical, append_assoc,
      append_assoc, ← shape, ← ones]
    exact lead
  · intro c member
    obtain leading | trailing := mem_append.mp member
    · exact mem_takeWhile_imp leading
    · exact dropWhile_eq_nil_iff.mp ending c trailing

theorem base58_round_trip :
    (∀ vch, ∃ str, encodeBase58 vch = some str ∧ decodeBase58 (cStr str) = some (some vch)) ∧
      ∀ psz, ∃ read, decodeBase58 psz = some read ∧ ∀ vch ∈ read, ∃ before str after,
        encodeBase58 vch = some str ∧ psz.val = before ++ str ++ after ∧
          ∀ c ∈ before ++ after, isspace c = true :=
  ⟨decode_of_encoding, encoding_of_decoded⟩

example : encodeBase58 [0x51, 0x6b, 0x6f, 0xcd, 0x0f] =
    some ("ABnLTmg".toList.map fun c => UInt8.ofNat c.toNat) := by
  decide +kernel

end ZenonCore.Base58
