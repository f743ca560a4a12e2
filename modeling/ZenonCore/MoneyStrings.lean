import Mathlib.Data.Rat.Cast.CharZero
import Mathlib.Tactic.FieldSimp
import ZenonCore.Base58
import ZenonCore.ForkSerials

/-!
# Amounts as text

`FormatMoney` writes an amount with two to eight decimals, and `ParseMoney`
reads one with up to ten whole digits and eight decimals.
-/

namespace ZenonCore.MoneyStrings

open Limbs Radix Base58 Primitives ChainParams List Option
open ForkSerials (BuiltIn)

def isdigit (c : UInt8) : Bool := 48 ≤ c && c ≤ 57

def point : UInt8 := 46

def digitChar (digit : Nat) : UInt8 := UInt8.ofNat (48 + digit)

def digitOf (c : UInt8) : Nat := c.toNat - 48

/-- An `int64_t` result; none where it overflows. -/
def int64 (n : Int) : Option Int := if -2 ^ 63 ≤ n ∧ n < 2 ^ 63 then some n else none

/-- `%d` of a number that is not negative. -/
def decimal (n : Nat) : List UInt8 := if n = 0 then [48] else (digitsIn 10 n).map digitChar

/-- `%08d` of a number of at most eight digits. -/
def padded (n : Nat) : List UInt8 := (limbsOf 10 8 n).reverse.map digitChar

/-- The loop over the end of the string, the last character first: a zero goes
while a digit stands two in front of it. -/
def trim : List UInt8 → List UInt8
  | last :: before :: third :: rest =>
    if last = 48 && isdigit third then trim (before :: third :: rest)
    else last :: before :: third :: rest
  | short => short

def formatMoney (n : CAmount) (fPlus : Bool) : List UInt8 :=
  let n_abs := (if 0 < n then n else -n).toNat
  let str := (trim (decimal (n_abs / 100000000) ++ point :: padded (n_abs % 100000000)).reverse).reverse
  if n < 0 then 45 :: str else if fPlus && decide (0 < n) then 43 :: str else str

/-- The digits behind the point: the units they make, and what follows. -/
def parseUnits : Int → List UInt8 → Int → Option (Int × List UInt8)
  | _, [], nUnits => some (nUnits, [])
  | nMult, c :: p, nUnits =>
    if isdigit c && decide (0 < nMult) then do
      let term ← int64 (nMult * digitOf c)
      parseUnits (nMult / 10) p (← int64 (nUnits + term))
    else some (nUnits, c :: p)

/-- The loop over the characters: the whole digits, the units and what follows,
or nothing where `false` is returned. -/
def parseWhole : List UInt8 → List UInt8 → Option (Option (List UInt8 × Int × List UInt8))
  | [], strWhole => some (some (strWhole, 0, []))
  | c :: p, strWhole =>
    if c = point then do
      let (nUnits, rest) ← parseUnits 10000000 p 0
      return some (strWhole, nUnits, rest)
    else if isspace c then some (some (strWhole, 0, c :: p))
    else if isdigit c then parseWhole p (strWhole ++ [c])
    else some none

/-- `atoi64` of digits: `strtoll`, which stops at the largest value. -/
def atoi64 (digits : List UInt8) : Int := min (value 10 (digits.map digitOf)) (2 ^ 63 - 1)

/-- `ParseMoney`; no result where a computation overflows, and no amount in it
where `false` is returned. -/
def parseMoney (pszIn : CString) : Option (Option CAmount) := do
  match ← parseWhole (pszIn.val.dropWhile isspace) [] with
  | none => return none
  | some (strWhole, nUnits, p) =>
    if !p.all isspace || decide (10 < strWhole.length) || decide (nUnits < 0) ||
        decide (coin < nUnits) then return none
    let scaled ← int64 (atoi64 strWhole * coin)
    let nValue ← int64 (scaled + nUnits)
    return some nValue

theorem digit_facts : ∀ digit, digit < 10 →
    isdigit (digitChar digit) = true ∧ isspace (digitChar digit) = false ∧
      digitOf (digitChar digit) = digit ∧ digitChar digit ≠ point ∧ digitChar digit ≠ 0 := by
  decide +kernel

theorem isdigit_digit (c : UInt8) (digit : isdigit c = true) :
    digitOf c < 10 ∧ digitChar (digitOf c) = c := by
  rw [isdigit, Bool.and_eq_true, decide_eq_true_eq, decide_eq_true_eq, UInt8.le_iff_toNat_le,
    UInt8.le_iff_toNat_le] at digit
  obtain ⟨lower, upper⟩ : 48 ≤ c.toNat ∧ c.toNat ≤ 57 := digit
  refine ⟨by unfold digitOf; omega, ?_⟩
  rw [digitChar, digitOf, Nat.add_sub_cancel' lower, UInt8.ofNat_toNat]

variable (digits : List Nat)

theorem digits_back (fits : AllFit 10 digits) :
    (digits.map digitChar).map digitOf = digits := by
  rw [List.map_map]
  exact (List.map_congr_left fun digit member => (digit_facts digit (fits digit member)).2.2.1).trans
    (List.map_id _)

theorem int64_cast (n : Nat) (fits : n < 2 ^ 63) : int64 n = some (n : Int) :=
  if_pos ⟨by omega, by omega⟩

/-- What the loop behind the point does with room for `k` more digits. -/
theorem parseUnits_spec (k : Nat) (few : k ≤ 8) (p : List UInt8) (nUnits : Nat)
    (room : nUnits + 10 ^ k ≤ 10 ^ 8) :
    ∃ digits rest, p = digits.map digitChar ++ rest ∧ AllFit 10 digits ∧ digits.length ≤ k ∧
      (∀ c ∈ rest.head?, isdigit c = true → digits.length = k) ∧
      nUnits + value 10 digits * 10 ^ (k - digits.length) < 10 ^ 8 ∧
      parseUnits (10 ^ k / 10 : Nat) p nUnits =
        some (((nUnits + value 10 digits * 10 ^ (k - digits.length) : Nat) : Int), rest) := by
  have smaller : 10 ^ k ≤ 10 ^ 8 := Nat.pow_le_pow_right (by norm_num) few
  have positive : 0 < 10 ^ k := Nat.pow_pos (by norm_num)
  induction p generalizing k nUnits with
  | nil =>
    refine ⟨[], [], rfl, by simp [AllFit], Nat.zero_le k, by simp, ?_,
      by simp [parseUnits, value]⟩
    rw [show value 10 [] = 0 from rfl, Nat.zero_mul]
    omega
  | cons c p ih =>
    by_cases more : isdigit c = true ∧ 0 < k
    · obtain ⟨small, same⟩ := isdigit_digit c more.1
      obtain ⟨k, rfl⟩ : ∃ fewer, k = fewer + 1 := ⟨k - 1, by omega⟩
      have below : 10 ^ k * digitOf c ≤ 10 ^ k * 9 := Nat.mul_le_mul_left _ (by omega)
      have tenth : 10 ^ (k + 1) / 10 = 10 ^ k := by
        rw [pow_succ]
        exact Nat.mul_div_cancel _ (by norm_num)
      have one : 0 < 10 ^ k := Nat.pow_pos (by norm_num)
      rw [pow_succ] at room smaller
      obtain ⟨digits, rest, split, fits, within, stop, bound, read⟩ :=
        ih k (by omega) (nUnits + 10 ^ k * digitOf c) (by omega) (by omega) one
      have total : nUnits + 10 ^ k * digitOf c + value 10 digits * 10 ^ (k - digits.length) =
          nUnits + value 10 (digitOf c :: digits) * 10 ^ (k - digits.length) := by
        rw [value_cons, Nat.add_mul, Nat.mul_right_comm, ← pow_add, Nat.add_sub_cancel' within,
          Nat.add_assoc]
      rw [total] at bound read
      refine ⟨digitOf c :: digits, rest, by simp [split, same],
        forall_mem_cons.mpr ⟨small, fits⟩, Nat.succ_le_succ within,
        fun first member digit => congrArg (· + 1) (stop first member digit), ?_, ?_⟩
      · rwa [length_cons, Nat.add_sub_add_right]
      · have product : int64 (((10 ^ (k + 1) / 10 : Nat) : Int) * digitOf c) =
            some ((10 ^ k * digitOf c : Nat) : Int) := by
          rw [tenth, ← Nat.cast_mul]
          exact int64_cast _ (by omega)
        have sum : int64 ((nUnits : Int) + ((10 ^ k * digitOf c : Nat) : Int)) =
            some ((nUnits + 10 ^ k * digitOf c : Nat) : Int) := by
          rw [← Nat.cast_add]
          exact int64_cast _ (by omega)
        have next : ((10 ^ (k + 1) / 10 : Nat) : Int) / 10 = ((10 ^ k / 10 : Nat) : Int) := by
          rw [tenth]
          rfl
        have goes : (isdigit c && decide (0 < ((10 ^ (k + 1) / 10 : Nat) : Int))) = true := by
          rw [tenth, more.1, Bool.true_and, decide_eq_true_eq]
          exact_mod_cast one
        rw [parseUnits, if_pos goes, product, bind_eq_bind, bind_some, sum,
          bind_some, next, read, length_cons, Nat.add_sub_add_right]
    · refine ⟨[], c :: p, rfl, by simp [AllFit], Nat.zero_le k, ?_, ?_, ?_⟩
      · rintro first ⟨⟩ digit
        exact (Nat.eq_zero_of_not_pos fun some => more ⟨digit, some⟩).symm
      · rw [show value 10 [] = 0 from rfl, Nat.zero_mul]
        omega
      · have stops : (isdigit c && decide (0 < ((10 ^ k / 10 : Nat) : Int))) = false := by
          by_contra goes
          simp only [Bool.not_eq_false, Bool.and_eq_true, decide_eq_true_eq] at goes
          refine more ⟨goes.1, Nat.pos_of_ne_zero ?_⟩
          rintro rfl
          simp at goes
        rw [parseUnits, stops]
        simp [value]

theorem parseWhole_digits (whole : List Nat) (fits : AllFit 10 whole) (rest strWhole : List UInt8) :
    parseWhole (whole.map digitChar ++ rest) strWhole =
      parseWhole rest (strWhole ++ whole.map digitChar) := by
  induction whole generalizing strWhole with
  | nil => simp
  | cons digit whole ih =>
    obtain ⟨small, others⟩ := forall_mem_cons.mp fits
    obtain ⟨isDigit, noSpace, -, noPoint, -⟩ := digit_facts digit small
    simp [parseWhole, noPoint, noSpace, isDigit, ih others]

theorem leading_digits (p : List UInt8) :
    ∃ whole rest, p = whole.map digitChar ++ rest ∧ AllFit 10 whole ∧
      ∀ c ∈ rest.head?, isdigit c = false := by
  induction p with
  | nil => exact ⟨[], [], rfl, by simp [AllFit], by simp⟩
  | cons c p ih =>
    cases digit : isdigit c with
    | false => exact ⟨[], c :: p, rfl, by simp [AllFit], by simp [digit]⟩
    | true =>
      obtain ⟨whole, rest, split, fits, stop⟩ := ih
      obtain ⟨small, same⟩ := isdigit_digit c digit
      exact ⟨digitOf c :: whole, rest, by simp [same, split],
        forall_mem_cons.mpr ⟨small, fits⟩, stop⟩

/-- The units of decimals. -/
def unitsOf (decimals : List Nat) : Nat := value 10 decimals * 10 ^ (8 - decimals.length)

/-- The text in front of which a number ends: nothing, or a point and decimals. -/
def Decimals (text : List UInt8) (decimals : List Nat) : Prop :=
  (text = [] ∧ decimals = []) ∨ text = point :: decimals.map digitChar

theorem parseWhole_spec (p : List UInt8) :
    parseWhole p [] = some none ∨ ∃ whole decimals text rest,
      p = whole.map digitChar ++ text ++ rest ∧ AllFit 10 whole ∧ AllFit 10 decimals ∧
        Decimals text decimals ∧ decimals.length ≤ 8 ∧ unitsOf decimals < 10 ^ 8 ∧
        (∀ c ∈ rest.head?, isdigit c = true → decimals.length = 8) ∧
        parseWhole p [] = some (some (whole.map digitChar, (unitsOf decimals : Int), rest)) := by
  obtain ⟨whole, behind, rfl, fits, stop⟩ := leading_digits p
  rw [parseWhole_digits whole fits, nil_append]
  cases behind with
  | nil => exact .inr ⟨whole, [], [], [], by simp, fits, by simp [AllFit], .inl ⟨rfl, rfl⟩,
      by simp, by simp [unitsOf, value], by simp, rfl⟩
  | cons c behind =>
    by_cases dot : c = point
    · obtain ⟨decimals, rest, split, small, within, last, bound, read⟩ :=
        parseUnits_spec 8 le_rfl behind 0 (by norm_num)
      simp only [Nat.zero_add] at bound read
      refine .inr ⟨whole, decimals, point :: decimals.map digitChar, rest, by simp [dot, split],
        fits, small, .inr rfl, within, bound, last, ?_⟩
      rw [parseWhole, if_pos dot, show (10000000 : Int) = ((10 ^ 8 / 10 : Nat) : Int) by norm_num,
        ← Nat.cast_zero, read]
      rfl
    · rw [parseWhole, if_neg dot, stop c rfl]
      split
      · exact .inr ⟨whole, [], [], c :: behind, by simp, fits, by simp [AllFit], .inl ⟨rfl, rfl⟩,
          by simp, by simp [unitsOf, value], by simp [stop c rfl], rfl⟩
      · exact .inl rfl

/-- With the digits read, nothing overflows. -/
theorem parseMoney_of_read (psz : CString) (whole : List Nat) (units : Nat) (p : List UInt8)
    (fits : AllFit 10 whole) (fewUnits : units < 10 ^ 8)
    (read : parseWhole (psz.val.dropWhile isspace) [] =
      some (some (whole.map digitChar, (units : Int), p))) :
    parseMoney psz = some (if p.all isspace = true ∧ whole.length ≤ 10 then
      some ((value 10 whole * 10 ^ 8 + units : Nat) : Int) else none) := by
  simp only [parseMoney, read, bind_eq_bind, bind_some]
  have inside : ¬ (units : Int) < 0 ∧ ¬ coin < (units : Int) := by
    have amount : coin = 100000000 := by unfold coin; rfl
    constructor
    · omega
    · rw [amount]
      exact Int.not_lt.mpr (by omega)
  by_cases good : p.all isspace = true ∧ whole.length ≤ 10
  · have below : value 10 whole < 10 ^ 10 := by
      refine lt_of_lt_of_le (ofDigits_fits 10 whole.reverse ?_) ?_
      · simpa [AllFit] using fits
      · exact Nat.pow_le_pow_right (by norm_num) (by simpa using good.2)
    have digits : atoi64 (whole.map digitChar) = (value 10 whole : Nat) := by
      rw [atoi64, digits_back whole fits]
      exact min_eq_left (by omega)
    have scaled : int64 (atoi64 (whole.map digitChar) * coin) =
        some ((value 10 whole * 10 ^ 8 : Nat) : Int) := by
      rw [digits, show coin = ((10 ^ 8 : Nat) : Int) by norm_num [coin], ← Nat.cast_mul]
      exact int64_cast _ (by omega)
    have sum : int64 (((value 10 whole * 10 ^ 8 : Nat) : Int) + units) =
        some ((value 10 whole * 10 ^ 8 + units : Nat) : Int) := by
      rw [← Nat.cast_add]
      exact int64_cast _ (by omega)
    have few : ¬ 10 < whole.length := Nat.not_lt.mpr good.2
    rw [if_neg (by simp [good.1, few, inside]), scaled, bind_some, sum, bind_some,
      if_pos good]
    rfl
  · rw [if_neg good, if_pos]
    · rfl
    simp only [Bool.or_eq_true, Bool.not_eq_true', decide_eq_true_eq, length_map]
    by_cases spaces : p.all isspace = true
    · exact .inl (.inl (.inr (Nat.lt_of_not_le fun few => good ⟨spaces, few⟩)))
    · exact .inl (.inl (.inl (by simpa using spaces)))

/-- The decimal number that digits and decimals spell. -/
def decimalValue (whole decimals : List Nat) : ℚ :=
  value 10 whole + value 10 decimals / 10 ^ decimals.length

theorem unitsOf_exact (whole decimals : List Nat) (few : decimals.length ≤ 8) :
    ((value 10 whole * 10 ^ 8 + unitsOf decimals : Nat) : ℚ) =
      decimalValue whole decimals * 10 ^ 8 := by
  have scale : (10 : ℚ) ^ (8 - decimals.length) * 10 ^ decimals.length = 10 ^ 8 := by
    rw [← pow_add, Nat.sub_add_cancel few]
  have units : (value 10 decimals : ℚ) / 10 ^ decimals.length * 10 ^ 8 =
      value 10 decimals * 10 ^ (8 - decimals.length) := by
    rw [← scale]
    field_simp
  rw [decimalValue, add_mul, units, unitsOf]
  push_cast
  ring

theorem parseMoney_exact (psz : CString) : ∃ read, parseMoney psz = some read ∧
    ∀ nValue ∈ read, ∃ before whole text decimals after,
      psz.val = before ++ whole.map digitChar ++ text ++ after ∧ AllFit 10 whole ∧
        AllFit 10 decimals ∧ Decimals text decimals ∧
        (∀ c ∈ before ++ after, isspace c = true) ∧
        (nValue : ℚ) = decimalValue whole decimals * 10 ^ 8 := by
  have lead := (takeWhile_append_dropWhile (p := isspace) (l := psz.val)).symm
  obtain refused | ⟨whole, decimals, text, rest, split, fits, small, spelled, few, bound, -, read⟩ :=
    parseWhole_spec (psz.val.dropWhile isspace)
  · exact ⟨none, by simp [parseMoney, refused], by simp⟩
  refine ⟨_, parseMoney_of_read psz whole _ rest fits bound read, ?_⟩
  intro nValue accepted
  split_ifs at accepted with good
  · obtain rfl := some.inj accepted
    refine ⟨psz.val.takeWhile isspace, whole, text, decimals, rest, ?_, fits, small, spelled, ?_, ?_⟩
    · rw [append_assoc, append_assoc, ← append_assoc _ text, ← split]
      exact lead
    · intro c member
      obtain leading | trailing := mem_append.mp member
      · exact mem_takeWhile_imp leading
      · exact all_eq_true.mp good.1 c trailing
    · rw [Int.cast_natCast]
      exact unitsOf_exact whole decimals few
  · cases accepted

theorem digit_of_member (fits : AllFit 10 digits) (c : UInt8)
    (member : c ∈ digits.map digitChar) : isdigit c = true ∧ isspace c = false ∧ c ≠ 0 := by
  obtain ⟨digit, among, rfl⟩ := mem_map.mp member
  obtain ⟨isDigit, noSpace, -, -, noNull⟩ := digit_facts digit (fits digit among)
  exact ⟨isDigit, noSpace, noNull⟩

theorem parseMoney_of_digits (whole decimals : List Nat) (fits : AllFit 10 whole)
    (small : AllFit 10 decimals) (short : whole.length ≤ 10) (few : decimals.length ≤ 8) :
    parseMoney (cStr (whole.map digitChar ++ point :: decimals.map digitChar)) =
      some (some ((value 10 whole * 10 ^ 8 + unitsOf decimals : Nat) : Int)) := by
  have plain : ∀ c ∈ whole.map digitChar ++ point :: decimals.map digitChar,
      isspace c = false ∧ c ≠ 0 := by
    intro c member
    obtain front | rfl | back := by simpa only [mem_append, mem_cons] using member
    · exact (digit_of_member whole fits c front).2
    · decide
    · exact (digit_of_member decimals small c back).2
  have kept : (cStr (whole.map digitChar ++ point :: decimals.map digitChar)).val.dropWhile isspace =
      whole.map digitChar ++ point :: decimals.map digitChar := by
    rw [show (cStr _).val = _ from
      takeWhile_eq_self_iff.mpr fun c member => by simpa using (plain c member).2,
      dropWhile_eq_self_iff]
    exact fun nonempty => by simpa using (plain _ (getElem_mem nonempty)).1
  obtain ⟨read, rest, split, readFits, -, last, bound, parsed⟩ :=
    parseUnits_spec 8 le_rfl (decimals.map digitChar) 0 (by norm_num)
  have finished : rest = [] := by
    cases rest with
    | nil => rfl
    | cons c rest =>
      have digit := (digit_of_member decimals small c (by simp [split])).1
      have full := last c rfl digit
      have lengths := congrArg length split
      simp only [length_map, length_append, length_cons] at lengths
      omega
  rw [finished, append_nil] at split
  have same : read = decimals := by
    rw [← digits_back read readFits, ← split, digits_back decimals small]
  rw [finished, same, Nat.zero_add] at parsed
  rw [same, Nat.zero_add] at bound
  rw [parseMoney_of_read _ whole (unitsOf decimals) [] fits bound, if_pos ⟨rfl, short⟩]
  rw [kept, parseWhole_digits whole fits, parseWhole, if_pos rfl,
    show (10000000 : Int) = ((10 ^ 8 / 10 : Nat) : Int) by norm_num, ← Nat.cast_zero, parsed]
  rfl

theorem trim_spec (fits : AllFit 10 digits) (two : 2 ≤ digits.length)
    (rest : List UInt8) :
    ∃ count kept, digits = replicate count 0 ++ kept ∧
      trim (digits.map digitChar ++ point :: rest) = kept.map digitChar ++ point :: rest := by
  induction digits with
  | nil => simp at two
  | cons last digits ih =>
    obtain ⟨small, others⟩ := forall_mem_cons.mp fits
    rcases digits with _ | ⟨before, _ | ⟨third, digits⟩⟩
    · simp at two
    · exact ⟨0, [last, before], rfl, by simp [trim, show isdigit point = false by decide]⟩
    · by_cases zero : last = 0
      · obtain ⟨count, kept, split, trimmed⟩ := ih others (by simp)
        have digit := (digit_facts third (others third (by simp))).1
        refine ⟨count + 1, kept, by rw [zero, split, replicate_succ]; rfl, ?_⟩
        rw [← trimmed, zero]
        simp [trim, digit, show digitChar 0 = 48 by decide]
      · have other : digitChar last ≠ 48 := fun same => zero (by
          rw [← (digit_facts last small).2.2.1, same]
          rfl)
        exact ⟨0, last :: before :: third :: digits, rfl, by simp [trim, other]⟩

/-- What `FormatMoney` writes. -/
theorem formatMoney_spec (n : Nat) :
    ∃ whole decimals, formatMoney n false = whole.map digitChar ++ point :: decimals.map digitChar ∧
      AllFit 10 whole ∧ AllFit 10 decimals ∧ decimals.length ≤ 8 ∧
      (n / 100000000 < 10 ^ 10 → whole.length ≤ 10) ∧ value 10 whole = n / 100000000 ∧
      unitsOf decimals = n % 100000000 := by
  have absolute : (if (0 : Int) < n then (n : Int) else -n).toNat = n := by split <;> omega
  obtain ⟨count, kept, split, trimmed⟩ := trim_spec (limbsOf 10 8 (n % 100000000))
    (limbsOf_limbs 10 (by norm_num) 8 _) (by simp) (decimal (n / 100000000)).reverse
  have size : count + kept.length = 8 := by
    simpa using (congrArg length split).symm
  have units := limbsOf_value 10 8 (n % 100000000)
  rw [split, show (10 : Nat) ^ 8 = 100000000 by norm_num, Nat.mod_mod, Nat.ofDigits_append, length_replicate,
    show Nat.ofDigits 10 (replicate count 0) = 0 by
      rw [← reverse_replicate]
      exact value_zeros 10 count, Nat.zero_add] at units
  have fits : AllFit 10 kept := fun digit member =>
    limbsOf_limbs 10 (by norm_num) 8 (n % 100000000) digit (by rw [split]; simp [member])
  have text : formatMoney n false =
      decimal (n / 100000000) ++ point :: kept.reverse.map digitChar := by
    rw [formatMoney, absolute, padded, reverse_append, reverse_cons, append_assoc,
      singleton_append, map_reverse, reverse_reverse, trimmed,
      if_neg (Int.not_lt.mpr (Int.natCast_nonneg n))]
    simp
  have decimals : unitsOf kept.reverse = n % 100000000 := by
    rw [unitsOf, value, reverse_reverse, length_reverse, ← size, Nat.add_sub_cancel,
      Nat.mul_comm, units]
  by_cases zero : n / 100000000 = 0
  · refine ⟨[0], kept.reverse, ?_, by simp [AllFit], by simpa [AllFit] using fits, ?_, by simp,
      by rw [zero]; rfl, decimals⟩
    · rw [text, decimal, if_pos zero]
      rfl
    · rw [length_reverse]
      omega
  · refine ⟨digitsIn 10 (n / 100000000), kept.reverse, ?_, digitsIn_fits 10 _ (by norm_num),
      by simpa [AllFit] using fits, ?_, ?_, value_digitsIn 10 _, decimals⟩
    · rw [text, decimal, if_neg zero]
    · rw [length_reverse]
      omega
    · intro below
      rw [digitsIn, length_reverse]
      exact (Nat.digits_length_le_iff (by norm_num) _).mpr below

theorem money_strings (params : CChainParams) (builtIn : BuiltIn params) :
    (∀ n : CAmount, 0 ≤ n → n ≤ params.nMaxMoneyOut →
      parseMoney (cStr (formatMoney n false)) = some (some n)) ∧
    ∀ psz : CString, ∃ read, parseMoney psz = some read ∧
      ∀ nValue ∈ read, ∃ before whole text decimals after,
        psz.val = before ++ whole.map digitChar ++ text ++ after ∧ AllFit 10 whole ∧
          AllFit 10 decimals ∧ Decimals text decimals ∧
          (∀ c ∈ before ++ after, isspace c = true) ∧
          (nValue : ℚ) = decimalValue whole decimals * 10 ^ 8 := by
  refine ⟨fun n nonneg most => ?_, parseMoney_exact⟩
  obtain ⟨amount, rfl⟩ := Int.eq_ofNat_of_zero_le nonneg
  have supply : params.nMaxMoneyOut ≤ (39836047000000000 : Int) := by
    obtain main | ⟨hash, testnet | regtest⟩ := builtIn
    · rw [main]
      decide
    · rw [testnet]
      show (43199500 * coin : Int) ≤ 39836047000000000
      decide
    · rw [regtest]
      show (43199500 * coin : Int) ≤ 39836047000000000
      decide
  obtain ⟨whole, decimals, text, fits, small, few, short, wholeValue, units⟩ :=
    formatMoney_spec amount
  have below : amount / 100000000 < 10 ^ 10 := by
    have bound : (amount : Int) ≤ 39836047000000000 := le_trans most supply
    omega
  rw [text, parseMoney_of_digits whole decimals fits small (short below) few, wholeValue, units,
    show (10 : Nat) ^ 8 = 100000000 by norm_num, Nat.mul_comm, Nat.div_add_mod]

theorem supply_round_trip :
    parseMoney (cStr (formatMoney (398360470 * coin) false)) = some (some (398360470 * coin)) :=
  (money_strings mainParams (.inl rfl)).1 (398360470 * coin) (by decide) (by decide)

end ZenonCore.MoneyStrings
