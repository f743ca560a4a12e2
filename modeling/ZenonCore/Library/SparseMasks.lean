import Mathlib.Data.List.Basic
import Mathlib.Tactic.SplitIfs

/-!
# Sparse bit masks

A mask is written up to its last nonzero byte, and read until as many nonzero bytes have been
seen.
-/

namespace ZenonCore.SparseMasks

open List

def pack (bits : List Bool) : UInt8 :=
  bits.zipIdx.foldl (fun byte bit => if bit.1 then byte ||| 1 <<< UInt8.ofNat bit.2 else byte) 0

def unpack (byte : UInt8) : List Bool :=
  (List.range 8).map fun position => byte &&& 1 <<< UInt8.ofNat position != 0

variable (bits : List Bool)

theorem eight_bits (length : bits.length = 8) :
    ∃ b0 b1 b2 b3 b4 b5 b6 b7, bits = [b0, b1, b2, b3, b4, b5, b6, b7] := by
  match bits, length with
  | [b0, b1, b2, b3, b4, b5, b6, b7], _ => exact ⟨b0, b1, b2, b3, b4, b5, b6, b7, rfl⟩

theorem unpack_pack (length : bits.length = 8) : unpack (pack bits) = bits := by
  have all : ∀ b0 b1 b2 b3 b4 b5 b6 b7 : Bool,
      unpack (pack [b0, b1, b2, b3, b4, b5, b6, b7]) = [b0, b1, b2, b3, b4, b5, b6, b7] := by
    decide +kernel
  obtain ⟨b0, b1, b2, b3, b4, b5, b6, b7, rfl⟩ := eight_bits bits length
  exact all b0 b1 b2 b3 b4 b5 b6 b7

theorem pack_eq_zero (length : bits.length = 8) :
    pack bits = 0 ↔ bits.any id = false := by
  have all : ∀ b0 b1 b2 b3 b4 b5 b6 b7 : Bool,
      pack [b0, b1, b2, b3, b4, b5, b6, b7] = 0 ↔
        [b0, b1, b2, b3, b4, b5, b6, b7].any id = false := by
    decide +kernel
  obtain ⟨b0, b1, b2, b3, b4, b5, b6, b7, rfl⟩ := eight_bits bits length
  exact all b0 b1 b2 b3 b4 b5 b6 b7

/-- The loop that reads bytes until `code` of them were not zero. -/
def readMask : List UInt8 → Nat → Option (List Bool × List UInt8)
  | rest, 0 => some ([], rest)
  | [], _ + 1 => none
  | byte :: rest, code + 1 =>
    (readMask rest (if byte ≠ 0 then code else code + 1)).map fun read =>
      (unpack byte ++ read.1, read.2)

def nonzero (groups : List (List Bool)) : Nat := groups.countP fun bits => bits.any id

theorem readMask_groups (groups : List (List Bool)) (rest : List UInt8)
    (lengths : ∀ bits ∈ groups, bits.length = 8)
    (last : ∀ bits ∈ groups.getLast?, bits.any id = true) :
    readMask (groups.map pack ++ rest) (nonzero groups) = some (groups.flatten, rest) := by
  induction groups with
  | nil =>
    rw [nonzero, countP_nil, map_nil, nil_append, flatten_nil]
    cases rest <;> rfl
  | cons bits groups ih =>
    have length := lengths bits mem_cons_self
    have read := ih (fun other member => lengths other (mem_cons_of_mem _ member)) (by
      intro other member
      apply last
      rw [getLast?_cons, Option.mem_def.mp member]
      rfl)
    rw [map_cons, cons_append, flatten_cons]
    by_cases set : bits.any id = true
    · have count : nonzero (bits :: groups) = nonzero groups + 1 :=
        countP_cons_of_pos (p := fun bits : List Bool => bits.any id) set
      have byte : pack bits ≠ 0 := by
        intro zero
        rw [(pack_eq_zero bits length).mp zero] at set
        cases set
      rw [count, readMask, if_pos byte, read, unpack_pack bits length]
      rfl
    · have count : nonzero (bits :: groups) = nonzero groups :=
        countP_cons_of_neg (p := fun bits : List Bool => bits.any id) set
      have byte : pack bits = 0 := (pack_eq_zero bits length).mpr (by simpa using set)
      -- the last group is set, so some byte behind this one is not zero
      have more : ∃ code, nonzero groups = code + 1 := by
        cases groups with
        | nil => exact absurd (last bits rfl) set
        | cons other groups =>
          have set := last ((other :: groups).getLast (cons_ne_nil _ _)) (by
            rw [getLast?_cons_cons]
            exact getLast?_eq_getLast_of_ne_nil _)
          have positive : 0 < nonzero (other :: groups) :=
            countP_pos_iff.mpr ⟨_, getLast_mem _, set⟩
          exact ⟨nonzero (other :: groups) - 1, by omega⟩
      obtain ⟨code, same⟩ := more
      rw [same] at read
      rw [count, same, readMask, if_neg (not_not.mpr byte), read, unpack_pack bits length]
      rfl

section Function

variable (bit : Nat → Bool)

def maskBits (b : Nat) : List Bool := (List.range 8).map fun i => bit (b * 8 + i)

/-- The number of bytes up to the last one that is not zero, and of those that
are not zero, among the first ones. -/
def maskSize : Nat → Nat × Nat
  | 0 => (0, 0)
  | b + 1 => if (maskBits bit b).any id then (b + 1, (maskSize b).2 + 1) else maskSize b

def maskBytes (size : Nat) : List UInt8 := (List.range size).map fun b => pack (maskBits bit b)

theorem maskBits_length (b : Nat) : (maskBits bit b).length = 8 := by
  rw [maskBits, length_map, length_range]

variable (count : Nat)

theorem maskSize_le : (maskSize bit count).1 ≤ count := by
  induction count with
  | zero => exact Nat.le_refl _
  | succ b ih =>
    rw [maskSize]
    split_ifs with set
    · exact Nat.le_refl _
    · exact Nat.le_trans ih (Nat.le_succ b)

theorem maskSize_nonzero_le : (maskSize bit count).2 ≤ (maskSize bit count).1 := by
  induction count with
  | zero => exact Nat.le_refl _
  | succ b ih =>
    have size := maskSize_le bit b
    rw [maskSize]
    split_ifs with set
    · show (maskSize bit b).2 + 1 ≤ b + 1
      omega
    · exact ih

theorem maskSize_nonzero_pos (size : (maskSize bit count).1 ≠ 0) :
    0 < (maskSize bit count).2 := by
  induction count with
  | zero => exact absurd rfl size
  | succ b ih =>
    rw [maskSize] at size ⊢
    split_ifs at size ⊢ with set
    · exact Nat.succ_pos _
    · exact ih size

theorem lt_maskSize (count b : Nat) (inside : b < count) (set : (maskBits bit b).any id = true) :
    b < (maskSize bit count).1 := by
  induction count with
  | zero => exact absurd inside (Nat.not_lt_zero b)
  | succ top ih =>
    rw [maskSize]
    split_ifs with here
    · exact inside
    · obtain below | same := Nat.lt_succ_iff_lt_or_eq.mp inside
      · exact ih below
      · rw [← same] at here
        exact absurd set here

theorem maskSize_nonzero :
    (maskSize bit count).2 =
        nonzero ((range (maskSize bit count).1).map (maskBits bit)) ∧
      ((maskSize bit count).1 ≠ 0 → (maskBits bit ((maskSize bit count).1 - 1)).any id = true) := by
  induction count with
  | zero => exact ⟨rfl, fun nothing => absurd rfl nothing⟩
  | succ b ih =>
    rw [maskSize]
    split_ifs with set
    · refine ⟨?_, fun _ => set⟩
      -- the bytes between the last one and this one are zero
      have zeros : ∀ count size, size ≤ count →
          (∀ other, size ≤ other → other < count → (maskBits bit other).any id = false) →
          nonzero ((range count).map (maskBits bit)) =
            nonzero ((range size).map (maskBits bit)) := by
        intro count size below none
        induction count with
        | zero => rw [Nat.le_zero.mp below]
        | succ top inner =>
          obtain less | same := Nat.lt_or_eq_of_le below
          · have unset := none top (Nat.lt_succ_iff.mp less) (Nat.lt_succ_self top)
            rw [range_succ, map_append, nonzero, countP_append,
              map_singleton, countP_singleton, unset,
              ← inner (Nat.lt_succ_iff.mp less) fun other least most =>
                none other least (Nat.lt_trans most (Nat.lt_succ_self top))]
            rfl
          · rw [same]
      have between := zeros b (maskSize bit b).1 (maskSize_le bit b) (by
        intro other least most
        by_contra isSet
        have less := lt_maskSize bit b other most (by simpa using isSet)
        omega)
      rw [range_succ, map_append, nonzero, countP_append, map_singleton,
        countP_singleton, if_pos set]
      show (maskSize bit b).2 + 1 = nonzero ((range b).map (maskBits bit)) + 1
      rw [between, ih.1]
    · exact ih

theorem lt_of_bit (count position : Nat) (inside : position < count * 8)
    (set : bit position = true) : position < (maskSize bit count).1 * 8 := by
  have byte : (maskBits bit (position / 8)).any id = true := by
    apply any_eq_true.mpr
    refine ⟨bit position, ?_, set⟩
    apply mem_map.mpr
    have split : position / 8 * 8 + position % 8 = position := by omega
    exact ⟨position % 8, mem_range.mpr (Nat.mod_lt _ (by decide)), congrArg bit split⟩
  have less := lt_maskSize bit count (position / 8) (by omega) byte
  omega

theorem flatten_maskBits (size : Nat) :
    ((range size).map (maskBits bit)).flatten = (range (size * 8)).map bit := by
  induction size with
  | zero => rfl
  | succ size ih =>
    rw [range_succ, map_append, flatten_append, ih, Nat.succ_mul, range_add,
      map_append, map_singleton, flatten_singleton, map_map]
    rfl

theorem readMask_maskBytes (rest : List UInt8) :
    readMask (maskBytes bit (maskSize bit count).1 ++ rest) (maskSize bit count).2 =
      some ((range ((maskSize bit count).1 * 8)).map bit, rest) := by
  obtain ⟨number, top⟩ := maskSize_nonzero bit count
  have groups := readMask_groups ((range (maskSize bit count).1).map (maskBits bit)) rest
    (by
      intro bits member
      obtain ⟨b, _, same⟩ := mem_map.mp member
      rw [← same]
      exact maskBits_length bit b)
    (by
      intro bits member
      cases size : (maskSize bit count).1 with
      | zero =>
        rw [size] at member
        cases member
      | succ b =>
        have set := top (by omega)
        rw [size] at member set
        rw [range_succ, map_append, map_singleton, getLast?_concat] at member
        cases member
        exact set)
  rw [map_map] at groups
  rw [number, ← flatten_maskBits]
  exact groups

end Function

end ZenonCore.SparseMasks
