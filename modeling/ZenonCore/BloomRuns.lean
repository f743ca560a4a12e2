import ZenonCore.Bloom
import ZenonCore.Library.Runs

/-!
# Runs of bloom filters

`CBloomFilter` with every division and access checked, over runs of several filters, with the
keys that each must not forget.
-/

namespace ZenonCore.BloomRuns

open Script Bloom List
open Library.Runs

def bitOf (nIndex : Nat) : UInt8 := 1 <<< UInt8.ofNat (7 &&& nIndex)

def writeAt (vData : Bytes) (i : Nat) (value : UInt8) : Option Bytes :=
  if i < vData.length then some (vData.set i value) else none

def hash (filter : CBloomFilter) (nHashNum : Nat) (vDataToHash : Bytes) : Option Nat :=
  if filter.vData.length * 8 = 0 then none else some (filter.hash nHashNum vDataToHash)

def insertBits (filter : CBloomFilter) (vKey : Bytes) : List Nat → Bytes → Option Bytes
  | [], vData => some vData
  | i :: rest, vData => do
      let nIndex ← hash { filter with vData := vData } i vKey
      let byte ← vData[nIndex >>> 3]?
      let vData ← writeAt vData (nIndex >>> 3) (byte ||| bitOf nIndex)
      insertBits filter vKey rest vData

def insert (filter : CBloomFilter) (vKey : Bytes) : Option CBloomFilter :=
  if filter.isFull then some filter
  else do
    let vData ← insertBits filter vKey (List.range filter.nHashFuncs) filter.vData
    pure { filter with vData := vData, isEmpty := false }

def containsBits (filter : CBloomFilter) (vKey : Bytes) : List Nat → Option Bool
  | [] => some true
  | i :: rest => do
      let nIndex ← hash filter i vKey
      let byte ← filter.vData[nIndex >>> 3]?
      if byte &&& bitOf nIndex = 0 then some false else containsBits filter vKey rest

def contains (filter : CBloomFilter) (vKey : Bytes) : Option Bool :=
  if filter.isFull then some true
  else if filter.isEmpty then some false
  else containsBits filter vKey (List.range filter.nHashFuncs)

def clear (filter : CBloomFilter) : CBloomFilter :=
  { filter with vData := List.replicate filter.vData.length 0, isFull := false, isEmpty := true }

/-- `IsWithinSizeConstraints`, with `MAX_BLOOM_FILTER_SIZE` and `MAX_HASH_FUNCS`. -/
def isWithinSizeConstraints (filter : CBloomFilter) : Bool :=
  filter.vData.length ≤ 36000 && filter.nHashFuncs ≤ 50

def matchesAll (filter : CBloomFilter) : Bool := filter.vData.all fun b => b == 0xff

/-- `Merge`, with the value it returns. The second branch clears the vector before it
writes to its first byte. -/
def merge (this filter : CBloomFilter) : Option (Bool × CBloomFilter) :=
  if !matchesAll this && !matchesAll filter then
    if ¬ (filter.vData.length = this.vData.length ∧ filter.nHashFuncs = this.nHashFuncs ∧
        filter.nTweak = this.nTweak) then some (false, this)
    else
      some (true, { this with
        vData := List.zipWith (fun mine other => mine ||| other) this.vData filter.vData })
  else do
    let vData ← writeAt [] 0 0xff
    pure (true, { this with vData := vData })

def updateEmptyFull (filter : CBloomFilter) : CBloomFilter :=
  { filter with
    isFull := filter.vData.all fun b => b == 0xff
    isEmpty := filter.vData.all fun b => b == 0 }

/-- A filter that a peer sends: the flags are those of the constructor without arguments. -/
def load (vData : Bytes) (nHashFuncs : Nat) (nTweak : UInt32) (nFlags : UInt8) : CBloomFilter where
  vData := vData
  isFull := true
  isEmpty := false
  nHashFuncs := nHashFuncs
  nTweak := nTweak
  nFlags := nFlags

def construct (size nHashFuncs : Nat) (nTweak : UInt32) (nFlags : UInt8) : CBloomFilter where
  vData := List.replicate size 0
  isFull := false
  isEmpty := false
  nHashFuncs := nHashFuncs
  nTweak := nTweak
  nFlags := nFlags

/-- A filter with the keys inserted into it since it was cleared last. -/
structure Tracked where
  filter : CBloomFilter
  keys : List Bytes
deriving DecidableEq, Repr

inductive Event where
  | load (vData : Bytes) (nHashFuncs : Nat) (nTweak : UInt32) (nFlags : UInt8)
  | construct (size nHashFuncs : Nat) (nTweak : UInt32) (nFlags : UInt8)
  | updateEmptyFull (i : Nat)
  | insert (i : Nat) (vKey : Bytes)
  | clear (i : Nat)
  | merge (i filter : Nat)

/-- One operation on the filters there are; nothing if it leaves `vData`, divides by zero or is none
of the program's. -/
def step (state : List Tracked) : Event → Option (List Tracked)
  | .load vData nHashFuncs nTweak nFlags =>
    if isWithinSizeConstraints (load vData nHashFuncs nTweak nFlags) then
      some (state ++ [{ filter := load vData nHashFuncs nTweak nFlags, keys := [] }])
    else none
  | .construct size nHashFuncs nTweak nFlags =>
    if isWithinSizeConstraints (construct size nHashFuncs nTweak nFlags) ∧
        (size = 0 → nHashFuncs = 0) then
      some (state ++ [{ filter := construct size nHashFuncs nTweak nFlags, keys := [] }])
    else none
  | .updateEmptyFull i => do
      let this ← state[i]?
      pure (state.set i { this with filter := updateEmptyFull this.filter })
  | .insert i vKey => do
      let this ← state[i]?
      let filter ← insert this.filter vKey
      pure (state.set i { filter := filter, keys := vKey :: this.keys })
  | .clear i => do
      let this ← state[i]?
      pure (state.set i { filter := clear this.filter, keys := [] })
  | .merge i j => do
      let this ← state[i]?
      let other ← state[j]?
      let merged ← merge this.filter other.filter
      pure (state.set i
        { filter := merged.2, keys := if merged.1 then other.keys ++ this.keys else this.keys })

def Present (state : List Tracked) : Event → Prop
  | .load vData nHashFuncs nTweak nFlags =>
    isWithinSizeConstraints (load vData nHashFuncs nTweak nFlags)
  | .construct size nHashFuncs nTweak nFlags =>
    isWithinSizeConstraints (construct size nHashFuncs nTweak nFlags) ∧
      (size = 0 → nHashFuncs = 0)
  | .updateEmptyFull i => i < state.length
  | .insert i _ => i < state.length
  | .clear i => i < state.length
  | .merge i j => i < state.length ∧ j < state.length

def Insertable (filter : CBloomFilter) : Prop :=
  filter.isFull = true ∨ filter.vData ≠ [] ∨ filter.nHashFuncs = 0

/-- A filter with keys gets its flags from data that holds them. -/
def Refreshable (this : Tracked) : Prop :=
  this.keys = [] ∨ matchesAll this.filter = true ∨
    (this.filter.isFull = false ∧
      ¬ (this.filter.nHashFuncs = 0 ∧ ∀ b ∈ this.filter.vData, b = 0))

def Compatible (this filter : CBloomFilter) : Prop :=
  filter.vData.length = this.vData.length ∧ filter.nHashFuncs = this.nHashFuncs ∧
    filter.nTweak = this.nTweak

/-- Neither filter matches everything, and the flags of both tell what the data says. -/
def Mergeable (this other : Tracked) : Prop :=
  matchesAll this.filter = false ∧ matchesAll other.filter = false ∧
    (Compatible this.filter other.filter → other.keys = [] ∨ this.filter.isFull = true ∨
      (this.filter.isEmpty = false ∧ other.filter.isFull = false))

def Guard (state : List Tracked) : Event → Prop
  | .load .. => True
  | .construct .. => True
  | .updateEmptyFull i => ∀ this ∈ state[i]?, Refreshable this
  | .insert i _ => ∀ this ∈ state[i]?, Insertable this.filter
  | .clear _ => True
  | .merge i j => ∀ this ∈ state[i]?, ∀ other ∈ state[j]?, Mergeable this other

instance (filter : CBloomFilter) : Decidable (Insertable filter) :=
  inferInstanceAs (Decidable (_ ∨ _ ∨ _))

instance (this : Tracked) : Decidable (Refreshable this) :=
  inferInstanceAs (Decidable (_ ∨ _ ∨ _))

instance (this filter : CBloomFilter) : Decidable (Compatible this filter) :=
  inferInstanceAs (Decidable (_ ∧ _ ∧ _))

instance (this other : Tracked) : Decidable (Mergeable this other) :=
  inferInstanceAs (Decidable (_ ∧ _ ∧ _))

instance (state : List Tracked) : (event : Event) → Decidable (Guard state event)
  | .load .. => inferInstanceAs (Decidable True)
  | .construct .. => inferInstanceAs (Decidable True)
  | .updateEmptyFull i => inferInstanceAs (Decidable (∀ this ∈ state[i]?, Refreshable this))
  | .insert i _ => inferInstanceAs (Decidable (∀ this ∈ state[i]?, Insertable this.filter))
  | .clear _ => inferInstanceAs (Decidable True)
  | .merge i j => inferInstanceAs
      (Decidable (∀ this ∈ state[i]?, ∀ other ∈ state[j]?, Mergeable this other))

section Bits

def Holds (vData : Bytes) (nIndex : Nat) : Prop :=
  ∃ byte, vData[nIndex >>> 3]? = some byte ∧ byte &&& bitOf nIndex ≠ 0

def HoldsKey (filter : CBloomFilter) (vKey : Bytes) : Prop :=
  ∀ i < filter.nHashFuncs, Holds filter.vData (filter.hash i vKey)

theorem bitOf_ne_zero (nIndex : Nat) : bitOf nIndex ≠ 0 := by
  have low : 7 &&& nIndex < 8 := by
    rw [Nat.and_comm, Nat.and_two_pow_sub_one_eq_mod nIndex 3]
    exact Nat.mod_lt nIndex (by decide)
  have every : ∀ k < 8, (1 : UInt8) <<< UInt8.ofNat k ≠ 0 := by decide
  exact every _ low

theorem and_or_ne_zero (byte other bit : UInt8) (set : byte &&& bit ≠ 0) :
    (byte ||| other) &&& bit ≠ 0 := by
  have split : (byte ||| other) &&& bit = byte &&& bit ||| other &&& bit := by
    apply UInt8.toBitVec_inj.mp
    simp only [UInt8.toBitVec_and, UInt8.toBitVec_or]
    exact BitVec.and_or_distrib_right
  rw [split, Ne, UInt8.or_eq_zero_iff]
  exact fun both => set both.1

theorem or_and_self_ne_zero (byte : UInt8) (nIndex : Nat) :
    (byte ||| bitOf nIndex) &&& bitOf nIndex ≠ 0 := by
  rw [UInt8.or_comm]
  apply and_or_ne_zero
  rw [UInt8.and_self]
  exact bitOf_ne_zero nIndex

variable (filter : CBloomFilter)

theorem hash_eq (nonempty : filter.vData ≠ []) (i : Nat) (vKey : Bytes) :
    hash filter i vKey = some (filter.hash i vKey) := by
  have size := length_pos_iff.mpr nonempty
  rw [hash, if_neg (by omega)]

theorem hash_inside (nonempty : filter.vData ≠ []) (i : Nat)
    (vKey : Bytes) : filter.hash i vKey >>> 3 < filter.vData.length := by
  have size := length_pos_iff.mpr nonempty
  have bound : filter.hash i vKey < filter.vData.length * 8 := Nat.mod_lt _ (by omega)
  rw [Nat.shiftRight_eq_div_pow]
  omega

theorem hash_of_length (vData : Bytes)
    (size : vData.length = filter.vData.length) (i : Nat) (vKey : Bytes) :
    ({ filter with vData := vData } : CBloomFilter).hash i vKey = filter.hash i vKey := by
  simp only [CBloomFilter.hash, size]

variable (vKey : Bytes) (rounds : List Nat)

theorem insertBits_spec (vData : Bytes)
    (size : vData.length = filter.vData.length) (nonempty : filter.vData ≠ [] ∨ rounds = []) :
    ∃ filled, insertBits filter vKey rounds vData = some filled ∧
      filled.length = filter.vData.length ∧
      (∀ nIndex, Holds vData nIndex → Holds filled nIndex) ∧
      ∀ i ∈ rounds, Holds filled (filter.hash i vKey) := by
  induction rounds generalizing vData with
  | nil => exact ⟨vData, rfl, size, fun _ held => held, by simp⟩
  | cons i rest ih =>
    obtain present | none := nonempty
    · have length := length_pos_iff.mpr present
      have inside : vData ≠ [] := length_pos_iff.mp (by omega)
      have index := hash_eq { filter with vData := vData } inside i vKey
      have place := hash_inside { filter with vData := vData } inside i vKey
      rw [hash_of_length filter vData size] at index place
      obtain ⟨byte, found⟩ : ∃ byte, vData[filter.hash i vKey >>> 3]? = some byte :=
        ⟨_, getElem?_eq_getElem place⟩
      obtain ⟨filled, done, length, kept, set⟩ :=
        ih (vData.set (filter.hash i vKey >>> 3) (byte ||| bitOf (filter.hash i vKey)))
          (by rw [length_set, size]) (Or.inl present)
      refine ⟨filled, ?_, length, ?_, ?_⟩
      · simp only [insertBits, index, found, writeAt, if_pos place, Option.bind_eq_bind,
          Option.bind_some]
        exact done
      · intro nIndex ⟨old, there, bit⟩
        apply kept
        by_cases same : filter.hash i vKey >>> 3 = nIndex >>> 3
        · have equal : byte = old := Option.some.inj (found.symm.trans (same ▸ there))
          refine ⟨byte ||| bitOf (filter.hash i vKey), ?_, ?_⟩
          · rw [← same, getElem?_set_self place]
          · exact and_or_ne_zero _ _ _ (equal ▸ bit)
        · exact ⟨old, by rw [getElem?_set_ne same, there], bit⟩
      · intro j among
        obtain rfl | behind := mem_cons.mp among
        · apply kept
          exact ⟨_, getElem?_set_self place, or_and_self_ne_zero byte _⟩
        · exact set j behind
    · cases none

theorem containsBits_isSome (nonempty : filter.vData ≠ [] ∨ rounds = []) : (containsBits filter vKey rounds).isSome := by
  induction rounds with
  | nil => rfl
  | cons i rest ih =>
    obtain present | none := nonempty
    · have found := getElem?_eq_getElem (hash_inside filter present i vKey)
      simp only [containsBits, hash_eq filter present, found, Option.bind_eq_bind,
        Option.bind_some]
      split_ifs
      · rfl
      · exact ih (Or.inl present)
    · cases none

theorem containsBits_true (nonempty : filter.vData ≠ [] ∨ rounds = [])
    (held : ∀ i ∈ rounds, Holds filter.vData (filter.hash i vKey)) :
    containsBits filter vKey rounds = some true := by
  induction rounds with
  | nil => rfl
  | cons i rest ih =>
    obtain present | none := nonempty
    · obtain ⟨byte, found, bit⟩ := held i mem_cons_self
      simp only [containsBits, hash_eq filter present, found, Option.bind_eq_bind,
        Option.bind_some, if_neg bit]
      exact ih (Or.inl present) fun j behind => held j (mem_cons_of_mem i behind)
    · cases none

theorem range_empty_or
    (able : filter.vData ≠ [] ∨ filter.nHashFuncs = 0) :
    filter.vData ≠ [] ∨ range filter.nHashFuncs = [] := by
  obtain present | none := able
  · exact Or.inl present
  · exact Or.inr (by rw [none, range_zero])

end Bits

section Invariant

def Readable (filter : CBloomFilter) : Prop :=
  filter.isFull = true ∨ filter.isEmpty = true ∨ filter.vData ≠ [] ∨ filter.nHashFuncs = 0

theorem bitOf_eq (nIndex : Nat) : bitOf nIndex = 1 <<< UInt8.ofNat (nIndex % 8) := by
  rw [bitOf, Nat.and_comm, Nat.and_two_pow_sub_one_eq_mod nIndex 3]

variable (filter : CBloomFilter)

theorem insertBits_eq (vKey : Bytes) (rounds : List Nat) (vData : Bytes)
    (size : vData.length = filter.vData.length) (nonempty : filter.vData ≠ [] ∨ rounds = []) :
    insertBits filter vKey rounds vData = some (rounds.foldl (fun vData i =>
      vData.modify (filter.hash i vKey / 8)
        (· ||| (1 <<< UInt8.ofNat (filter.hash i vKey % 8)))) vData) := by
  induction rounds generalizing vData with
  | nil => rfl
  | cons i rest ih =>
    obtain present | none := nonempty
    · have length := length_pos_iff.mpr present
      have inside : vData ≠ [] := length_pos_iff.mp (by omega)
      have index := hash_eq { filter with vData := vData } inside i vKey
      have place := hash_inside { filter with vData := vData } inside i vKey
      rw [hash_of_length filter vData size] at index place
      have found := getElem?_eq_getElem place
      have modified : vData.set (filter.hash i vKey >>> 3)
          (vData[filter.hash i vKey >>> 3] ||| bitOf (filter.hash i vKey)) =
            vData.modify (filter.hash i vKey / 8)
              (· ||| (1 <<< UInt8.ofNat (filter.hash i vKey % 8))) := by
        rw [modify_eq_set_getElem?, ← bitOf_eq,
          show filter.hash i vKey / 8 = filter.hash i vKey >>> 3 from
            (Nat.shiftRight_eq_div_pow _ 3).symm, found]
        rfl
      simp only [insertBits, index, found, writeAt, if_pos place, Option.bind_eq_bind,
        Option.bind_some, foldl_cons]
      rw [modified]
      exact ih _ (by rw [length_modify, size]) (Or.inl present)
    · cases none

theorem insert_eq (able : Insertable filter) (vKey : Bytes) :
    insert filter vKey = some (filter.insert vKey) := by
  rw [insert, CBloomFilter.insert]
  split_ifs with full
  · rfl
  · have data : filter.vData ≠ [] ∨ filter.nHashFuncs = 0 := by
      simpa [Insertable, full] using able
    rw [insertBits_eq filter vKey _ _ rfl (range_empty_or filter data)]
    rfl

theorem containsBits_eq (vKey : Bytes) (rounds : List Nat)
    (nonempty : filter.vData ≠ [] ∨ rounds = []) :
    containsBits filter vKey rounds = some (rounds.all fun i =>
      (filter.vData.getD (filter.hash i vKey / 8) 0 &&&
        (1 <<< UInt8.ofNat (filter.hash i vKey % 8))) != 0) := by
  induction rounds with
  | nil => rfl
  | cons i rest ih =>
    obtain present | none := nonempty
    · have place := hash_inside filter present i vKey
      have found := getElem?_eq_getElem place
      have byte : filter.vData.getD (filter.hash i vKey / 8) 0 =
          filter.vData[filter.hash i vKey >>> 3] := by
        rw [getD_eq_getElem?_getD, show filter.hash i vKey / 8 = filter.hash i vKey >>> 3
          from (Nat.shiftRight_eq_div_pow _ 3).symm, found]
        rfl
      simp only [containsBits, hash_eq filter present, found, Option.bind_eq_bind,
        Option.bind_some, all_cons, byte, ← bitOf_eq]
      split_ifs with missing
      · simp [missing]
      · rw [ih (Or.inl present)]
        simp [missing, ← bitOf_eq]
    · cases none

theorem contains_eq (readable : Readable filter) (vKey : Bytes) :
    contains filter vKey = some (filter.contains vKey) := by
  rw [contains, CBloomFilter.contains]
  split_ifs with full empty
  · rfl
  · rfl
  · apply containsBits_eq
    apply range_empty_or
    simpa [Readable, full, empty] using readable

/-- The keys of a filter are in its data, unless it is full. -/
structure Sound (this : Tracked) : Prop where
  readable : Readable this.filter
  filled : this.filter.isFull = false → this.keys ≠ [] → this.filter.isEmpty = false
  holds : this.filter.isFull = false → ∀ key ∈ this.keys, HoldsKey this.filter key

theorem contains_isSome (readable : Readable filter) (vKey : Bytes) :
    (contains filter vKey).isSome := by
  rw [contains]
  split_ifs with full empty
  · rfl
  · rfl
  · apply containsBits_isSome
    apply range_empty_or
    simpa [Readable, full, empty] using readable

variable (this : Tracked)

theorem contains_of_sound (sound : Sound this) (key : Bytes)
    (among : key ∈ this.keys) : contains this.filter key = some true := by
  rw [contains]
  split_ifs with full empty
  · rfl
  · have filled := sound.filled (by simpa using full) (ne_nil_of_mem among)
    rw [filled] at empty
    cases empty
  · apply containsBits_true
    · apply range_empty_or
      simpa [Readable, full, empty] using sound.readable
    · intro i inRange
      exact sound.holds (by simpa using full) key among i (mem_range.mp inRange)

theorem load_sound (vData : Bytes) (nHashFuncs : Nat) (nTweak : UInt32) (nFlags : UInt8) :
    Sound { filter := load vData nHashFuncs nTweak nFlags, keys := [] } where
  readable := Or.inl rfl
  filled := fun _ some => absurd rfl some
  holds := by simp

theorem construct_sound (size nHashFuncs : Nat) (nTweak : UInt32) (nFlags : UInt8)
    (able : size = 0 → nHashFuncs = 0) :
    Sound { filter := construct size nHashFuncs nTweak nFlags, keys := [] } where
  readable := by
    by_cases none : size = 0
    · exact Or.inr (Or.inr (Or.inr (able none)))
    · exact Or.inr (Or.inr (Or.inl (by simpa [construct] using none)))
  filled := fun _ some => absurd rfl some
  holds := by simp

theorem clear_sound : Sound { filter := clear this.filter, keys := [] } where
  readable := Or.inr (Or.inl rfl)
  filled := fun _ some => absurd rfl some
  holds := by simp

theorem insert_sound (sound : Sound this) (able : Insertable this.filter)
    (vKey : Bytes) :
    ∃ filter, insert this.filter vKey = some filter ∧
      Sound { filter := filter, keys := vKey :: this.keys } := by
  by_cases full : this.filter.isFull = true
  · refine ⟨this.filter, by rw [insert, if_pos full], Or.inl full, ?_, ?_⟩
    · exact fun current => absurd (full.symm.trans current) (by decide)
    · exact fun current => absurd (full.symm.trans current) (by decide)
  · have data : this.filter.vData ≠ [] ∨ this.filter.nHashFuncs = 0 := by
      simpa [Insertable, full] using able
    obtain ⟨filled, done, size, kept, set⟩ := insertBits_spec this.filter vKey
      (range this.filter.nHashFuncs) this.filter.vData rfl (range_empty_or this.filter data)
    refine ⟨{ this.filter with vData := filled, isEmpty := false }, ?_, ?_, fun _ _ => rfl, ?_⟩
    · rw [insert, if_neg full, done]
      rfl
    · obtain present | none := data
      · have length := length_pos_iff.mpr present
        exact Or.inr (Or.inr (Or.inl (length_pos_iff.mp (by
          change 0 < filled.length
          omega))))
      · exact Or.inr (Or.inr (Or.inr none))
    · intro _ key among i inRange
      change Holds filled _
      obtain rfl | old := mem_cons.mp among
      · have bit := set i (mem_range.mpr inRange)
        rw [← hash_of_length this.filter filled size i key] at bit
        exact bit
      · have bit := kept _ (sound.holds (by simpa using full) key old i inRange)
        rw [← hash_of_length this.filter filled size i key] at bit
        exact bit

theorem not_all_zero (vData : Bytes) (nIndex : Nat) (held : Holds vData nIndex) :
    ¬ ∀ b ∈ vData, b = 0 := by
  obtain ⟨byte, found, bit⟩ := held
  intro zero
  rw [zero byte (mem_of_getElem? found)] at bit
  exact bit (UInt8.zero_and ..)

theorem updateEmptyFull_sound (sound : Sound this) (able : Refreshable this) :
    Sound { this with filter := updateEmptyFull this.filter } := by
  have full_iff : (updateEmptyFull this.filter).isFull = matchesAll this.filter := rfl
  have empty_iff : (updateEmptyFull this.filter).isEmpty = true ↔
      ∀ b ∈ this.filter.vData, b = 0 := by
    simp [updateEmptyFull]
  refine ⟨?_, ?_, ?_⟩
  · by_cases present : this.filter.vData = []
    · exact Or.inl (by rw [full_iff, matchesAll, present]; rfl)
    · exact Or.inr (Or.inr (Or.inl present))
  · intro notFull some
    obtain none | all | ⟨current, funcs⟩ := able
    · exact absurd none some
    · rw [full_iff, all] at notFull
      cases notFull
    · rw [← Bool.not_eq_true, empty_iff]
      intro zero
      by_cases loop : this.filter.nHashFuncs = 0
      · exact funcs ⟨loop, zero⟩
      · obtain ⟨key, among⟩ := exists_mem_of_ne_nil _ some
        exact not_all_zero _ _ (sound.holds current key among 0 (by omega)) zero
  · intro notFull key among
    obtain none | all | ⟨current, _⟩ := able
    · have empty : this.keys = [] := none
      rw [empty] at among
      cases among
    · rw [full_iff, all] at notFull
      cases notFull
    · exact sound.holds current key among

theorem holds_zip (mine other : Bytes) (size : other.length = mine.length) (nIndex : Nat)
    (held : Holds mine nIndex ∨ Holds other nIndex) :
    Holds (zipWith (fun mine other => mine ||| other) mine other) nIndex := by
  have present : nIndex >>> 3 < mine.length := by
    obtain ⟨byte, found, _⟩ | ⟨byte, found, _⟩ := held
    · exact (List.getElem?_eq_some_iff.mp found).1
    · rw [← size]
      exact (List.getElem?_eq_some_iff.mp found).1
  have first := getElem?_eq_getElem present
  have second := getElem?_eq_getElem (size.symm ▸ present)
  refine ⟨mine[nIndex >>> 3] ||| other[nIndex >>> 3], ?_, ?_⟩
  · rw [getElem?_zipWith, first, second]
  · obtain ⟨byte, found, bit⟩ | ⟨byte, found, bit⟩ := held
    · rw [Option.some.inj (first.symm.trans found)]
      exact and_or_ne_zero _ _ _ bit
    · rw [Option.some.inj (second.symm.trans found), UInt8.or_comm]
      exact and_or_ne_zero _ _ _ bit

theorem merge_sound (this other : Tracked) (sound : Sound this) (otherSound : Sound other)
    (able : Mergeable this other) :
    ∃ merged, merge this.filter other.filter = some merged ∧
      Sound { filter := merged.2,
              keys := if merged.1 then other.keys ++ this.keys else this.keys } := by
  obtain ⟨mine, its, flags⟩ := able
  by_cases same : Compatible this.filter other.filter
  · obtain ⟨size, funcs, tweak⟩ := id same
    have length : (zipWith (fun mine other => mine ||| other) this.filter.vData
        other.filter.vData).length = this.filter.vData.length := by
      rw [length_zipWith, size, Nat.min_self]
    refine ⟨(true, { this.filter with
      vData := zipWith (fun mine other => mine ||| other) this.filter.vData
        other.filter.vData }), ?_, ?_, ?_, ?_⟩
    · simp only [merge, mine, its, Bool.not_false, Bool.and_self, if_true]
      rw [if_neg fun differ => differ same]
    · obtain full | empty | present | none := sound.readable
      · exact Or.inl full
      · exact Or.inr (Or.inl empty)
      · have positive := length_pos_iff.mpr present
        exact Or.inr (Or.inr (Or.inl (length_pos_iff.mp (by
          change 0 < (zipWith _ _ _).length
          omega))))
      · exact Or.inr (Or.inr (Or.inr none))
    · intro notFull some
      obtain none | full | ⟨empty, _⟩ := flags same
      · apply sound.filled notFull
        simpa [none] using some
      · exact absurd full (by simpa using notFull)
      · exact empty
    · intro notFull key among i inRange
      have place : i < this.filter.nHashFuncs := inRange
      change Holds (zipWith _ _ _) _
      rw [hash_of_length this.filter _ length]
      apply holds_zip _ _ size
      obtain added | old := mem_append.mp among
      · right
        have hashes : other.filter.hash i key = this.filter.hash i key := by
          simp only [CBloomFilter.hash, size, tweak]
        rw [← hashes]
        obtain none | full | ⟨_, current⟩ := flags same
        · rw [none] at added
          cases added
        · exact absurd full (by simpa using notFull)
        · exact otherSound.holds current key added i (funcs.symm ▸ place)
      · left
        exact sound.holds notFull key old i place
  · refine ⟨(false, this.filter), ?_, sound⟩
    simp only [merge, mine, its, Bool.not_false, Bool.and_self, if_true]
    exact if_pos same

end Invariant

section Run

def AllSound (state : List Tracked) : Prop := ∀ this ∈ state, Sound this

variable (state : List Tracked)

theorem all_sound_set (i : Nat) (this : Tracked) (sound : AllSound state)
    (new : Sound this) : AllSound (state.set i this) := by
  intro other among
  obtain old | rfl := mem_or_eq_of_mem_set among
  · exact sound other old
  · exact new

theorem all_sound_append (this : Tracked) (sound : AllSound state)
    (new : Sound this) : AllSound (state ++ [this]) := by
  intro other among
  obtain old | added := mem_append.mp among
  · exact sound other old
  · rw [mem_singleton.mp added]
    exact new

theorem step_sound (event : Event) (sound : AllSound state)
    (present : Present state event) (guarded : Guard state event) :
    ∃ next, step state event = some next ∧ AllSound next := by
  cases event with
  | load vData nHashFuncs nTweak nFlags =>
    exact ⟨_, if_pos present, all_sound_append _ _ sound (load_sound ..)⟩
  | construct size nHashFuncs nTweak nFlags =>
    exact ⟨_, if_pos present, all_sound_append _ _ sound (construct_sound _ _ _ _ present.2)⟩
  | updateEmptyFull i =>
    have found := getElem?_eq_getElem present
    refine ⟨_, by simp only [step, found, Option.bind_eq_bind, Option.bind_some]; rfl, ?_⟩
    exact all_sound_set _ _ _ sound (updateEmptyFull_sound _
      (sound _ (getElem_mem present)) (guarded _ found))
  | insert i vKey =>
    have found := getElem?_eq_getElem present
    obtain ⟨filter, done, new⟩ := insert_sound _ (sound _ (getElem_mem present))
      (guarded _ found) vKey
    refine ⟨_, by simp only [step, found, done, Option.bind_eq_bind, Option.bind_some]; rfl, ?_⟩
    exact all_sound_set _ _ _ sound new
  | clear i =>
    have found := getElem?_eq_getElem present
    refine ⟨_, by simp only [step, found, Option.bind_eq_bind, Option.bind_some]; rfl, ?_⟩
    exact all_sound_set _ _ _ sound (clear_sound _)
  | merge i j =>
    obtain ⟨mine, its⟩ := present
    have found := getElem?_eq_getElem mine
    have other := getElem?_eq_getElem its
    obtain ⟨merged, done, new⟩ := merge_sound _ _ (sound _ (getElem_mem mine))
      (sound _ (getElem_mem its)) (guarded _ found _ other)
    refine ⟨_, by
      simp only [step, found, other, done, Option.bind_eq_bind, Option.bind_some]; rfl, ?_⟩
    exact all_sound_set _ _ _ sound new

theorem present_of_step (state next : List Tracked) (event : Event)
    (taken : step state event = some next) : Present state event := by
  cases event with
  | load vData nHashFuncs nTweak nFlags =>
    rw [step] at taken
    split_ifs at taken with within
    exact within
  | construct size nHashFuncs nTweak nFlags =>
    rw [step] at taken
    split_ifs at taken with within
    exact within
  | updateEmptyFull i =>
    obtain ⟨this, found, _⟩ := Option.bind_eq_some_iff.mp taken
    exact (List.getElem?_eq_some_iff.mp found).1
  | insert i vKey =>
    obtain ⟨this, found, _⟩ := Option.bind_eq_some_iff.mp taken
    exact (List.getElem?_eq_some_iff.mp found).1
  | clear i =>
    obtain ⟨this, found, _⟩ := Option.bind_eq_some_iff.mp taken
    exact (List.getElem?_eq_some_iff.mp found).1
  | merge i j =>
    obtain ⟨this, found, taken⟩ := Option.bind_eq_some_iff.mp taken
    obtain ⟨other, its, _⟩ := Option.bind_eq_some_iff.mp taken
    exact ⟨(List.getElem?_eq_some_iff.mp found).1, (List.getElem?_eq_some_iff.mp its).1⟩

theorem run_sound (events : List Event) (state : List Tracked)
    (reached : run step [] events = some state) (guarded : AllSteps step Guard [] events) :
    AllSound state := by
  apply invariant_of_guarded_run step Guard AllSound ?_ [] state events (by simp [AllSound])
    guarded reached
  intro before event after sound guard taken
  obtain ⟨next, done, new⟩ := step_sound before event sound (present_of_step _ _ _ taken) guard
  obtain rfl : next = after := Option.some.inj (done.symm.trans taken)
  exact new

/-- In a run whose operations meet their conditions, every filter can be asked for every key,
contains what it must not forget, and no operation leaves the data or divides by zero. -/
theorem bloom_never_forgets (events : List Event) (state : List Tracked)
    (reached : run step [] events = some state) (guarded : AllSteps step Guard [] events) :
    (∀ this ∈ state, (∀ key, (contains this.filter key).isSome) ∧
      ∀ key ∈ this.keys, contains this.filter key = some true) ∧
    ∀ event, Present state event → Guard state event → (step state event).isSome := by
  have sound := run_sound events state reached guarded
  constructor
  · intro this among
    exact ⟨contains_isSome _ (sound this among).readable,
      contains_of_sound this (sound this among)⟩
  · intro event present guard
    obtain ⟨next, done, _⟩ := step_sound state event sound present guard
    rw [done]
    rfl

def mergedPair : List Event :=
  [.load [0x00, 0x10] 2 7 0, .load [0x01, 0x00] 2 7 0, .updateEmptyFull 0, .updateEmptyFull 1,
    .insert 0 [1, 2, 3], .insert 1 [4, 5], .merge 0 1]

theorem merged_pair_keeps : ∃ state, run step [] mergedPair = some state ∧
    (∀ this ∈ state, (∀ key, (contains this.filter key).isSome) ∧
      ∀ key ∈ this.keys, contains this.filter key = some true) ∧
    ∀ event, Present state event → Guard state event → (step state event).isSome := by
  have reached : (run step [] mergedPair).isSome := by decide +kernel
  obtain ⟨state, done⟩ := Option.isSome_iff_exists.mp reached
  exact ⟨state, done, bloom_never_forgets mergedPair state done (by decide +kernel)⟩

/-- Merging into a filter of zeros forgets the keys of the other, and merging one that matches
everything leaves the data. -/
theorem merge_forgets_and_leaves_the_data :
    ¬ (∀ events state, run step [] events = some state → ∀ this ∈ state, ∀ key ∈ this.keys,
        contains this.filter key = some true) ∧
      ¬ (∀ events state event, run step [] events = some state → Present state event →
        (step state event).isSome) := by
  constructor
  · intro remembers
    let events : List Event := [.load [0x00] 1 0 0, .load [0x00] 1 0 0, .updateEmptyFull 0,
      .updateEmptyFull 1, .insert 1 [1], .merge 0 1]
    have reached : (run step [] events).isSome := by decide +kernel
    obtain ⟨state, done⟩ := Option.isSome_iff_exists.mp reached
    have forgets : ∃ this ∈ (run step [] events).getD [], ∃ key ∈ this.keys,
        contains this.filter key ≠ some true := by
      decide +kernel
    rw [done] at forgets
    obtain ⟨this, among, key, inserted, missing⟩ := forgets
    exact missing (remembers events state done this among key inserted)
  · intro inside
    let events : List Event := [.load [0x00] 1 0 0, .load [0xff] 1 0 0]
    have reached : (run step [] events).isSome := by decide +kernel
    obtain ⟨state, done⟩ := Option.isSome_iff_exists.mp reached
    have size : ((run step [] events).getD []).length = 2 := by decide +kernel
    have leaves : (step ((run step [] events).getD []) (.merge 0 1)) = none := by decide +kernel
    rw [done] at size leaves
    have present : Present state (.merge 0 1) := by
      change 0 < state.length ∧ 1 < state.length
      have count : state.length = 2 := size
      omega
    have taken := inside events state (.merge 0 1) done present
    rw [show step state (.merge 0 1) = none from leaves] at taken
    cases taken

end Run

end ZenonCore.BloomRuns
