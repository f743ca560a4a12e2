import Mathlib.Data.List.Nodup
import Mathlib.Order.Lattice
import Mathlib.Order.Nat
import ZenonCore.Library.Runs

/-!
# The map of limited size

`limitedmap` evicts the first entry of its reverse map where an insertion makes its size the limit.
There is no result where an assertion fails or the first entry of an empty map is followed.
-/

namespace ZenonCore.LimitedMaps

open Library.Runs List Option

variable {K V : Type} [DecidableEq K] [LinearOrder V]

/-- An iterator into the map is the key of its entry. -/
structure LimitedMap (K V : Type) where
  map : List (K × V)
  rmap : List (V × K)
  nMaxSize : Nat
deriving DecidableEq

def limitedmap (nMaxSizeIn : Nat) : LimitedMap K V := ⟨[], [], nMaxSizeIn⟩

/-- `rmap.insert`, behind the entries of the same value. -/
def insertReverse (entry : V × K) : List (V × K) → List (V × K)
  | [] => [entry]
  | first :: rest =>
    if first.1 ≤ entry.1 then first :: insertReverse entry rest else entry :: first :: rest

/-- `map.erase(rmap.begin()->second)` and `rmap.erase(rmap.begin())`. -/
def LimitedMap.evict (m : LimitedMap K V) : Option (LimitedMap K V) :=
  match m.rmap with
  | [] => none
  | first :: rest => some { m with
      map := m.map.filter fun entry => entry.1 ≠ first.2
      rmap := rest }

def LimitedMap.insert (m : LimitedMap K V) (k : K) (v : V) : Option (LimitedMap K V) :=
  if k ∈ m.map.map Prod.fst then some m
  else do
    let added := { m with map := (k, v) :: m.map }
    let m ← if added.nMaxSize ≠ 0 ∧ added.map.length = added.nMaxSize then added.evict
      else some added
    return { m with rmap := insertReverse (v, k) m.rmap }

def LimitedMap.erase (m : LimitedMap K V) (k : K) : Option (LimitedMap K V) :=
  match m.map.lookup k with
  | none => some m
  | some old =>
    if (old, k) ∈ m.rmap then some { m with
      map := m.map.filter fun entry => entry.1 ≠ k
      rmap := m.rmap.erase (old, k) }
    else none

def LimitedMap.update (m : LimitedMap K V) (k : K) (v : V) : Option (LimitedMap K V) :=
  match m.map.lookup k with
  | none => some m
  | some old =>
    if (old, k) ∈ m.rmap then some { m with
      map := m.map.map fun entry => if entry.1 = k then (k, v) else entry
      rmap := insertReverse (v, k) (m.rmap.erase (old, k)) }
    else none

/-- The loop of `max_size`, with the rounds it has left. -/
def LimitedMap.shrink (s : Nat) : Nat → LimitedMap K V → Option (LimitedMap K V)
  | 0, m => if m.map.length ≤ s then some m else none
  | rounds + 1, m => if m.map.length ≤ s then some m else m.evict.bind (shrink s rounds)

def LimitedMap.maxSize (m : LimitedMap K V) (s : Nat) : Option (LimitedMap K V) := do
  let m ← if s ≠ 0 then m.shrink s m.map.length else some m
  return { m with nMaxSize := s }

inductive Operation (K V : Type)
  | insert (k : K) (v : V)
  | erase (k : K)
  | update (k : K) (v : V)
  | maxSize (s : Nat)

def step (m : LimitedMap K V) : Operation K V → Option (LimitedMap K V)
  | .insert k v => m.insert k v
  | .erase k => m.erase k
  | .update k v => m.update k v
  | .maxSize s => m.maxSize s

/-- The reverse map lists each entry of the map once, under its value. -/
structure Listed (m : LimitedMap K V) : Prop where
  keys : (m.map.map Prod.fst).Nodup
  listed : m.rmap.Perm (m.map.map Prod.swap)

def Bounded (m : LimitedMap K V) : Prop := m.nMaxSize ≠ 0 → m.map.length ≤ m.nMaxSize

/-- What an insertion leaves: into a full map all but one entry of the lowest value, otherwise
everything. -/
def KeepsHighest (m next : LimitedMap K V) (k : K) (v : V) : Prop :=
  if m.nMaxSize ≠ 0 ∧ m.nMaxSize ≤ m.map.length then
    ∃ lowest ∈ (k, v) :: m.map, (∀ entry ∈ (k, v) :: m.map, lowest.2 ≤ entry.2) ∧
      next.map.Perm (((k, v) :: m.map).erase lowest)
  else next.map.Perm ((k, v) :: m.map)

/-- An operation comes to its end, and does what the map is for. -/
def Correct (m : LimitedMap K V) (operation : Operation K V) : Prop :=
  ∃ next, step m operation = some next ∧ Listed next ∧ Bounded next ∧
    ∀ k v, operation = .insert k v → k ∉ m.map.map Prod.fst → KeepsHighest m next k v

/-- A new entry leaves the map below its limit. -/
def HasRoom (m : LimitedMap K V) (operation : Operation K V) : Prop :=
  ∀ k v, operation = .insert k v → k ∉ m.map.map Prod.fst →
    m.nMaxSize = 0 ∨ m.map.length + 1 < m.nMaxSize

omit [DecidableEq K] in
theorem insertReverse_perm (entry : V × K) (rmap : List (V × K)) :
    (insertReverse entry rmap).Perm (entry :: rmap) := by
  induction rmap with
  | nil => exact List.Perm.refl _
  | cons first rest ih =>
    rw [insertReverse]
    split
    · exact (ih.cons first).trans (List.Perm.swap ..)
    · exact List.Perm.refl _

section Entries

variable (m : LimitedMap K V) (k : K) (old v : V)

omit [DecidableEq K] [LinearOrder V] in
theorem Listed.apart (listed : Listed m) (others : List (V × K))
    (split : m.rmap.Perm ((old, k) :: others)) :
    m.map.Perm ((k, old) :: others.map Prod.swap) ∧ k ∉ (others.map Prod.swap).map Prod.fst := by
  have entries := (listed.listed.symm.trans split).map Prod.swap
  rw [List.map_map, Prod.swap_swap_eq, List.map_id] at entries
  exact ⟨entries, (List.nodup_cons.mp ((entries.map Prod.fst).nodup_iff.mp listed.keys)).1⟩

omit [LinearOrder V] in
/-- An entry is taken out of both maps. -/
theorem Listed.remove (listed : Listed m) (others : List (V × K))
    (split : m.rmap.Perm ((old, k) :: others)) :
    Listed { m with
      map := m.map.filter fun entry => entry.1 ≠ k
      rmap := others } ∧
    (m.map.filter fun entry => entry.1 ≠ k).length + 1 = m.map.length := by
  obtain ⟨entries, absent⟩ := listed.apart m k old others split
  have left : (m.map.filter fun entry => entry.1 ≠ k).Perm (others.map Prod.swap) := by
    refine (entries.filter _).trans ?_
    rw [filter_cons_of_neg (by simp), filter_eq_self.mpr]
    intro entry member
    simpa using fun same : entry.1 = k => absent (same ▸ mem_map_of_mem member)
  refine ⟨⟨listed.keys.sublist (filter_sublist.map _), ?_⟩, ?_⟩
  · have back := (left.map Prod.swap).symm
    rwa [List.map_map, Prod.swap_swap_eq, List.map_id] at back
  · rw [left.length_eq, entries.length_eq, length_cons]

omit [LinearOrder V] in
theorem Listed.found (listed : Listed m) (found : m.map.lookup k = some old) :
    (old, k) ∈ m.rmap := by
  have member : (k, old) ∈ m.map := by
    obtain ⟨before, after, split, -⟩ := lookup_eq_some_iff.mp found
    simp [split]
  exact listed.listed.mem_iff.mpr (mem_map.mpr ⟨(k, old), member, rfl⟩)

theorem Listed.change (listed : Listed m) (member : (old, k) ∈ m.rmap) :
    Listed { m with
      map := m.map.map fun entry => if entry.1 = k then (k, v) else entry
      rmap := insertReverse (v, k) (m.rmap.erase (old, k)) } := by
  obtain ⟨entries, absent⟩ := listed.apart m k old _ (List.perm_cons_erase member)
  have keys : (m.map.map fun entry => if entry.1 = k then (k, v) else entry).map Prod.fst =
      m.map.map Prod.fst := by
    rw [List.map_map]
    refine List.map_congr_left fun entry _ => ?_
    by_cases same : entry.1 = k
    · simp [same]
    · simp [same]
  refine ⟨by rw [keys]; exact listed.keys, (insertReverse_perm _ _).trans ?_⟩
  have changed := entries.map fun entry => if entry.1 = k then (k, v) else entry
  rw [List.map_cons, if_pos rfl] at changed
  have same : ((m.rmap.erase (old, k)).map Prod.swap).map (fun entry =>
      if entry.1 = k then (k, v) else entry) = (m.rmap.erase (old, k)).map Prod.swap :=
    (List.map_congr_left fun entry member =>
      if_neg fun same : entry.1 = k => absent (List.mem_map.mpr ⟨entry, member, same⟩)).trans (List.map_id _)
  rw [same] at changed
  have back := (changed.map Prod.swap).symm
  rwa [List.map_cons, List.map_map, Prod.swap_swap_eq, List.map_id] at back

omit [DecidableEq K] in
theorem Listed.add (listed : Listed m) (fresh : k ∉ m.map.map Prod.fst) :
    Listed { m with
      map := (k, v) :: m.map
      rmap := insertReverse (v, k) m.rmap } :=
  ⟨nodup_cons.mpr ⟨fresh, listed.keys⟩,
    (insertReverse_perm _ _).trans (listed.listed.cons (v, k))⟩

omit [LinearOrder V] in
theorem shrink_spec (s rounds : Nat) (listed : Listed m) (enough : m.map.length ≤ rounds) :
    ∃ next, m.shrink s rounds = some next ∧ Listed next ∧ next.map.length ≤ s := by
  induction rounds generalizing m with
  | zero =>
    have small : m.map.length ≤ s := by omega
    exact ⟨m, if_pos small, listed, small⟩
  | succ rounds ih =>
    rw [LimitedMap.shrink]
    by_cases small : m.map.length ≤ s
    · exact ⟨m, if_pos small, listed, small⟩
    rw [if_neg small, LimitedMap.evict]
    have sizes := listed.listed.length_eq
    rw [length_map] at sizes
    cases first : m.rmap with
    | nil =>
      rw [first, length_nil] at sizes
      omega
    | cons entry rest =>
      obtain ⟨kept, shorter⟩ := listed.remove m entry.2 entry.1 rest (by rw [first])
      exact ih _ kept (by dsimp only; omega)

end Entries

/-- What an operation does to a map that is listed and within its limit. -/
theorem correct_iff (m : LimitedMap K V) (operation : Operation K V) (listed : Listed m)
    (bounded : Bounded m) : Correct m operation ↔ HasRoom m operation := by
  cases operation with
  | insert k v =>
    by_cases fresh : k ∈ m.map.map Prod.fst
    · refine iff_of_true ⟨m, if_pos fresh, listed, bounded, ?_⟩ ?_
      · rintro _ _ ⟨⟩ absent
        exact absurd fresh absent
      · rintro _ _ ⟨⟩ absent
        exact absurd fresh absent
    constructor
    · rintro ⟨next, taken, -, limited, highest⟩ _ _ ⟨⟩ -
      by_contra full
      rw [not_or, Nat.not_lt] at full
      have kept := highest k v rfl fresh
      simp only [step, LimitedMap.insert, if_neg fresh, List.length_cons] at taken
      by_cases exact : m.map.length + 1 = m.nMaxSize
      · -- The map is one entry short of its limit, and one is evicted.
        rw [if_pos ⟨full.1, exact⟩, LimitedMap.evict] at taken
        rw [KeepsHighest, if_neg (by omega)] at kept
        cases first : m.rmap with
        | nil => simp [first] at taken
        | cons entry rest =>
          simp only [first, Option.bind_eq_bind, Option.bind_some, Option.pure_def,
            Option.some.injEq] at taken
          obtain ⟨other, member, rfl⟩ :=
            List.mem_map.mp (listed.listed.mem_iff.mp (first ▸ List.mem_cons_self))
          have shorter : next.map.length < ((k, v) :: m.map).length := by
            rw [← taken]
            exact List.length_filter_lt_length_iff_exists.mpr
              ⟨_, List.mem_cons_of_mem _ member, by simp⟩
          exact absurd kept.length_eq (by omega)
      · -- The map is full, and nothing is evicted.
        rw [if_neg (by omega)] at taken
        simp only [Option.bind_eq_bind, Option.bind_some, Option.pure_def,
          Option.some.injEq] at taken
        have above := limited (by rw [← taken]; exact full.1)
        rw [← taken] at above
        have within := bounded full.1
        simp only [List.length_cons] at above
        omega
    · intro room
      have space := room k v rfl fresh
      refine ⟨_, ?_, listed.add m k v fresh, ?_, ?_⟩
      · simp only [step, LimitedMap.insert, if_neg fresh, List.length_cons]
        rw [if_neg (by omega)]
        rfl
      · intro limited
        simp only [List.length_cons] at limited ⊢
        omega
      · rintro _ _ ⟨⟩ -
        rw [KeepsHighest, if_neg (by omega)]
  | erase k =>
    refine iff_of_true ?_ (by rintro _ _ ⟨⟩)
    cases found : m.map.lookup k with
    | none =>
      exact ⟨m, by simp [step, LimitedMap.erase, found], listed, bounded, by rintro _ _ ⟨⟩⟩
    | some old =>
      have member := listed.found m k old found
      obtain ⟨kept, shorter⟩ := listed.remove m k old _ (List.perm_cons_erase member)
      refine ⟨_, by simp only [step, LimitedMap.erase, found, if_pos member], kept, ?_,
        by rintro _ _ ⟨⟩⟩
      intro limited
      have within := bounded limited
      dsimp only
      omega
  | update k v =>
    refine iff_of_true ?_ (by rintro _ _ ⟨⟩)
    cases found : m.map.lookup k with
    | none =>
      exact ⟨m, by simp [step, LimitedMap.update, found], listed, bounded, by rintro _ _ ⟨⟩⟩
    | some old =>
      have member := listed.found m k old found
      refine ⟨_, by simp only [step, LimitedMap.update, found, if_pos member],
        listed.change m k old v member, ?_, by rintro _ _ ⟨⟩⟩
      intro limited
      rw [List.length_map]
      exact bounded limited
  | maxSize s =>
    refine iff_of_true ?_ (by rintro _ _ ⟨⟩)
    by_cases unlimited : s = 0
    · exact ⟨{ m with nMaxSize := s }, by simp [step, LimitedMap.maxSize, unlimited],
        ⟨listed.keys, listed.listed⟩, fun limited => absurd unlimited limited, by rintro _ _ ⟨⟩⟩
    · obtain ⟨next, shrunk, kept, small⟩ := shrink_spec m s m.map.length listed (Nat.le_refl _)
      exact ⟨{ next with nMaxSize := s }, by simp [step, LimitedMap.maxSize, unlimited, shrunk],
        ⟨kept.keys, kept.listed⟩, fun _ => small, by rintro _ _ ⟨⟩⟩

/-- Every operation of a run does what the map is for exactly if every new entry leaves the map
below its limit. -/
theorem limitedmap_correct_iff (nMaxSize : Nat) (operations : List (Operation K V)) :
    AllSteps step Correct (limitedmap nMaxSize) operations ↔
      AllSteps step HasRoom (limitedmap nMaxSize) operations := by
  have initially : Listed (limitedmap nMaxSize : LimitedMap K V) ∧
      Bounded (limitedmap nMaxSize : LimitedMap K V) :=
    ⟨⟨nodup_nil, List.Perm.refl _⟩, fun _ => Nat.zero_le _⟩
  have preserved (m : LimitedMap K V) (operation : Operation K V) (next : LimitedMap K V)
      (correct : Correct m operation) (taken : step m operation = some next) :
      Listed next ∧ Bounded next := by
    obtain ⟨other, same, kept, limited, -⟩ := correct
    rw [taken] at same
    cases same
    exact ⟨kept, limited⟩
  constructor
  · exact all_steps_of_guarded_run step _ _ (fun m => Listed m ∧ Bounded m)
      (fun m operation next _ => preserved m operation next)
      (fun m operation kept => (correct_iff m operation kept.1 kept.2).mp) _ _ initially
  · exact all_steps_of_guarded_run step _ _ (fun m => Listed m ∧ Bounded m)
      (fun m operation next kept room => preserved m operation next
        ((correct_iff m operation kept.1 kept.2).mpr room))
      (fun m operation kept => (correct_iff m operation kept.1 kept.2).mpr) _ _ initially

/-- A map of two entries loses the higher of two. -/
theorem second_entry_evicts : ¬ ∀ (nMaxSize : Nat) (operations : List (Operation Nat Nat)),
    1 ≤ nMaxSize → AllSteps step Correct (limitedmap nMaxSize) operations := by
  intro correct
  have second := (correct 2 [.insert 1 10, .insert 2 5] (by decide)).2 ⟨[(1, 10)], [(10, 1)], 2⟩ rfl
  obtain ⟨next, taken, -, -, highest⟩ := second.1
  cases taken
  exact absurd (highest 2 5 rfl (by decide)).length_eq (by decide)

end ZenonCore.LimitedMaps
