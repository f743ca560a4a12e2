import Mathlib.Data.List.Sort

/-!
# A map and its inverse

Records under names have lists of keys; a second map leads from a key to the ordered set of
the names that have it.
-/

namespace ZenonCore.Library.InverseIndex

variable {κ α ρ : Type} [DecidableEq κ] [DecidableEq α]

abbrev Index (κ α : Type) := κ → Option (List α)

def members (index : Index κ α) (key : κ) : List α := (index key).getD []

section Linking

variable (before : α → α → Prop) [DecidableRel before]

def insertInto (set : List α) (name : α) : List α :=
  if name ∈ set then set else set.orderedInsert before name

/-- The name is put under a key, which gets an entry if it has none. -/
def link (name : α) (index : Index κ α) (key : κ) : Index κ α := fun other =>
  if other = key then some (insertInto before (members index key) name) else index other

def linkAll (name : α) (keys : List κ) (index : Index κ α) : Index κ α :=
  keys.foldl (link before name) index

theorem mem_insertInto (set : List α) (name other : α) :
    other ∈ insertInto before set name ↔ other ∈ set ∨ other = name := by
  unfold insertInto
  split
  · rename_i there
    constructor
    · exact Or.inl
    · intro either
      obtain inSet | same := either
      · exact inSet
      · rw [same]
        exact there
  · rw [List.mem_orderedInsert]
    exact or_comm

end Linking

/-- The name is taken from under a key, and an empty entry is erased. -/
def unlink (name : α) (index : Index κ α) (key : κ) : Index κ α := fun other =>
  if other = key then
    match index key with
    | none => none
    | some set =>
      let left := set.filter fun member => member ≠ name
      if left.isEmpty then none else some left
  else index other

def unlinkAll (name : α) (keys : List κ) (index : Index κ α) : Index κ α :=
  keys.foldl (unlink name) index

def NoEmptySets (index : Index κ α) : Prop := ∀ key, index key ≠ some []

section Linked

variable (before : α → α → Prop) [DecidableRel before]

theorem mem_link (name other : α) (index : Index κ α) (key place : κ) :
    other ∈ members (link before name index key) place ↔
      other ∈ members index place ∨ other = name ∧ place = key := by
  unfold link
  by_cases here : place = key
  · rw [here]
    simp [members, mem_insertInto]
  · simp [members, here]

theorem mem_linkAll (name other : α) (keys : List κ) (index : Index κ α) (place : κ) :
    other ∈ members (linkAll before name keys index) place ↔
      other ∈ members index place ∨ other = name ∧ place ∈ keys := by
  unfold linkAll
  induction keys generalizing index with
  | nil => simp
  | cons key rest ih =>
    rw [List.foldl_cons, ih, mem_link, List.mem_cons]
    tauto

theorem noEmptySets_linkAll (name : α) (keys : List κ) (index : Index κ α)
    (full : NoEmptySets index) : NoEmptySets (linkAll before name keys index) := by
  unfold linkAll
  induction keys generalizing index with
  | nil => exact full
  | cons key rest ih =>
    apply ih
    intro place empty
    unfold link at empty
    split at empty
    · have there : name ∈ insertInto before (members index key) name :=
        (mem_insertInto before _ _ _).mpr (Or.inr rfl)
      rw [Option.some.inj empty] at there
      cases there
    · exact full place empty

end Linked

theorem mem_unlink (name other : α) (index : Index κ α) (key place : κ) :
    other ∈ members (unlink name index key) place ↔
      other ∈ members index place ∧ ¬ (other = name ∧ place = key) := by
  unfold unlink
  by_cases here : place = key
  · rw [here]
    unfold members
    dsimp only
    rw [if_pos rfl]
    cases index key with
    | none => simp
    | some set =>
      have left : ∀ rest : List α,
          (if rest.isEmpty then none else some rest : Option (List α)).getD [] = rest := by
        intro rest
        cases rest <;> rfl
      dsimp only
      rw [left]
      simp
  · simp [members, here]

theorem mem_unlinkAll (name other : α) (keys : List κ) (index : Index κ α) (place : κ) :
    other ∈ members (unlinkAll name keys index) place ↔
      other ∈ members index place ∧ ¬ (other = name ∧ place ∈ keys) := by
  unfold unlinkAll
  induction keys generalizing index with
  | nil => simp
  | cons key rest ih =>
    rw [List.foldl_cons, ih, mem_unlink, List.mem_cons]
    tauto

theorem noEmptySets_unlinkAll (name : α) (keys : List κ) (index : Index κ α)
    (full : NoEmptySets index) : NoEmptySets (unlinkAll name keys index) := by
  unfold unlinkAll
  induction keys generalizing index with
  | nil => exact full
  | cons key rest ih =>
    apply ih
    intro place empty
    unfold unlink at empty
    split at empty
    · split at empty
      · cases empty
      · dsimp only at empty
        split at empty
        · cases empty
        · rename_i nonempty
          rw [Option.some.inj empty] at nonempty
          exact nonempty rfl
    · exact full place empty

/-- A name is under a key exactly if its record has the key. -/
def Inverse (records : α → Option ρ) (keysOf : ρ → List κ) (index : Index κ α) : Prop :=
  ∀ key name, name ∈ members index key ↔ ∃ record, records name = some record ∧ key ∈ keysOf record

section Inverse

variable {records later : α → Option ρ} {keysOf : ρ → List κ} {index : Index κ α}

theorem Inverse.add (before : α → α → Prop) [DecidableRel before]
    (inverse : Inverse records keysOf index) (name : α) (record : ρ) (new : records name = none)
    (stored : later name = some record)
    (others : ∀ other, other ≠ name → later other = records other) :
    Inverse later keysOf (linkAll before name (keysOf record) index) := by
  intro key other
  rw [mem_linkAll, inverse key other]
  by_cases same : other = name
  · rw [same, new, stored]
    simp
  · rw [others other same]
    simp [same]

theorem Inverse.remove (inverse : Inverse records keysOf index) (name : α) (record : ρ)
    (stored : records name = some record) (removed : later name = none)
    (others : ∀ other, other ≠ name → later other = records other) :
    Inverse later keysOf (unlinkAll name (keysOf record) index) := by
  intro key other
  rw [mem_unlinkAll, inverse key other]
  by_cases same : other = name
  · rw [same, removed, stored]
    simp
  · rw [others other same]
    simp [same]

end Inverse

end ZenonCore.Library.InverseIndex
