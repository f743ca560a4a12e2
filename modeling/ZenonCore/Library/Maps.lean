import Mathlib.Data.List.AList

/-!
# Writing to several keys of a map

Operations of `std::map` on association lists without repeated keys.
-/

namespace ZenonCore.Library.Maps

open List Option

variable {κ : Type*} [DecidableEq κ] {β : Type*}

def insertNew (map : AList fun _ : κ => β) (key : κ) (value : β) : AList fun _ : κ => β :=
  if key ∈ map then map else map.insert key value

def insertAll (value : β) (keys : List κ) (map : AList fun _ : κ => β) : AList fun _ : κ => β :=
  keys.foldl (fun map key => insertNew map key value) map

def eraseAll (keys : List κ) (map : AList fun _ : κ => β) : AList fun _ : κ => β :=
  keys.foldl (fun map key => map.erase key) map

def adjust (change : β → β) (key : κ) (map : AList fun _ : κ => β) : AList fun _ : κ => β :=
  match map.lookup key with
  | none => map
  | some value => map.insert key (change value)

def mapValues (change : β → β) (map : AList fun _ : κ => β) : AList fun _ : κ => β where
  entries := map.entries.map fun entry => ⟨entry.1, change entry.2⟩
  nodupKeys := by
    rw [List.NodupKeys, List.keys, List.map_map]
    exact map.nodupKeys

theorem lookup_insertNew (map : AList fun _ : κ => β) (key other : κ) (value : β) :
    (insertNew map key value).lookup other =
      (map.lookup other).or (if other = key then some value else none) := by
  unfold insertNew
  by_cases present : key ∈ map
  · rw [if_pos present]
    by_cases same : other = key
    · rw [← same] at present
      obtain ⟨found, entry⟩ := isSome_iff_exists.mp (AList.lookup_isSome.mpr present)
      rw [entry, some_or]
    · rw [if_neg same, or_none]
  · rw [if_neg present]
    by_cases same : other = key
    · have missing : map.lookup other = none := by
        rw [same]
        exact AList.lookup_eq_none.mpr present
      rw [missing, same, AList.lookup_insert, if_pos rfl, none_or]
    · rw [AList.lookup_insert_ne same, if_neg same, or_none]

theorem lookup_insertAll (value : β) (keys : List κ) (map : AList fun _ : κ => β) (key : κ) :
    (insertAll value keys map).lookup key =
      (map.lookup key).or (if key ∈ keys then some value else none) := by
  unfold insertAll
  induction keys generalizing map with
  | nil => rw [if_neg not_mem_nil, or_none]; rfl
  | cons first rest ih =>
    rw [List.foldl_cons, ih, lookup_insertNew, Option.or_assoc]
    congr 1
    by_cases here : key = first
    · rw [if_pos here, if_pos (mem_cons.mpr (Or.inl here)), some_or]
    · rw [if_neg here, none_or]
      apply if_congr _ rfl rfl
      rw [mem_cons]
      exact (or_iff_right here).symm

theorem insertAll_some (value found : β) (keys : List κ) (map : AList fun _ : κ => β) (key : κ)
    (entry : (insertAll value keys map).lookup key = some found) :
    map.lookup key = some found ∨ key ∈ keys ∧ key ∉ map ∧ found = value := by
  rw [lookup_insertAll] at entry
  cases present : map.lookup key with
  | some old =>
    rw [present, some_or] at entry
    exact Or.inl entry
  | none =>
    rw [present, none_or] at entry
    split at entry
    · rename_i listed
      exact Or.inr ⟨listed, AList.lookup_eq_none.mp present, (some.inj entry).symm⟩
    · cases entry

theorem lookup_eraseAll (keys : List κ) (map : AList fun _ : κ => β) (key : κ) :
    (eraseAll keys map).lookup key = if key ∈ keys then none else map.lookup key := by
  unfold eraseAll
  induction keys generalizing map with
  | nil => rw [if_neg not_mem_nil]; rfl
  | cons first rest ih =>
    rw [foldl_cons, ih]
    by_cases here : key = first
    · rw [if_pos (mem_cons.mpr (Or.inl here)), here, AList.lookup_erase, ite_self]
    · rw [AList.lookup_erase_ne here]
      apply if_congr _ rfl rfl
      rw [mem_cons]
      exact (or_iff_right here).symm

variable (change : β → β) (key other : κ) (map : AList fun _ : κ => β)

theorem lookup_adjust :
    (adjust change key map).lookup other =
      if other = key then (map.lookup other).map change else map.lookup other := by
  unfold adjust
  by_cases same : other = key
  · rw [if_pos same, same]
    cases found : map.lookup key with
    | none => exact found
    | some value => exact AList.lookup_insert map
  · rw [if_neg same]
    split
    · rfl
    · exact AList.lookup_insert_ne same

theorem mem_adjust :
    other ∈ adjust change key map ↔ other ∈ map := by
  rw [← AList.lookup_isSome, ← AList.lookup_isSome, lookup_adjust]
  split
  · rw [isSome_map]
  · rfl

theorem lookup_mapValues (change : β → β) (map : AList fun _ : κ => β) (key : κ) :
    (mapValues change map).lookup key = (map.lookup key).map change := by
  apply ext
  intro value
  rw [map_eq_some_iff]
  constructor
  · intro found
    obtain ⟨entry, member, same⟩ := mem_map.mp (AList.mem_lookup_iff.mp found)
    cases same
    exact ⟨entry.2, AList.mem_lookup_iff.mpr member, rfl⟩
  · intro found
    obtain ⟨before, stored, changed⟩ := found
    rw [← changed]
    exact AList.mem_lookup_iff.mpr
      (mem_map.mpr ⟨⟨key, before⟩, AList.mem_lookup_iff.mp stored, rfl⟩)

def Everywhere (property : κ → β → Prop) (map : AList fun _ : κ => β) : Prop :=
  ∀ key value, map.lookup key = some value → property key value

theorem entries_eraseAll (keys : List κ) (map : AList fun _ : κ => β) :
    (eraseAll keys map).entries = map.entries.filter fun entry => decide (entry.1 ∉ keys) := by
  have one : ∀ (key : κ) (entries : List (Sigma fun _ : κ => β)), entries.NodupKeys →
      entries.kerase key = entries.filter fun entry => decide (entry.1 ≠ key) := by
    intro key entries distinct
    induction entries with
    | nil => rfl
    | cons entry rest ih =>
      obtain ⟨absent, restDistinct⟩ := nodupKeys_cons.mp distinct
      by_cases same : key = entry.1
      · have others : rest.filter (fun other => decide (other.1 ≠ key)) = rest := by
          apply filter_eq_self.mpr
          intro other member
          apply decide_eq_true
          intro equal
          rw [← same, ← equal] at absent
          exact absent (mem_keys_of_mem member)
        rw [kerase_cons_eq same, filter_cons_of_neg (by simp [same]), others]
      · have differs : entry.1 ≠ key := fun equal => same equal.symm
        rw [kerase_cons_ne same, ih restDistinct,
          filter_cons_of_pos (by simpa using differs)]
  unfold eraseAll
  induction keys generalizing map with
  | nil =>
    have all : ∀ entry ∈ map.entries, decide (entry.1 ∉ ([] : List κ)) = true :=
      fun entry _ => decide_eq_true not_mem_nil
    exact (filter_eq_self.mpr all).symm
  | cons first rest ih =>
    have erased : (map.erase first).entries =
        map.entries.filter fun entry => decide (entry.1 ≠ first) :=
      one first map.entries map.nodupKeys
    rw [List.foldl_cons, ih, erased, List.filter_filter]
    apply filter_congr
    intro entry _
    simp [mem_cons, not_or, Bool.and_comm]

def itemsOf (le : κ → κ → Bool) (map : AList fun _ : κ => β) : List (κ × β) :=
  (map.entries.map fun entry => (entry.1, entry.2)).mergeSort fun first second =>
    le first.1 second.1

def ofItems (items : List (κ × β)) : AList fun _ : κ => β :=
  items.foldl (fun map item => insertNew map item.1 item.2) ∅

variable (le : κ → κ → Bool) (map : AList fun _ : κ => β)

omit [DecidableEq κ] in
theorem mem_itemsOf (item : κ × β) :
    item ∈ itemsOf le map ↔ ⟨item.1, item.2⟩ ∈ map.entries := by
  unfold itemsOf
  rw [(mergeSort_perm _ _).mem_iff, List.mem_map]
  constructor
  · intro listed
    obtain ⟨entry, member, same⟩ := listed
    rw [← same]
    exact member
  · intro member
    exact ⟨_, member, rfl⟩

theorem entries_ofItems (items : List (κ × β)) (distinct : (items.map Prod.fst).Nodup) :
    (ofItems items).entries.Perm (items.map fun item => ⟨item.1, item.2⟩) := by
  have loop : ∀ (items : List (κ × β)) (map : AList fun _ : κ => β),
      (items.map Prod.fst).Nodup → (∀ item ∈ items, item.1 ∉ map) →
      (items.foldl (fun map item => insertNew map item.1 item.2) map).entries.Perm
        ((items.map fun item => ⟨item.1, item.2⟩) ++ map.entries) := by
    intro items
    induction items with
    | nil =>
      intro map _ _
      exact List.Perm.refl _
    | cons item rest ih =>
      intro map distinct fresh
      rw [map_cons] at distinct
      obtain ⟨notLater, restDistinct⟩ := nodup_cons.mp distinct
      obtain ⟨absent, restFresh⟩ := forall_mem_cons.mp fresh
      have inserted : insertNew map item.1 item.2 = map.insert item.1 item.2 := if_neg absent
      rw [foldl_cons, inserted]
      have later : ∀ other ∈ rest, other.1 ∉ map.insert item.1 item.2 := by
        intro other member present
        obtain same | old := (AList.mem_insert map).mp present
        · exact notLater (mem_map.mpr ⟨other, member, same⟩)
        · exact restFresh other member old
      apply (ih _ restDistinct later).trans
      rw [AList.entries_insert_of_notMem absent]
      exact perm_middle
  have whole := loop items ∅ distinct fun item _ => AList.notMem_empty item.1
  rw [AList.empty_entries, append_nil] at whole
  exact whole

theorem ofItems_itemsOf :
    (ofItems (itemsOf le map)).entries.Perm map.entries := by
  have sorted : (itemsOf le map).Perm (map.entries.map fun entry => (entry.1, entry.2)) :=
    List.mergeSort_perm _ _
  have distinct : ((itemsOf le map).map Prod.fst).Nodup := by
    rw [(sorted.map Prod.fst).nodup_iff, List.map_map]
    exact map.nodupKeys
  apply (entries_ofItems _ distinct).trans
  apply (sorted.map fun item => (⟨item.1, item.2⟩ : Sigma fun _ : κ => β)).trans
  rw [List.map_map]
  exact List.Perm.of_eq (List.map_id _)

section Everywhere

variable {property : κ → β → Prop} {map : AList fun _ : κ => β}

theorem everywhere_empty : Everywhere property (∅ : AList fun _ : κ => β) := by
  intro key value found
  cases found

theorem Everywhere.mono {other : κ → β → Prop} (holds : Everywhere property map)
    (implies : ∀ key value, property key value → other key value) : Everywhere other map := by
  intro key value found
  exact implies key value (holds key value found)

theorem Everywhere.insert (holds : Everywhere property map) (key : κ) (value : β)
    (new : property key value) : Everywhere property (map.insert key value) := by
  intro other found entry
  by_cases same : other = key
  · rw [same] at entry ⊢
    have stored := (AList.lookup_insert map).symm.trans entry
    rw [← some.inj stored]
    exact new
  · exact holds other found ((AList.lookup_insert_ne same).symm.trans entry)

theorem Everywhere.insertNew (holds : Everywhere property map) (key : κ) (value : β)
    (new : key ∉ map → property key value) : Everywhere property (insertNew map key value) := by
  unfold Maps.insertNew
  split
  · exact holds
  · rename_i free
    exact holds.insert key value (new free)

/-- The entry that changes gets the other property, and so does every entry
that stays. -/
theorem Everywhere.adjust {other : κ → β → Prop} (holds : Everywhere property map)
    (change : β → β) (key : κ) (kept : ∀ key value, property key value → other key value)
    (changed : ∀ value, property key value → other key (change value)) :
    Everywhere other (adjust change key map) := by
  intro someKey found entry
  rw [lookup_adjust] at entry
  split at entry
  · rename_i same
    obtain ⟨value, before, result⟩ := map_eq_some_iff.mp entry
    rw [← result, same]
    rw [same] at before
    exact changed value (holds key value before)
  · exact kept someKey found (holds someKey found entry)

theorem Everywhere.mapValues {other : κ → β → Prop} (holds : Everywhere property map)
    (change : β → β) (changed : ∀ key value, property key value → other key (change value)) :
    Everywhere other (mapValues change map) := by
  intro key found entry
  rw [lookup_mapValues] at entry
  obtain ⟨value, before, result⟩ := map_eq_some_iff.mp entry
  rw [← result]
  exact changed key value (holds key value before)

end Everywhere

end ZenonCore.Library.Maps
