import Mathlib.Data.List.Lex
import Mathlib.Data.List.Sort

/-!
# Stores in the order of their keys

A scan of a gapless set of keys that begins below it and ends at the first key outside returns
every record.
-/

namespace ZenonCore.Library.OrderedStores

open List

universe u v

structure OrderedStore (κ : Type u) [LinearOrder κ] (β : Type v) where
  records : List (κ × β)
  ordered : records.Pairwise fun first second => first.1 < second.1

namespace OrderedStore

variable {κ : Type u} [LinearOrder κ] {β : Type v}

def empty : OrderedStore κ β := ⟨[], List.Pairwise.nil⟩

def read (store : OrderedStore κ β) (key : κ) : Option β :=
  (store.records.find? fun record => record.1 = key).map Prod.snd

def erase (store : OrderedStore κ β) (key : κ) : OrderedStore κ β where
  records := store.records.filter fun record => record.1 ≠ key
  ordered := store.ordered.filter _

def write (store : OrderedStore κ β) (key : κ) (value : β) : OrderedStore κ β where
  records := (store.records.filter fun record => record.1 < key) ++
    (key, value) :: store.records.filter fun record => key < record.1
  ordered := by
    apply List.pairwise_append.mpr
    refine ⟨store.ordered.filter _, List.pairwise_cons.mpr ⟨?_, store.ordered.filter _⟩, ?_⟩
    · intro record after
      exact of_decide_eq_true (List.mem_filter.mp after).2
    · intro before isBefore after isAfter
      have less : before.1 < key := of_decide_eq_true (List.mem_filter.mp isBefore).2
      obtain here | later := List.mem_cons.mp isAfter
      · rw [here]
        exact less
      · exact lt_trans less (of_decide_eq_true (List.mem_filter.mp later).2)

def choose {γ : Type v} (store : OrderedStore κ β) (keep : κ × β → Bool) (value : β → γ) :
    OrderedStore κ γ where
  records := (store.records.filter keep).map fun record => (record.1, value record.2)
  ordered := List.pairwise_map.mpr (store.ordered.filter keep)

/-- Walks over the records from where an iterator stands, which has moved on before the
record under it is erased. -/
def eraseWhere (lost : κ × β → Bool) :
    List (κ × β) → OrderedStore κ β → OrderedStore κ β
  | [], store => store
  | here :: ahead, store =>
    eraseWhere lost ahead (if lost here then store.erase here.1 else store)

def seek (store : OrderedStore κ β) (key : κ) : List (κ × β) :=
  store.records.dropWhile fun record => record.1 < key

variable (store : OrderedStore κ β)

variable (key : κ)

theorem mem_erase (record : κ × β) :
    record ∈ (store.erase key).records ↔ record ∈ store.records ∧ record.1 ≠ key := by
  unfold erase
  rw [mem_filter, decide_eq_true_eq]

theorem mem_eraseAll (keys : List κ) (store : OrderedStore κ β) (record : κ × β) :
    record ∈ (keys.foldl erase store).records ↔ record ∈ store.records ∧ record.1 ∉ keys := by
  induction keys generalizing store with
  | nil => simp
  | cons key rest ih =>
    rw [foldl_cons, ih, mem_erase, mem_cons, not_or, and_assoc]

theorem eq_of_key (first second : κ × β)
    (firstIn : first ∈ store.records) (secondIn : second ∈ store.records)
    (same : first.1 = second.1) : first = second := by
  have ordered := store.ordered
  generalize store.records = records at firstIn secondIn ordered
  induction records with
  | nil => cases firstIn
  | cons least rest ih =>
    obtain ⟨below, orderedRest⟩ := pairwise_cons.mp ordered
    obtain firstHere | firstLater := mem_cons.mp firstIn
    · obtain secondHere | secondLater := mem_cons.mp secondIn
      · rw [firstHere, secondHere]
      · rw [firstHere] at same
        exact absurd same (ne_of_lt (below second secondLater))
    · obtain secondHere | secondLater := mem_cons.mp secondIn
      · rw [secondHere] at same
        exact absurd same.symm (ne_of_lt (below first firstLater))
      · exact ih firstLater secondLater orderedRest

theorem records_eq_of_mem_iff (first second : OrderedStore κ β)
    (same : ∀ record, record ∈ first.records ↔ record ∈ second.records) :
    first.records = second.records := by
  have irreflexive : Std.Irrefl fun one other : κ × β => one.1 < other.1 :=
    ⟨fun record => lt_irrefl record.1⟩
  have antisymmetric : Std.Antisymm fun one other : κ × β => one.1 < other.1 :=
    ⟨fun one other before after => absurd after (lt_asymm before)⟩
  exact first.ordered.eq_of_mem_iff second.ordered fun record => same record

theorem read_eq_some (value : β) :
    store.read key = some value ↔ (key, value) ∈ store.records := by
  unfold read
  constructor
  · intro found
    obtain ⟨record, isFirst, isValue⟩ := Option.map_eq_some_iff.mp found
    have isKey : record.1 = key := by simpa using find?_some isFirst
    rw [← isKey, ← isValue]
    exact mem_of_find?_eq_some isFirst
  · intro member
    cases first : store.records.find? fun record => record.1 = key with
    | none =>
      have other := find?_eq_none.mp first (key, value) member
      exact absurd (decide_eq_true rfl) other
    | some record =>
      have isKey : record.1 = key := by simpa using find?_some first
      rw [eq_of_key store record (key, value) (mem_of_find?_eq_some first) member isKey]
      rfl

theorem mem_write (value : β) (record : κ × β) :
    record ∈ (store.write key value).records ↔
      record = (key, value) ∨ record ∈ store.records ∧ record.1 ≠ key := by
  unfold write
  rw [mem_append, mem_cons, mem_filter, mem_filter, decide_eq_true_eq,
    decide_eq_true_eq, ne_iff_lt_or_gt]
  constructor
  · rintro (⟨member, less⟩ | here | ⟨member, greater⟩)
    · exact Or.inr ⟨member, Or.inl less⟩
    · exact Or.inl here
    · exact Or.inr ⟨member, Or.inr greater⟩
  · rintro (here | ⟨member, less | greater⟩)
    · exact Or.inr (Or.inl here)
    · exact Or.inl ⟨member, less⟩
    · exact Or.inr (Or.inr ⟨member, greater⟩)

theorem read_write (key other : κ) (value : β) :
    (store.write key value).read other = if other = key then some value else store.read other := by
  apply Option.ext
  intro found
  rw [read_eq_some, mem_write]
  split
  · rename_i same
    rw [same]
    simp [eq_comm]
  · rename_i differs
    rw [read_eq_some]
    simp [differs]

theorem read_write_self (value : β) :
    (store.write key value).read key = some value := by
  rw [read_write, if_pos rfl]

theorem read_erase (key other : κ) :
    (store.erase key).read other = if other = key then none else store.read other := by
  apply Option.ext
  intro found
  rw [read_eq_some, mem_erase]
  split
  · rename_i same
    simp [same]
  · rename_i differs
    rw [read_eq_some]
    simp [differs]

theorem read_choose {γ : Type v} (store : OrderedStore κ β) (keep : κ × β → Bool) (value : β → γ)
    (key : κ) : (store.choose keep value).read key =
      ((store.read key).filter fun found => keep (key, found)).map value := by
  apply Option.ext
  intro chosen
  rw [read_eq_some, Option.map_eq_some_iff]
  simp only [Option.filter_eq_some_iff, read_eq_some, choose, mem_map, mem_filter,
    Prod.exists, Prod.mk.injEq]
  constructor
  · rintro ⟨_, found, ⟨member, kept⟩, rfl, isValue⟩
    exact ⟨found, ⟨member, kept⟩, isValue⟩
  · rintro ⟨found, ⟨member, kept⟩, isValue⟩
    exact ⟨key, found, ⟨member, kept⟩, rfl, isValue⟩

theorem records_eq_nil (nothing : ∀ key, store.read key = none) :
    store.records = [] := by
  apply eq_nil_iff_forall_not_mem.mpr
  intro record member
  have found := (read_eq_some store record.1 record.2).mpr member
  rw [nothing] at found
  cases found

theorem read_isSome :
    (store.read key).isSome = true ↔ key ∈ store.records.map Prod.fst := by
  rw [Option.isSome_iff_exists, mem_map]
  constructor
  · intro found
    obtain ⟨value, isRead⟩ := found
    exact ⟨(key, value), (read_eq_some store key value).mp isRead, rfl⟩
  · intro found
    obtain ⟨record, member, same⟩ := found
    refine ⟨record.2, (read_eq_some store key record.2).mpr ?_⟩
    rw [← same]
    exact member

theorem keys_nodup : (store.records.map Prod.fst).Nodup := by
  apply List.Pairwise.imp _ (pairwise_map.mpr store.ordered)
  intro first second less
  exact ne_of_lt less

theorem mem_eraseWhere_ahead (lost : κ × β → Bool) (ahead : List (κ × β))
    (store : OrderedStore κ β) (record : κ × β) :
    record ∈ (eraseWhere lost ahead store).records ↔
      record ∈ store.records ∧ ∀ other ∈ ahead, lost other = true → record.1 ≠ other.1 := by
  induction ahead generalizing store with
  | nil => simp [eraseWhere]
  | cons here ahead ih =>
    unfold eraseWhere
    rw [ih, forall_mem_cons]
    by_cases isLost : lost here = true
    · rw [if_pos isLost, mem_erase, and_assoc]
      simp [isLost]
    · rw [if_neg isLost]
      simp [isLost]

theorem mem_eraseWhere (lost : κ × β → Bool) (store : OrderedStore κ β) (record : κ × β) :
    record ∈ (eraseWhere lost store.records store).records ↔
      record ∈ store.records ∧ lost record = false := by
  rw [mem_eraseWhere_ahead]
  constructor
  · intro kept
    refine ⟨kept.1, Bool.eq_false_iff.mpr fun isLost => ?_⟩
    exact kept.2 record kept.1 isLost rfl
  · intro kept
    refine ⟨kept.1, fun other otherIn otherLost same => ?_⟩
    rw [eq_of_key store record other kept.1 otherIn same, otherLost] at kept
    cases kept.2

theorem seek_ordered :
    (store.seek key).Pairwise fun first second => first.1 < second.1 :=
  store.ordered.sublist (dropWhile_sublist _)

theorem mem_seek (record : κ × β) :
    record ∈ store.seek key ↔ record ∈ store.records ∧ key ≤ record.1 := by
  unfold seek
  have ordered := store.ordered
  generalize store.records = records at ordered
  induction records with
  | nil => simp
  | cons first rest ih =>
    obtain ⟨below, orderedRest⟩ := pairwise_cons.mp ordered
    by_cases before : first.1 < key
    · rw [dropWhile_cons, if_pos (decide_eq_true before), mem_cons]
      refine (ih orderedRest).trans ?_
      constructor
      · intro found
        exact ⟨Or.inr found.1, found.2⟩
      · intro found
        obtain here | later := found.1
        · rw [here] at found
          exact absurd found.2 (not_le.mpr before)
        · exact ⟨later, found.2⟩
    · rw [dropWhile_cons, if_neg (by rwa [decide_eq_true_eq])]
      constructor
      · intro member
        refine ⟨member, ?_⟩
        obtain here | later := mem_cons.mp member
        · rw [here]
          exact not_lt.mp before
        · exact le_trans (not_lt.mp before) (le_of_lt (below record later))
      · intro found
        exact found.1

/-- In an ordered list a set of keys without gaps, that begins at the front, is read
up to the first key outside. -/
theorem mem_takeWhile (inside : κ → Bool) (records : List (κ × β))
    (ordered : records.Pairwise fun first second => first.1 < second.1)
    (noGap : ∀ first ∈ records, ∀ second ∈ records, first.1 < second.1 →
      inside second.1 = true → inside first.1 = true) (record : κ × β) :
    record ∈ records.takeWhile (fun record => inside record.1) ↔
      record ∈ records ∧ inside record.1 = true := by
  induction records with
  | nil => simp
  | cons first rest ih =>
    obtain ⟨below, orderedRest⟩ := pairwise_cons.mp ordered
    have restNoGap : ∀ one ∈ rest, ∀ other ∈ rest, one.1 < other.1 →
        inside other.1 = true → inside one.1 = true :=
      fun one oneIn other otherIn =>
        noGap one (mem_cons_of_mem _ oneIn) other (mem_cons_of_mem _ otherIn)
    by_cases starts : inside first.1 = true
    · rw [takeWhile_cons, if_pos starts, mem_cons, mem_cons,
        ih orderedRest restNoGap]
      constructor
      · intro either
        obtain here | later := either
        · rw [here]
          exact ⟨Or.inl rfl, starts⟩
        · exact ⟨Or.inr later.1, later.2⟩
      · intro found
        exact found.1.imp id fun later => ⟨later, found.2⟩
    · rw [takeWhile_cons, if_neg starts]
      constructor
      · intro none
        cases none
      · intro found
        obtain here | later := mem_cons.mp found.1
        · rw [here] at found
          exact absurd found.2 starts
        · exact absurd (noGap first mem_cons_self record (mem_cons_of_mem _ later)
            (below record later) found.2) starts

end OrderedStore

end ZenonCore.Library.OrderedStores
