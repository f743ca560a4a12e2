import ZenonCore.AddrMan
import ZenonCore.Library.PositionLists
import ZenonCore.Library.SlotCounts

/-!
# The invariant of the address manager

An operation that moves an entry between the tables leaves `loose` entries without a reference
for a while; `extra` is by how much the counter of the new entries is behind.
-/

namespace ZenonCore.AddrMan

open Library.OrderedStores Library.PositionLists Library.SlotCounts Primitives Function

section Views

def forget (info : CAddrInfo) : CAddrInfo := { info with nRandomPos := 0 }

def entries (store : OrderedStore Int CAddrInfo) : Int → Option CAddrInfo :=
  Option.map forget ∘ store.read

def positions (store : OrderedStore Int CAddrInfo) : Int → Option Int :=
  Option.map CAddrInfo.nRandomPos ∘ store.read

variable (store : OrderedStore Int CAddrInfo) (n : Int) (info : CAddrInfo)

theorem read_write_update :
    (store.write n info).read = update store.read n (some info) := by
  funext m
  rw [OrderedStore.read_write, update_apply]

@[simp] theorem entries_write :
    entries (store.write n info) = update (entries store) n (some (forget info)) := by
  rw [entries, read_write_update, comp_update]
  rfl

@[simp] theorem positions_write :
    positions (store.write n info) =
      update (positions store) n (some info.nRandomPos) := by
  rw [positions, read_write_update, comp_update]
  rfl

theorem read_erase_update : (store.erase n).read = update store.read n none := by
  funext m
  rw [OrderedStore.read_erase, update_apply]

@[simp] theorem entries_erase :
    entries (store.erase n) = update (entries store) n none := by
  rw [entries, read_erase_update, comp_update]
  rfl

@[simp] theorem positions_erase :
    positions (store.erase n) = update (positions store) n none := by
  rw [positions, read_erase_update, comp_update]
  rfl

variable {store n info}

theorem entries_read (there : store.read n = some info) : entries store n = some (forget info) := by
  rw [entries, comp_apply, there, Option.map_some]

theorem positions_read (there : store.read n = some info) :
    positions store n = some info.nRandomPos := by
  rw [positions, comp_apply, there, Option.map_some]

theorem read_of_entries (there : entries store n = some info) :
    ∃ full, store.read n = some full ∧ forget full = info :=
  Option.map_eq_some_iff.mp there

end Views

section Invariant

variable (net : Network) (nKey : Uint256)

structure Named (entry : Int → Option CAddrInfo) (mapAddr : CNetAddr → Option Int)
    (nIdCount : Int) : Prop where
  start : 0 ≤ nIdCount
  bounds : ∀ n info, entry n = some info → 0 ≤ n ∧ n < nIdCount
  address : ∀ addr n, mapAddr addr = some n ↔ ∃ info, entry n = some info ∧ info.ip = addr

/-- The references in the new table, which are in slots of the entry and counted. -/
structure NewTable (entry : Int → Option CAddrInfo) (vvNew : Table) : Prop where
  placed : ∀ slot n, vvNew slot = n → n ≠ -1 → slot.1 < newBucketCount ∧
    ∃ info, entry n = some info ∧ newSlot net nKey info.toCService slot.1 = slot
  counted : ∀ n info, entry n = some info → info.nRefCount = holding newSlots vvNew n

def TriedTable (entry : Int → Option CAddrInfo) (vvTried : Table) : Prop :=
  ∀ slot n, n ≠ -1 → (vvTried slot = n ↔
    ∃ info, entry n = some info ∧ info.fInTried = true ∧
      triedSlot net nKey info.toCService = slot)

structure Healthy (isLoose : Prop) (info : CAddrInfo) : Prop where
  tried : info.fInTried = true → info.nRefCount = 0 ∧ info.nLastSuccess ≠ 0
  new : info.fInTried = false → info.nRefCount ≤ newBucketsPerAddress ∧
    (¬ isLoose → 0 < info.nRefCount)
  nLastTry : 0 ≤ info.nLastTry
  nLastSuccess : 0 ≤ info.nLastSuccess

def inTried (entry : Int → Option CAddrInfo) : Int → Option Bool :=
  Option.map (fun info => info.fInTried) ∘ entry

structure Counted (entry : Int → Option CAddrInfo) (vRandom : List Int) (nTried nNew : Int) :
    Prop where
  tried : nTried = holding vRandom (inTried entry) (some true)
  new : nNew = holding vRandom (inTried entry) (some false)

structure Sound (loose : Int → Prop) (extra : Int) (man : CAddrMan) : Prop where
  named : Named (entries man.mapInfo) man.mapAddr man.nIdCount
  listed : Listed (positions man.mapInfo) man.vRandom
  newTable : NewTable net man.nKey (entries man.mapInfo) man.vvNew
  triedTable : TriedTable net man.nKey (entries man.mapInfo) man.vvTried
  healthy : ∀ n info, entries man.mapInfo n = some info → Healthy (loose n) info
  counted : Counted (entries man.mapInfo) man.vRandom man.nTried (man.nNew + extra)

variable {net nKey} in
theorem mem_newSlots {slot : Nat × Nat} {info : CService} (inside : slot.1 < newBucketCount)
    (here : newSlot net nKey info slot.1 = slot) : slot ∈ newSlots := by
  rw [← here]
  exact List.pair_mem_product.mpr ⟨List.mem_range.mpr inside,
    List.mem_range.mpr (Nat.mod_lt _ (by decide))⟩

theorem newSlots_nodup : newSlots.Nodup := List.nodup_range.product List.nodup_range

end Invariant

section Changes

variable {net : Network} {nKey : Uint256} {entry : Int → Option CAddrInfo} {n : Int}
  {after : Option CAddrInfo}

theorem update_some (m : Int) (info : CAddrInfo) :
    update entry n after m = some info ↔
      m = n ∧ after = some info ∨ m ≠ n ∧ entry m = some info := by
  rw [update_apply]
  split <;> simp_all

theorem NewTable.change {vvNew vvNew' : Table} (table : NewTable net nKey entry vvNew)
    (others : ∀ slot m, vvNew' slot = m → m ≠ -1 → m ≠ n → vvNew slot = m)
    (own : ∀ slot, vvNew' slot = n → slot.1 < newBucketCount ∧
      ∃ info, after = some info ∧ newSlot net nKey info.toCService slot.1 = slot)
    (same : ∀ m, m ≠ n → m ≠ -1 → holding newSlots vvNew' m = holding newSlots vvNew m)
    (count : ∀ info, after = some info → info.nRefCount = holding newSlots vvNew' n)
    (unset : entry (-1) = none) :
    NewTable net nKey (update entry n after) vvNew' := by
  constructor
  · intro slot m held isId
    by_cases isIt : m = n
    · subst isIt
      rw [update_self]
      exact own slot held
    · rw [update_of_ne isIt]
      exact table.placed slot m (others slot m held isId isIt) isId
  · intro m info there
    obtain ⟨rfl, changed⟩ | ⟨isOther, there⟩ := (update_some m info).mp there
    · exact count info changed
    · have isId : m ≠ -1 := by
        rintro rfl
        rw [unset] at there
        cases there
      rw [same m isOther isId]
      exact table.counted m info there

theorem NewTable.exchange {vvNew : Table} {slot : Nat × Nat} {value : Int}
    {info changed : CAddrInfo} (table : NewTable net nKey entry vvNew) (unset : entry (-1) = none)
    (there : entry n = some info) (before : vvNew slot = n ∨ vvNew slot = -1)
    (entered : value = n ∨ value = -1) (inside : slot.1 < newBucketCount)
    (here : newSlot net nKey info.toCService slot.1 = slot)
    (service : changed.toCService = info.toCService)
    (count : changed.nRefCount + (if vvNew slot = n then 1 else 0) =
      info.nRefCount + (if value = n then 1 else 0)) :
    NewTable net nKey (update entry n (some changed))
      (update vvNew slot value) := by
  have isId : n ≠ -1 := by
    rintro rfl
    rw [unset] at there
    cases there
  have moved (m : Int) := holding_update newSlots newSlots_nodup vvNew slot
    (mem_newSlots inside here) value m
  apply table.change
  · intro other m held isOtherId isOther
    rw [update_apply] at held
    split at held
    · subst held
      exact (entered.elim isOther isOtherId).elim
    · exact held
  · intro other held
    by_cases isSlot : other = slot
    · subst isSlot
      exact ⟨inside, changed, rfl, service.symm ▸ here⟩
    · rw [update_of_ne isSlot] at held
      obtain ⟨inside, full, isFull, place⟩ := table.placed other n held isId
      rw [there] at isFull
      cases isFull
      exact ⟨inside, changed, rfl, service.symm ▸ place⟩
  · intro m isOther isOtherId
    have notBefore : vvNew slot ≠ m := by
      rintro rfl
      exact before.elim isOther isOtherId
    have notEntered : value ≠ m := by
      rintro rfl
      exact entered.elim isOther isOtherId
    have change := moved m
    rw [if_neg notBefore, if_neg notEntered] at change
    omega
  · intro other isIt
    cases isIt
    have change := moved n
    have known := table.counted n info there
    split_ifs at count change <;> omega
  · exact unset

theorem TriedTable.change {vvTried vvTried' : Table} (table : TriedTable net nKey entry vvTried)
    (others : ∀ slot m, m ≠ n → m ≠ -1 → (vvTried' slot = m ↔ vvTried slot = m))
    (own : ∀ slot, vvTried' slot = n ↔ ∃ info, after = some info ∧ info.fInTried = true ∧
      triedSlot net nKey info.toCService = slot) :
    TriedTable net nKey (update entry n after) vvTried' := by
  intro slot m isId
  by_cases isIt : m = n
  · subst isIt
    rw [update_self]
    exact own slot
  · rw [update_of_ne isIt, others slot m isIt isId]
    exact table slot m isId

theorem TriedTable.amend {vvTried : Table} (table : TriedTable net nKey entry vvTried)
    (isId : n ≠ -1)
    (same : (after.bind fun info => if info.fInTried then some info.toCService else none) =
      (entry n).bind fun info => if info.fInTried then some info.toCService else none) :
    TriedTable net nKey (update entry n after) vvTried := by
  have asked (found : Option CAddrInfo) (slot : Nat × Nat) :
      (∃ info, found = some info ∧ info.fInTried = true ∧
        triedSlot net nKey info.toCService = slot) ↔
      ∃ service, (found.bind fun info => if info.fInTried then some info.toCService else none) =
        some service ∧ triedSlot net nKey service = slot := by
    cases found <;> simp
  apply table.change
  · intro slot m _ _
    rfl
  · intro slot
    rw [table slot n isId, asked, asked, same]

theorem TriedTable.exchange {vvTried : Table} {info changed : CAddrInfo}
    (table : TriedTable net nKey entry vvTried) (isId : n ≠ -1) (there : entry n = some info)
    (service : changed.toCService = info.toCService) (flipped : changed.fInTried = !info.fInTried)
    {slot : Nat × Nat} (place : triedSlot net nKey info.toCService = slot)
    (before : vvTried slot = if info.fInTried then n else -1) :
    TriedTable net nKey (update entry n (some changed))
      (update vvTried slot (if info.fInTried then -1 else n)) := by
  subst place
  have known (slot : Nat × Nat) : vvTried slot = n ↔
      info.fInTried = true ∧ triedSlot net nKey info.toCService = slot := by
    rw [table slot n isId, there]
    simp
  apply table.change
  · intro slot m isOther isOtherId
    by_cases isSlot : slot = triedSlot net nKey info.toCService
    · subst isSlot
      rw [update_self, before]
      split <;> simp [Ne.symm isOther, Ne.symm isOtherId]
    · rw [update_of_ne isSlot]
  · intro slot
    simp only [Option.some.injEq, exists_eq_left', flipped, service]
    have here := known slot
    by_cases isSlot : slot = triedSlot net nKey info.toCService
    · subst isSlot
      rw [update_self]
      cases kind : info.fInTried <;> simp [Ne.symm isId]
    · rw [update_of_ne isSlot, here]
      simp [Ne.symm isSlot]

theorem Counted.amend {vRandom : List Int} {nTried nNew : Int}
    (counted : Counted entry vRandom nTried nNew)
    (same : after.map CAddrInfo.fInTried = (entry n).map CAddrInfo.fInTried) :
    Counted (update entry n after) vRandom nTried nNew := by
  have unchanged : inTried (update entry n after) = inTried entry := by
    unfold inTried
    rw [comp_update]
    exact update_eq_self_iff.mpr same
  constructor
  · rw [unchanged]
    exact counted.tried
  · rw [unchanged]
    exact counted.new

theorem Healthy.weaken {isLoose isLoose' : Prop} {info : CAddrInfo}
    (healthy : Healthy isLoose info) (implies : isLoose → isLoose') : Healthy isLoose' info := by
  refine ⟨healthy.tried, fun isNew => ?_, healthy.nLastTry, healthy.nLastSuccess⟩
  obtain ⟨atMost, referenced⟩ := healthy.new isNew
  exact ⟨atMost, fun notLoose => referenced fun isLoose => notLoose (implies isLoose)⟩

theorem healthy_change {loose loose' : Int → Prop}
    (healthy : ∀ m info, entry m = some info → Healthy (loose m) info)
    (others : ∀ m, m ≠ n → loose m → loose' m)
    (own : ∀ info, after = some info → Healthy (loose' n) info) (m : Int) (info : CAddrInfo)
    (there : update entry n after m = some info) : Healthy (loose' m) info := by
  obtain ⟨rfl, changed⟩ | ⟨isOther, there⟩ := (update_some m info).mp there
  · exact own info changed
  · exact (healthy m info there).weaken (others m isOther)

theorem named_write {store : OrderedStore Int CAddrInfo} {mapAddr : CNetAddr → Option Int}
    {nIdCount : Int} {info changed : CAddrInfo} (named : Named (entries store) mapAddr nIdCount)
    (there : store.read n = some info) (sameIp : changed.ip = info.ip) :
    Named (entries (store.write n changed)) mapAddr nIdCount := by
  have before := entries_read there
  rw [entries_write]
  refine ⟨named.start, ?_, ?_⟩
  · intro m other found
    obtain ⟨rfl, _⟩ | ⟨_, found⟩ := (update_some m other).mp found
    · exact named.bounds m _ before
    · exact named.bounds m other found
  · intro addr m
    rw [named.address]
    by_cases isIt : m = n
    · subst isIt
      rw [before, update_self]
      simp [forget, sameIp]
    · rw [update_of_ne isIt]

theorem listed_write {store : OrderedStore Int CAddrInfo} {keys : List Int}
    {info changed : CAddrInfo} (listed : Listed (positions store) keys)
    (there : store.read n = some info) (samePos : changed.nRandomPos = info.nRandomPos) :
    Listed (positions (store.write n changed)) keys := by
  rw [positions_write, samePos, ← positions_read there, update_eq_self]
  exact listed

variable {keys : List Int} {nTried nNew : Int}

theorem Counted.flip {info changed : CAddrInfo}
    (counted : Counted entry keys nTried nNew) (distinct : keys.Nodup) (inside : n ∈ keys)
    (there : entry n = some info) (flipped : changed.fInTried = !info.fInTried) :
    Counted (update entry n (some changed)) keys
      (if info.fInTried then nTried - 1 else nTried + 1)
      (if info.fInTried then nNew + 1 else nNew - 1) := by
  have moved (value : Option Bool) := holding_update keys distinct (inTried entry) n inside
    (some changed.fInTried) value
  have is : inTried entry n = some info.fInTried := by simp [inTried, there]
  have table : inTried (update entry n (some changed)) =
      update (inTried entry) n (some changed.fInTried) := by
    unfold inTried
    rw [comp_update]
    rfl
  have movedTrue := moved (some true)
  have movedFalse := moved (some false)
  rw [is, flipped] at movedTrue movedFalse
  have tried := counted.tried
  have new := counted.new
  constructor
  · rw [table, flipped]
    cases kind : info.fInTried <;> simp [kind] at movedTrue ⊢ <;> omega
  · rw [table, flipped]
    cases kind : info.fInTried <;> simp [kind] at movedFalse ⊢ <;> omega

theorem in_tried_elsewhere {keys : List Int} (apart : n ∉ keys) (value : Option Bool) :
    holding keys (inTried (update entry n after)) value =
      holding keys (inTried entry) value := by
  apply holding_congr
  intro m inside
  have isOther : m ≠ n := fun same => apart (same ▸ inside)
  simp [inTried, isOther]

theorem Counted.append {info : CAddrInfo}
    (counted : Counted entry keys nTried nNew) (apart : n ∉ keys)
    (isNew : info.fInTried = false) :
    Counted (update entry n (some info)) (keys ++ [n]) nTried (nNew + 1) := by
  have is : inTried (update entry n (some info)) n = some false := by
    simp [inTried, isNew]
  constructor
  · rw [holding_append_one, in_tried_elsewhere apart, is, counted.tried]
    simp
  · rw [holding_append_one, in_tried_elsewhere apart, is, counted.new]
    simp

theorem Counted.dropLast
    (counted : Counted entry (keys ++ [n]) nTried nNew) (apart : n ∉ keys)
    (isNew : inTried entry n = some false) :
    Counted (update entry n none) keys nTried (nNew - 1) := by
  have tried := counted.tried
  have new := counted.new
  rw [holding_append_one, isNew] at tried new
  constructor
  · rw [in_tried_elsewhere apart, tried]
    simp
  · rw [in_tried_elsewhere apart, new]
    simp

end Changes

end ZenonCore.AddrMan
