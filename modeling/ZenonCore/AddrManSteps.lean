import ZenonCore.AddrManInvariant

/-!
# The operations of the address manager keep its invariant

No assertion of an operation fails in a sound state, and the state behind it is sound.
-/

namespace ZenonCore.AddrMan

open Library.OrderedStores Library.PositionLists Library.SlotCounts Primitives List Option Function

variable {net : Network} {loose : Int → Prop} {extra n : Int} {man : CAddrMan}
  {info : CAddrInfo}

namespace Sound

theorem unset (sound : Sound net loose extra man) : entries man.mapInfo (-1) = none := by
  cases there : entries man.mapInfo (-1) with
  | none => rfl
  | some info => cases (sound.named.bounds (-1) info there).1

theorem is_id (sound : Sound net loose extra man) (there : man.mapInfo.read n = some info) :
    n ≠ -1 := by
  rintro rfl
  have nothing := sound.unset
  rw [entries_read there] at nothing
  cases nothing

theorem mem_keys (sound : Sound net loose extra man) (there : man.mapInfo.read n = some info) :
    n ∈ man.vRandom :=
  (sound.listed.mem_iff n).mpr (by rw [positions_read there]; rfl)

theorem quiet (sound : Sound net loose extra man) (there : man.mapInfo.read n = some info)
    (none : info.nRefCount = 0) (slot : Nat × Nat) : man.vvNew slot ≠ n := by
  intro held
  obtain ⟨inside, _, _, here⟩ := sound.newTable.placed slot n held (sound.is_id there)
  have counted := sound.newTable.counted n _ (entries_read there)
  have some := holding_pos newSlots man.vvNew slot (mem_newSlots inside here)
  rw [held] at some
  have same : (forget info).nRefCount = info.nRefCount := rfl
  omega

end Sound

theorem swapRandom_spec (listed : Listed (positions man.mapInfo) man.vRandom) (first second : Nat)
    (firstInside : first < man.vRandom.length) (secondInside : second < man.vRandom.length) :
    ∃ store keys, swapRandom man first second =
        some { man with
          mapInfo := store
          vRandom := keys } ∧
      entries store = entries man.mapInfo ∧ Listed (positions store) keys ∧
      keys.Perm man.vRandom ∧ keys[second]? = man.vRandom[first]? := by
  by_cases apart : first = second
  · subst apart
    exact ⟨man.mapInfo, man.vRandom, by simp [swapRandom], rfl, listed, List.Perm.refl _, rfl⟩
  · have atFirst := getElem?_eq_getElem firstInside
    have atSecond := getElem?_eq_getElem secondInside
    generalize man.vRandom[first] = one at atFirst
    generalize man.vRandom[second] = other at atSecond
    obtain ⟨differ, swapped⟩ := listed.swap first second one other apart atFirst atSecond
    obtain ⟨info, there, _⟩ := map_eq_some_iff.mp ((listed.stands _ _).mp atFirst)
    obtain ⟨info', there', _⟩ := map_eq_some_iff.mp ((listed.stands _ _).mp atSecond)
    have later : (man.mapInfo.write one { info with nRandomPos := second }).read other =
        some info' := by
      rw [OrderedStore.read_write, if_neg differ.symm, there']
    refine ⟨(man.mapInfo.write one { info with nRandomPos := second }).write other
      { info' with nRandomPos := first }, (man.vRandom.set first other).set second one, ?_, ?_,
      ?_, ?_, ?_⟩
    · simp [swapRandom, CAddrMan.modify, apart, atFirst, atSecond, there, later]
    · have same : entries (man.mapInfo.write one { info with nRandomPos := second }) =
          entries man.mapInfo := by
        rw [entries_write]
        exact update_eq_self_iff.mpr (entries_read there).symm
      rw [entries_write, same]
      exact update_eq_self_iff.mpr (entries_read there').symm
    · rw [positions_write, positions_write]
      exact swapped
    · have perm := set_set_perm firstInside secondInside
      obtain ⟨_, isOne⟩ := List.getElem?_eq_some_iff.mp atFirst
      obtain ⟨_, isOther⟩ := List.getElem?_eq_some_iff.mp atSecond
      rw [isOne, isOther] at perm
      exact perm
    · rw [atFirst]
      simp [secondInside]

theorem Sound.reorder (sound : Sound net loose extra man) {store : OrderedStore Int CAddrInfo}
    {keys : List Int} (same : entries store = entries man.mapInfo)
    (listed : Listed (positions store) keys) (perm : keys.Perm man.vRandom) :
    Sound net loose extra
      { man with
        mapInfo := store
        vRandom := keys } := by
  constructor
  · exact same ▸ sound.named
  · exact listed
  · exact same ▸ sound.newTable
  · exact same ▸ sound.triedTable
  · exact same ▸ sound.healthy
  · constructor
    · have counted := sound.counted.tried
      unfold holding at counted
      rw [← perm.countP_eq] at counted
      exact same ▸ counted
    · have counted := sound.counted.new
      unfold holding at counted
      rw [← perm.countP_eq] at counted
      exact same ▸ counted

theorem named_erase {entry : Int → Option CAddrInfo} {mapAddr : CNetAddr → Option Int}
    {nIdCount : Int} (named : Named entry mapAddr nIdCount) (there : entry n = some info) :
    Named (update entry n none) (update mapAddr info.ip none) nIdCount := by
  refine ⟨named.start, ?_, ?_⟩
  · intro m other found
    obtain ⟨_, found⟩ | ⟨_, found⟩ := (update_some m other).mp found
    · cases found
    · exact named.bounds m other found
  · intro addr m
    have before := named.address addr m
    have own := (named.address info.ip n).mpr ⟨info, there, rfl⟩
    by_cases isAddr : addr = info.ip
    · subst isAddr
      rw [update_self]
      by_cases isIt : m = n
      · simp [isIt]
      · rw [update_of_ne isIt, ← before, own]
        simp [Ne.symm isIt]
    · rw [update_of_ne isAddr, before]
      by_cases isIt : m = n
      · subst isIt
        rw [update_self, there]
        simp [Ne.symm isAddr]
      · rw [update_of_ne isIt]

theorem Sound.drop (sound : Sound net loose extra man) {front : List Int}
    (atEnd : man.vRandom = front ++ [n]) (there : man.mapInfo.read n = some info)
    (isNew : info.fInTried = false) (unreferenced : info.nRefCount = 0) {loose' : Int → Prop}
    (others : ∀ m, m ≠ n → loose m → loose' m) :
    Sound net loose' extra
      { man with
        vRandom := front
        mapAddr := update man.mapAddr info.ip none
        mapInfo := man.mapInfo.erase n
        nNew := man.nNew - 1 } := by
  have viewed := entries_read there
  have nowhere := sound.quiet there unreferenced
  have isId := sound.is_id there
  have listed := sound.listed
  have counted := sound.counted
  rw [atEnd] at listed counted
  have apart : n ∉ front := by
    intro inside
    have distinct := nodup_append.mp listed.nodup
    exact distinct.2.2 n inside n (mem_singleton.mpr rfl) rfl
  constructor
  · rw [entries_erase]
    have named := named_erase sound.named viewed
    exact named
  · rw [positions_erase]
    simpa using listed.dropLast n (by simp)
  · rw [entries_erase]
    apply sound.newTable.change
    · intro slot m held _ _
      exact held
    · intro slot held
      exact absurd held (nowhere slot)
    · intro m _ _
      rfl
    · intro other found
      cases found
    · exact sound.unset
  · rw [entries_erase]
    exact sound.triedTable.amend isId (by simp [viewed, forget, isNew])
  · rw [entries_erase]
    exact healthy_change sound.healthy others (by simp)
  · rw [entries_erase]
    have dropped := counted.dropLast apart (by simp [inTried, viewed, forget, isNew])
    rw [show man.nNew + extra - 1 = man.nNew - 1 + extra by omega] at dropped
    exact dropped

theorem delete_spec (sound : Sound net loose extra man) (there : man.mapInfo.read n = some info)
    (isNew : info.fInTried = false) (unreferenced : info.nRefCount = 0) {loose' : Int → Prop}
    (others : ∀ m, m ≠ n → loose m → loose' m) :
    ∃ next, delete man n = some next ∧ Sound net loose' extra next ∧
      entries next.mapInfo = Function.update (entries man.mapInfo) n none ∧
      next.vvNew = man.vvNew ∧ next.vvTried = man.vvTried ∧ next.nKey = man.nKey := by
  obtain ⟨first, isFirst⟩ := Int.eq_ofNat_of_zero_le
    (sound.listed.inside n _ (positions_read there))
  have atFirst := (sound.listed.stands first n).mpr
    (by rw [positions_read there]; exact congrArg some isFirst)
  have firstInside := (List.getElem?_eq_some_iff.mp atFirst).1
  obtain ⟨store, keys, swapped, same, listed, perm, isLast⟩ := swapRandom_spec sound.listed first
    (man.vRandom.length - 1) firstInside (by omega)
  have reordered := sound.reorder same listed perm
  rw [atFirst, ← perm.length_eq] at isLast
  obtain ⟨front, rfl⟩ : ∃ front, keys = front ++ [n] := by
    obtain rfl | ⟨front, last, rfl⟩ := List.eq_nil_or_concat' keys
    · cases isLast
    · refine ⟨front, ?_⟩
      simp only [List.length_append, List.length_singleton, Nat.add_sub_cancel,
        List.getElem?_concat_length, Option.some.injEq] at isLast
      rw [isLast]
  obtain ⟨moved, thereStill, isMoved⟩ := read_of_entries
    (show entries store n = some (forget info) from same ▸ entries_read there)
  have sameTried : moved.fInTried = info.fInTried :=
    @congrArg _ _ (forget moved) (forget info) CAddrInfo.fInTried isMoved
  have sameCount : moved.nRefCount = info.nRefCount :=
    @congrArg _ _ (forget moved) (forget info) CAddrInfo.nRefCount isMoved
  have sameIp : moved.ip = info.ip :=
    @congrArg _ _ (forget moved) (forget info) (fun info => info.ip) isMoved
  have dropped := reordered.drop rfl thereStill (sameTried.trans isNew)
    (sameCount.trans unreferenced) others
  rw [sameIp] at dropped
  refine ⟨_, ?_, dropped, ?_, rfl, rfl, rfl⟩
  · have position : (man.vRandom.length : Int) - 1 = ((man.vRandom.length - 1 : Nat) : Int) := by
      omega
    rw [delete, there, Option.bind_some, if_neg (by simp [isNew, unreferenced]), isFirst, position,
      swapped]
    simp
  · rw [← same]
    exact entries_erase store n

theorem Sound.release (sound : Sound net loose extra man) {slot : Nat × Nat}
    (held : man.vvNew slot = n) (there : man.mapInfo.read n = some info) {loose' : Int → Prop}
    (others : ∀ m, m ≠ n → loose m → loose' m)
    (stillReferenced : loose' n ∨ 1 < info.nRefCount) :
    Sound net loose' extra
      { man with
        mapInfo := man.mapInfo.write n { info with nRefCount := info.nRefCount - 1 }
        vvNew := update man.vvNew slot (-1) } := by
  have viewed := entries_read there
  have isId := sound.is_id there
  obtain ⟨inside, full, isFull, here⟩ := sound.newTable.placed slot n held isId
  rw [viewed] at isFull
  cases isFull
  have count := sound.newTable.counted n _ viewed
  have healthy := sound.healthy n _ viewed
  constructor
  · exact named_write sound.named there rfl
  · exact listed_write sound.listed there rfl
  · rw [entries_write]
    exact sound.newTable.exchange sound.unset viewed (Or.inl held) (Or.inr rfl) inside here rfl
      (by simp [held, forget, Ne.symm isId])
  · rw [entries_write]
    exact sound.triedTable.amend isId (by simp [viewed, forget])
  · rw [entries_write]
    apply healthy_change sound.healthy others
    intro changed isIt
    cases isIt
    have positive := holding_pos newSlots man.vvNew slot (mem_newSlots inside here)
    rw [held] at positive
    have tried := healthy.tried
    have new := healthy.new
    simp only [forget] at count tried new
    constructor
    · intro isTried
      have := (tried isTried).1
      omega
    · intro isNew
      have := (new isNew).1
      refine ⟨by simp only [forget]; omega, fun notLoose => ?_⟩
      obtain isLoose | several := stillReferenced
      · exact absurd isLoose notLoose
      · simp only [forget]
        omega
    · exact healthy.nLastTry
    · exact healthy.nLastSuccess
  · rw [entries_write]
    exact sound.counted.amend (by simp [viewed, forget])

theorem clearNew_spec (sound : Sound net loose extra man) (slot : Nat × Nat) :
    ∃ next, clearNew man slot = some next ∧ Sound net loose extra next ∧
      next.vvNew = update man.vvNew slot (-1) ∧ next.vvTried = man.vvTried ∧
      next.nKey = man.nKey ∧
      ∀ m, m ≠ man.vvNew slot → entries next.mapInfo m = entries man.mapInfo m := by
  by_cases free : man.vvNew slot = -1
  · refine ⟨man, by rw [clearNew, if_pos free], sound, ?_, rfl, rfl, fun _ _ => rfl⟩
    rw [← free, update_eq_self]
  · obtain ⟨inside, _, viewed, here⟩ := sound.newTable.placed slot _ rfl free
    obtain ⟨info, there, rfl⟩ := read_of_entries viewed
    have count := sound.newTable.counted _ _ viewed
    have healthy := sound.healthy _ _ viewed
    have positive := holding_pos newSlots man.vvNew slot (mem_newSlots inside here)
    have tried := healthy.tried
    simp only [forget] at count tried
    have isNew : info.fInTried = false := by
      by_contra isTried
      have := (tried (Bool.eq_true_of_not_eq_false isTried)).1
      omega
    rw [clearNew, if_neg free, there, bind_some, if_neg (by omega)]
    by_cases last : info.nRefCount - 1 = 0
    · have released : Sound net (fun m => loose m ∨ m = man.vvNew slot) extra _ :=
        sound.release rfl there (fun m _ isLoose => Or.inl isLoose) (Or.inl (Or.inr rfl))
      obtain ⟨next, deleted, still, same, sameNew, sameTried, sameKey⟩ := delete_spec released
        (OrderedStore.read_write_self _ _ _) isNew last
        (fun m isOther isLoose => isLoose.resolve_right isOther)
      refine ⟨next, by rw [if_pos last]; exact deleted, still, sameNew, sameTried, sameKey, ?_⟩
      intro m isOther
      rw [same, entries_write]
      simp [isOther]
    · refine ⟨_, if_neg last, sound.release rfl there (fun m _ isLoose => isLoose)
        (Or.inr (by omega)), rfl, rfl, rfl, ?_⟩
      intro m isOther
      rw [entries_write]
      simp [isOther]

theorem Sound.weaken (sound : Sound net loose extra man) {loose' : Int → Prop}
    (others : ∀ m, loose m → loose' m) : Sound net loose' extra man := by
  refine ⟨sound.named, sound.listed, sound.newTable, sound.triedTable, ?_, sound.counted⟩
  intro m info there
  exact (sound.healthy m info there).weaken (others m)

theorem Sound.shift {change : Int} (sound : Sound net loose (extra + change) man) :
    Sound net loose extra { man with nNew := man.nNew + change } := by
  refine ⟨sound.named, sound.listed, sound.newTable, sound.triedTable, sound.healthy, ?_⟩
  have counted := sound.counted
  rw [show man.nNew + (extra + change) = man.nNew + change + extra by omega] at counted
  exact counted

theorem Sound.refer (sound : Sound net loose extra man) {slot : Nat × Nat}
    (inside : slot.1 < newBucketCount) (there : man.mapInfo.read n = some info)
    (place : newSlot net man.nKey info.toCService slot.1 = slot) (free : man.vvNew slot = -1)
    (isNew : info.fInTried = false) (room : info.nRefCount < newBucketsPerAddress)
    {loose' : Int → Prop} (others : ∀ m, m ≠ n → loose m → loose' m) :
    Sound net loose' extra
      { man with
        mapInfo := man.mapInfo.write n { info with nRefCount := info.nRefCount + 1 }
        vvNew := update man.vvNew slot n } := by
  have viewed := entries_read there
  have isId := sound.is_id there
  have count := sound.newTable.counted n _ viewed
  have healthy := sound.healthy n _ viewed
  constructor
  · exact named_write sound.named there rfl
  · exact listed_write sound.listed there rfl
  · rw [entries_write]
    exact sound.newTable.exchange sound.unset viewed (Or.inr free) (Or.inl rfl) inside place rfl
      (by simp [free, forget, Ne.symm isId])
  · rw [entries_write]
    exact sound.triedTable.amend isId (by simp [viewed, forget])
  · rw [entries_write]
    apply healthy_change sound.healthy others
    intro changed isIt
    cases isIt
    simp only [forget] at count
    refine ⟨fun isTried => ?_, fun _ => ⟨?_, fun _ => ?_⟩, healthy.nLastTry, healthy.nLastSuccess⟩
    · exact absurd isTried (by simp [forget, isNew])
    · simp only [forget]
      omega
    · simp only [forget]
      omega
  · rw [entries_write]
    exact sound.counted.amend (by simp [viewed, forget])

theorem Sound.move (sound : Sound net loose extra man) (there : man.mapInfo.read n = some info)
    {slot : Nat × Nat} (place : triedSlot net man.nKey info.toCService = slot)
    (held : man.vvTried slot = if info.fInTried then n else -1)
    {loose' : Int → Prop} (others : ∀ m, m ≠ n → loose m → loose' m)
    (healthy : Healthy (loose' n) (forget { info with fInTried := !info.fInTried })) :
    Sound net loose' (if info.fInTried then extra + 1 else extra - 1)
      { man with
        mapInfo := man.mapInfo.write n { info with fInTried := !info.fInTried }
        vvTried := update man.vvTried slot (if info.fInTried then -1 else n)
        nTried := if info.fInTried then man.nTried - 1 else man.nTried + 1 } := by
  have viewed := entries_read there
  have isId := sound.is_id there
  constructor
  · exact named_write sound.named there rfl
  · exact listed_write sound.listed there rfl
  · rw [entries_write]
    apply sound.newTable.change
    · intro slot m isHeld _ _
      exact isHeld
    · intro slot isHeld
      obtain ⟨inside, full, isFull, place⟩ := sound.newTable.placed slot n isHeld isId
      rw [viewed] at isFull
      cases isFull
      exact ⟨inside, _, rfl, place⟩
    · intro m _ _
      rfl
    · intro changed isIt
      cases isIt
      have count := sound.newTable.counted n _ viewed
      exact count
    · exact sound.unset
  · rw [entries_write]
    have exchanged := @TriedTable.exchange net man.nKey _ n _ _
      (forget { info with fInTried := !info.fInTried }) sound.triedTable isId viewed rfl rfl _ place
      held
    exact exchanged
  · rw [entries_write]
    apply healthy_change sound.healthy others
    intro changed isIt
    cases isIt
    exact healthy
  · rw [entries_write]
    have flipped := sound.counted.flip sound.listed.nodup (sound.mem_keys there) viewed
      (show (forget { info with fInTried := !info.fInTried }).fInTried = !info.fInTried from rfl)
    have sum : man.nNew + (if info.fInTried then extra + 1 else extra - 1) =
        if info.fInTried then man.nNew + extra + 1 else man.nNew + extra - 1 := by
      split <;> omega
    rw [sum]
    exact flipped

/-- The tried entry of a slot goes back to the new table, without a change of an entry that
no slot refers to. -/
theorem evict_spec (sound : Sound net loose extra man) {slot : Nat × Nat}
    (occupied : man.vvTried slot ≠ -1) :
    ∃ next, evict net man slot = some next ∧ Sound net loose extra next ∧
      next.vvTried = update man.vvTried slot (-1) ∧ next.nKey = man.nKey ∧
      ∀ m, m ≠ man.vvTried slot → (∀ other, man.vvNew other ≠ m) →
        entries next.mapInfo m = entries man.mapInfo m := by
  obtain ⟨_, viewed, isTried, place⟩ := (sound.triedTable slot _ occupied).mp rfl
  obtain ⟨infoOld, there, rfl⟩ := read_of_entries viewed
  have kind : infoOld.fInTried = true := isTried
  have healthy := sound.healthy _ _ viewed
  have unreferenced : infoOld.nRefCount = 0 := (healthy.tried isTried).1
  have nowhere := sound.quiet there unreferenced
  have left : Sound net (fun m => loose m ∨ m = man.vvTried slot) _ _ :=
    sound.move there place (by rw [kind, if_pos rfl]) (fun m _ isLoose => Or.inl isLoose)
      ⟨by simp [forget, kind], fun _ => ⟨by simp [forget, unreferenced, newBucketsPerAddress],
        fun notLoose => absurd (Or.inr rfl) notLoose⟩, healthy.nLastTry, healthy.nLastSuccess⟩
  simp only [kind, if_true, Bool.not_true] at left
  generalize isSlot : newSlot net man.nKey infoOld.toCService
    (getNewBucket net man.nKey infoOld.toCService infoOld.source) = uSlot
  have inside : uSlot.1 < newBucketCount := isSlot ▸ Nat.mod_lt _ (by decide)
  obtain ⟨cleared, isCleared, still, sameNew, sameTried, sameKey, sameEntries⟩ :=
    clearNew_spec left uSlot
  simp only at sameNew sameTried sameKey sameEntries
  have entryNow : entries cleared.mapInfo (man.vvTried slot) =
      some (forget { infoOld with fInTried := false }) := by
    rw [sameEntries _ (Ne.symm (nowhere _)), entries_write, update_self]
  obtain ⟨full, thereNow, isFull⟩ := read_of_entries entryNow
  have service : (forget full).toCService = infoOld.toCService := by rw [isFull]; rfl
  have notTried : (forget full).fInTried = false := by rw [isFull]; rfl
  have noReference : (forget full).nRefCount = 0 := by rw [isFull]; exact unreferenced
  have freeNow : cleared.vvNew uSlot = -1 := by rw [sameNew, update_self]
  have placeNow : newSlot net cleared.nKey (forget full).toCService uSlot.1 = uSlot := by
    rw [sameKey, service, ← isSlot]
    rfl
  have referred : Sound net loose (extra + 1) _ :=
    still.refer inside thereNow placeNow freeNow notTried
      (noReference.symm ▸ (by decide : (0 : Int) < newBucketsPerAddress))
      (fun m isOther isLoose => isLoose.resolve_right isOther)
  have one : full.nRefCount + 1 = 1 := by rw [show full.nRefCount = 0 from noReference]; rfl
  rw [one] at referred
  refine ⟨_, ?_, referred.shift, sameTried, sameKey, ?_⟩
  · simp only [evict, there, isSlot, isCleared, bind_some, freeNow, ne_eq,
      not_true_eq_false, if_false, CAddrMan.modify, thereNow, map_some]
  · intro m isOther isNowhere
    have before := sameEntries m (Ne.symm (isNowhere _))
    rw [entries_write, update_of_ne isOther] at before ⊢
    exact before

theorem clearReferences_spec (buckets : List Nat) (sound : Sound net loose extra man)
    (isLoose : loose n) (there : man.mapInfo.read n = some info) :
    ∃ next full, clearReferences net n buckets man = some next ∧ Sound net loose extra next ∧
      next.mapInfo.read n = some full ∧ full.toCService = info.toCService ∧
      full.fInTried = info.fInTried ∧ full.nLastSuccess = info.nLastSuccess ∧
      next.vvTried = man.vvTried ∧ next.nKey = man.nKey ∧
      ∀ slot, next.vvNew slot = n → man.vvNew slot = n ∧ slot.1 ∉ buckets := by
  induction buckets generalizing man info with
  | nil =>
    refine ⟨man, info, rfl, sound, there, rfl, rfl, rfl, rfl, rfl, ?_⟩
    intro slot held
    exact ⟨held, not_mem_nil⟩
  | cons bucket rest ih =>
    have own (slot : Nat × Nat) (held : man.vvNew slot = n) :
        newSlot net man.nKey info.toCService slot.1 = slot := by
      obtain ⟨_, full, isFull, place⟩ := sound.newTable.placed slot n held (sound.is_id there)
      rw [entries_read there] at isFull
      cases isFull
      exact place
    simp only [clearReferences, there, bind_some]
    by_cases held : man.vvNew (newSlot net man.nKey info.toCService bucket) = n
    · rw [if_pos held]
      obtain ⟨next, full, cleared, still, thereNow, service, sameTried, sameSuccess, sameTable,
        sameKey, left⟩ := ih (sound.release held there (fun m _ isLoose => isLoose) (Or.inl isLoose))
          (OrderedStore.read_write_self _ _ _)
      refine ⟨next, full, cleared, still, thereNow, service, sameTried, sameSuccess, sameTable,
        sameKey, ?_⟩
      intro slot isHeld
      obtain ⟨before, notIn⟩ := left slot isHeld
      simp only [update_apply] at before
      split at before
      · exact absurd before.symm (sound.is_id there)
      · rename_i isOther
        refine ⟨before, fun inside => ?_⟩
        obtain rfl | later := mem_cons.mp inside
        · exact isOther (own slot before).symm
        · exact notIn later
    · rw [if_neg held]
      obtain ⟨next, full, cleared, still, thereNow, service, sameTried, sameSuccess, sameTable,
        sameKey, left⟩ := ih sound there
      refine ⟨next, full, cleared, still, thereNow, service, sameTried, sameSuccess, sameTable,
        sameKey, ?_⟩
      intro slot isHeld
      obtain ⟨before, notIn⟩ := left slot isHeld
      refine ⟨before, fun inside => ?_⟩
      obtain rfl | later := mem_cons.mp inside
      · rw [own slot before] at held
        exact held before
      · exact notIn later

theorem makeTried_spec (sound : Sound net (fun _ => False) 0 man)
    (there : man.mapInfo.read n = some info) (isNew : info.fInTried = false)
    (succeeded : info.nLastSuccess ≠ 0) :
    ∃ next, makeTried net man n = some next ∧ Sound net (fun _ => False) 0 next ∧
      next.nKey = man.nKey := by
  obtain ⟨cleared, full, isCleared, still, thereNow, service, sameTried, sameSuccess, sameTable,
    sameKey, left⟩ := @clearReferences_spec net (fun m => m = n) 0 n man info
      (range newBucketCount) (sound.weaken fun _ isLoose => isLoose.elim) rfl there
  have nowhere (slot : Nat × Nat) : cleared.vvNew slot ≠ n := by
    intro held
    obtain ⟨before, notIn⟩ := left slot held
    exact notIn (mem_range.mpr (sound.newTable.placed slot n before (sound.is_id there)).1)
  have unreferenced : full.nRefCount = 0 := by
    have count := still.newTable.counted n _ (entries_read thereNow)
    rw [holding_eq_zero newSlots cleared.vvNew n fun slot _ => nowhere slot] at count
    exact count
  have behind : Sound net (fun m => m = n) 1 { cleared with nNew := cleared.nNew - 1 } :=
    @Sound.shift net _ 1 cleared (-1) still
  have healthy : Healthy False (forget { full with fInTried := !full.fInTried }) := by
    have before := still.healthy n _ (entries_read thereNow)
    refine ⟨fun _ => ⟨unreferenced, sameSuccess ▸ succeeded⟩, fun isFalse => ?_,
      before.nLastTry, before.nLastSuccess⟩
    simp [forget, sameTried, isNew] at isFalse
  have kind : full.fInTried = false := sameTried.trans isNew
  generalize isSlot : triedSlot net cleared.nKey full.toCService = kSlot
  -- the slot is free now, or the entry there goes back
  obtain ⟨spaced, isSpaced, sound', free, key, same⟩ : ∃ spaced,
      (if cleared.vvTried kSlot ≠ -1 then
          evict net { cleared with nNew := cleared.nNew - 1 } kSlot
        else some { cleared with nNew := cleared.nNew - 1 }) = some spaced ∧
      Sound net (fun m => m = n) 1 spaced ∧ spaced.vvTried kSlot = -1 ∧
      spaced.nKey = cleared.nKey ∧ entries spaced.mapInfo n = entries cleared.mapInfo n := by
    by_cases occupied : cleared.vvTried kSlot = -1
    · exact ⟨_, if_neg (not_not.mpr occupied), behind, occupied, rfl, rfl⟩
    · rw [if_pos occupied]
      obtain ⟨next, evicted, still, table, key, same⟩ := evict_spec behind occupied
      refine ⟨next, evicted, still, by rw [table, update_self], key, same n ?_ nowhere⟩
      rintro isIt
      obtain ⟨other, isOther, isTried, _⟩ := (behind.triedTable kSlot n (behind.is_id thereNow)).mp
        isIt.symm
      rw [entries_read thereNow] at isOther
      cases isOther
      rw [show full.fInTried = true from isTried] at kind
      cases kind
  rw [entries_read thereNow] at same
  obtain ⟨moved, thereThen, isMoved⟩ := read_of_entries same
  have notTried : (forget moved).fInTried = false := by rw [isMoved]; exact kind
  have placeNow : triedSlot net spaced.nKey (forget moved).toCService = kSlot := by
    rw [key, isMoved]
    exact isSlot
  have last : Sound net (fun _ => False) _ _ := sound'.move thereThen placeNow
    (by rw [show moved.fInTried = false from notTried]; exact free)
    (fun m isOther isLoose => isOther isLoose)
    (by
      have sameTried : moved.fInTried = full.fInTried := notTried.trans kind.symm
      rw [sameTried]
      have sameRest : forget { moved with fInTried := !full.fInTried } =
          forget { full with fInTried := !full.fInTried } := by
        have fields := isMoved
        simp only [forget, CAddrInfo.mk.injEq] at fields ⊢
        simp [fields]
      rw [sameRest]
      exact healthy)
  have isFalse : moved.fInTried = false := notTried
  simp only [isFalse, Bool.false_eq_true, if_false, Bool.not_false] at last
  refine ⟨_, ?_, last, key.trans sameKey⟩
  simp only [makeTried, isCleared, bind_some, thereNow, unreferenced, ne_eq,
    not_true_eq_false, if_false, isSlot]
  rw [isSpaced]
  simp only [bind_some, free, not_true_eq_false, if_false, CAddrMan.modify, thereThen,
    map_some]

theorem Sound.amend (sound : Sound net loose extra man) (there : man.mapInfo.read n = some info)
    (changed : CAddrInfo) (service : changed.toCService = info.toCService)
    (position : changed.nRandomPos = info.nRandomPos)
    (count : changed.nRefCount = info.nRefCount) (tried : changed.fInTried = info.fInTried)
    (healthy : Healthy (loose n) (forget changed)) :
    Sound net loose extra { man with mapInfo := man.mapInfo.write n changed } := by
  have viewed := entries_read there
  have isId := sound.is_id there
  constructor
  · exact named_write sound.named there (by rw [service])
  · exact listed_write sound.listed there position
  · rw [entries_write]
    apply sound.newTable.change
    · intro slot m isHeld _ _
      exact isHeld
    · intro slot isHeld
      obtain ⟨inside, full, isFull, place⟩ := sound.newTable.placed slot n isHeld isId
      rw [viewed] at isFull
      cases isFull
      exact ⟨inside, _, rfl, service.symm ▸ place⟩
    · intro m _ _
      rfl
    · intro other isIt
      cases isIt
      have counted := sound.newTable.counted n _ viewed
      exact count.trans counted
    · exact sound.unset
  · rw [entries_write]
    exact sound.triedTable.amend isId (by simp [viewed, forget, tried, service])
  · rw [entries_write]
    apply healthy_change sound.healthy fun m _ isLoose => isLoose
    intro other isIt
    cases isIt
    exact healthy
  · rw [entries_write]
    exact sound.counted.amend (by simp [viewed, forget, tried])

theorem named_create {entry : Int → Option CAddrInfo} {mapAddr : CNetAddr → Option Int}
    {nIdCount : Int} (named : Named entry mapAddr nIdCount) (unused : entry nIdCount = none)
    (absent : mapAddr info.ip = none) :
    Named (update entry nIdCount (some info))
      (update mapAddr info.ip (some nIdCount)) (nIdCount + 1) := by
  have start := named.start
  refine ⟨by omega, ?_, ?_⟩
  · intro m other found
    obtain ⟨rfl, _⟩ | ⟨_, found⟩ := (update_some m other).mp found
    · omega
    · have bounds := named.bounds m other found
      omega
  · intro addr m
    have before := named.address addr m
    by_cases isIt : m = nIdCount
    · subst isIt
      rw [update_self, update_apply]
      rw [unused] at before
      split
      · rename_i isAddr
        simp [isAddr]
      · rename_i isAddr
        rw [before]
        simp [Ne.symm isAddr]
    · rw [update_of_ne isIt, ← before, update_apply]
      split
      · rename_i isAddr
        rw [isAddr, absent]
        simp [Ne.symm isIt]
      · rfl

theorem find_some {addr : CNetAddr} (sound : Sound net loose extra man)
    (found : find man addr = some (n, info)) : man.mapInfo.read n = some info ∧ info.ip = addr := by
  obtain ⟨m, isNamed, isRead⟩ := bind_eq_some_iff.mp found
  obtain ⟨other, there, same⟩ := map_eq_some_iff.mp isRead
  cases same
  obtain ⟨viewed, isViewed, sameIp⟩ := (sound.named.address addr n).mp isNamed
  rw [entries_read there] at isViewed
  cases isViewed
  exact ⟨there, sameIp⟩

theorem find_none {addr : CNetAddr} (sound : Sound net loose extra man)
    (absent : find man addr = none) : man.mapAddr addr = none := by
  cases isNamed : man.mapAddr addr with
  | none => rfl
  | some m =>
    obtain ⟨_, viewed, _⟩ := (sound.named.address addr m).mp isNamed
    obtain ⟨other, there, _⟩ := read_of_entries viewed
    simp [find, isNamed, there] at absent

theorem create_spec (sound : Sound net loose extra man) (addr : CAddress) (source : CNetAddr)
    (absent : man.mapAddr addr.ip = none) (room : man.nIdCount + 1 < 2 ^ 31) :
    ∃ next info, create man addr source = some (man.nIdCount, next) ∧
      Sound net (fun m => loose m ∨ m = man.nIdCount) (extra + 1) next ∧
      next.mapInfo.read man.nIdCount = some info ∧ info.fInTried = false ∧ info.nRefCount = 0 ∧
      next.nKey = man.nKey := by
  have unused : entries man.mapInfo man.nIdCount = none := by
    cases there : entries man.mapInfo man.nIdCount with
    | none => rfl
    | some other => exact absurd (sound.named.bounds _ _ there).2 (lt_irrefl _)
  have notListed : positions man.mapInfo man.nIdCount = none := by
    unfold entries at unused
    unfold positions
    rw [comp_apply, map_eq_none_iff] at unused ⊢
    exact unused
  have apart : man.nIdCount ∉ man.vRandom := by
    rw [sound.listed.mem_iff, notListed]
    decide
  have start := sound.named.start
  have isId : man.nIdCount ≠ -1 := by omega
  have nowhere (slot : Nat × Nat) : man.vvNew slot ≠ man.nIdCount := by
    intro held
    obtain ⟨_, other, there, _⟩ := sound.newTable.placed slot _ held isId
    rw [unused] at there
    cases there
  refine ⟨_, _, if_pos room, ?_, OrderedStore.read_write_self _ _ _, rfl, rfl, rfl⟩
  constructor
  · rw [entries_write]
    have named := @named_create (forget (newInfo addr source)) _ _ _ sound.named unused absent
    exact named
  · rw [positions_write]
    exact sound.listed.append man.nIdCount notListed
  · rw [entries_write]
    apply sound.newTable.change
    · intro slot m isHeld _ _
      exact isHeld
    · intro slot isHeld
      exact absurd isHeld (nowhere slot)
    · intro m _ _
      rfl
    · intro other isIt
      cases isIt
      rw [holding_eq_zero newSlots man.vvNew _ fun slot _ => nowhere slot]
      rfl
    · exact sound.unset
  · rw [entries_write]
    exact sound.triedTable.amend isId (by simp [unused, forget, newInfo])
  · rw [entries_write]
    apply healthy_change sound.healthy fun m _ isLoose => Or.inl isLoose
    intro other isIt
    cases isIt
    exact ⟨by simp [forget, newInfo], fun _ => ⟨by simp [forget, newInfo, newBucketsPerAddress],
      fun notLoose => absurd (Or.inr rfl) notLoose⟩, le_refl _, le_refl _⟩
  · rw [entries_write]
    have appended := @Counted.append _ _ _ _ _ (forget (newInfo addr source)) sound.counted apart
      rfl
    rw [add_assoc] at appended
    exact appended

/-- An entry with a reference is not loose. -/
theorem Sound.settle (sound : Sound net (fun m => m = n) extra man)
    (there : man.mapInfo.read n = some info) (referenced : info.nRefCount ≠ 0) :
    Sound net (fun _ => False) extra man := by
  refine ⟨sound.named, sound.listed, sound.newTable, sound.triedTable, ?_, sound.counted⟩
  intro m other viewed
  have before := sound.healthy m other viewed
  by_cases isIt : m = n
  · subst isIt
    rw [entries_read there] at viewed
    cases viewed
    have count := sound.newTable.counted m _ (entries_read there)
    simp only [forget] at count
    refine ⟨before.tried, fun isNew => ⟨(before.new isNew).1, fun _ => ?_⟩, before.nLastTry,
      before.nLastSuccess⟩
    simp only [forget]
    omega
  · exact before.weaken isIt

theorem addReference_spec (sound : Sound net (fun m => m = n) 0 man)
    (there : man.mapInfo.read n = some info) (isNew : info.fInTried = false)
    (room : info.nRefCount < newBucketsPerAddress) (source : CNetAddr) (nNow : Int) :
    ∃ next, addReference net man n source nNow = some next ∧
      Sound net (fun _ => False) 0 next ∧ next.nKey = man.nKey := by
  have isId := sound.is_id there
  rw [addReference, there, bind_some]
  generalize isSlot : newSlot net man.nKey info.toCService
    (getNewBucket net man.nKey info.toCService source) = slot
  have inside : slot.1 < newBucketCount := isSlot ▸ Nat.mod_lt _ (by decide)
  have place : newSlot net man.nKey info.toCService slot.1 = slot := by
    rw [← isSlot]
    rfl
  by_cases held : man.vvNew slot = n
  · refine ⟨man, if_pos held, sound.settle there ?_, rfl⟩
    intro unreferenced
    exact sound.quiet there unreferenced slot held
  · obtain ⟨fInsert, known⟩ : ∃ fInsert, (if man.vvNew slot = -1 then some true
        else (man.mapInfo.read (man.vvNew slot)).map fun infoExisting =>
          isTerrible infoExisting nNow || infoExisting.nRefCount > 1 && info.nRefCount = 0) =
        some fInsert := by
      by_cases free : man.vvNew slot = -1
      · exact ⟨true, if_pos free⟩
      · obtain ⟨_, other, viewed, _⟩ := sound.newTable.placed slot _ rfl free
        obtain ⟨existing, isRead, _⟩ := read_of_entries viewed
        exact ⟨_, by rw [if_neg free, isRead, map_some]⟩
    simp only [if_neg held]
    rw [known, bind_some]
    cases fInsert with
    | true =>
      obtain ⟨cleared, isCleared, still, sameNew, _, sameKey, sameEntries⟩ :=
        clearNew_spec sound slot
      have viewed := sameEntries n (Ne.symm held)
      rw [entries_read there] at viewed
      obtain ⟨full, thereNow, isFull⟩ := read_of_entries viewed
      have notTried : (forget full).fInTried = false := by rw [isFull]; exact isNew
      have roomNow : (forget full).nRefCount < newBucketsPerAddress := by rw [isFull]; exact room
      have placeNow : newSlot net cleared.nKey (forget full).toCService slot.1 = slot := by
        rw [isFull, sameKey]
        exact place
      have freeNow : cleared.vvNew slot = -1 := by rw [sameNew, update_self]
      refine ⟨_, ?_, still.refer inside thereNow placeNow freeNow notTried roomNow
        fun m isOther isLoose => isOther isLoose, sameKey⟩
      rw [if_pos rfl, isCleared]
      simp only [bind_some, CAddrMan.modify, thereNow, map_some]
    | false =>
      by_cases unreferenced : info.nRefCount = 0
      · obtain ⟨next, deleted, still, _, _, _, sameKey⟩ := delete_spec sound there isNew
          unreferenced fun m isOther isLoose => isOther isLoose
        exact ⟨next, by simpa [unreferenced] using deleted, still, sameKey⟩
      · exact ⟨man, by simp [unreferenced], sound.settle there unreferenced, rfl⟩

theorem add_spec (sound : Sound net (fun _ => False) 0 man) (addr : CAddress) (source : CNetAddr)
    (nTimePenalty nNow : Int) (draw : Nat) (room : man.nIdCount + 1 < 2 ^ 31) :
    ∃ next, add net man addr source nTimePenalty nNow draw = some next ∧
      Sound net (fun _ => False) 0 next ∧ next.nKey = man.nKey := by
  unfold add
  by_cases routable : net.isRoutable addr.ip = false
  · exact ⟨man, if_pos routable, sound, rfl⟩
  · rw [if_neg routable]
    cases found : find man addr.ip with
    | some known =>
      obtain ⟨nId, info⟩ := known
      obtain ⟨there, _⟩ := find_some sound found
      have healthy := sound.healthy nId _ (entries_read there)
      have seen := sound.amend there (addSeen info addr nTimePenalty nNow draw).1 rfl rfl rfl rfl
        ⟨healthy.tried, healthy.new, healthy.nLastTry, healthy.nLastSuccess⟩
      simp only
      by_cases done : (addSeen info addr nTimePenalty nNow draw).2 = true
      · exact ⟨_, if_pos done, seen, rfl⟩
      · rw [if_neg done]
        have goes := done
        simp only [addSeen, decide_eq_true_eq, not_or] at goes
        have isNew : info.fInTried = false := by simpa using goes.2.1
        have atMost : info.nRefCount ≤ newBucketsPerAddress := (healthy.new isNew).1
        exact addReference_spec (seen.weaken fun _ isLoose => isLoose.elim)
          (OrderedStore.read_write_self _ _ _) isNew
          (lt_of_le_of_ne atMost goes.2.2.1) source nNow
    | none =>
      obtain ⟨made, info, created, loose, there, isNew, unreferenced, sameKey⟩ :=
        create_spec sound addr source (find_none sound found) room
      simp only [created, bind_some, CAddrMan.modify, there, map_some]
      have healthy := loose.healthy _ _ (entries_read there)
      have amended := loose.amend there
        { info with nTime := UInt32.ofInt (max 0 ((info.nTime.toNat : Int) - nTimePenalty)) } rfl rfl
        rfl rfl ⟨healthy.tried, healthy.new, healthy.nLastTry, healthy.nLastSuccess⟩
      have counted := (@Sound.shift _ _ 0 _ 1 amended).weaken fun _ isLoose =>
        isLoose.resolve_left id
      have few : info.nRefCount < newBucketsPerAddress := by
        rw [unreferenced]
        decide
      obtain ⟨next, referred, still, key⟩ := addReference_spec counted
        (OrderedStore.read_write_self _ _ _) isNew few source nNow
      exact ⟨next, referred, still, key.trans sameKey⟩

theorem good_spec (sound : Sound net (fun _ => False) 0 man) (addr : CService) (nTime : Int)
    (draw : Nat) (positive : 0 < nTime) :
    ∃ next, good net man addr nTime draw = some next ∧ Sound net (fun _ => False) 0 next ∧
      next.nKey = man.nKey := by
  unfold good
  cases found : find man addr.ip with
  | none => exact ⟨man, rfl, sound, rfl⟩
  | some known =>
    obtain ⟨nId, info⟩ := known
    obtain ⟨there, _⟩ := find_some sound found
    have healthy := sound.healthy nId _ (entries_read there)
    have updated := sound.amend there
      { info with
        nLastSuccess := nTime
        nLastTry := nTime
        nAttempts := 0 } rfl rfl rfl rfl
      ⟨fun isTried => ⟨(healthy.tried isTried).1, Int.ne_of_gt positive⟩, healthy.new,
        Int.le_of_lt positive, Int.le_of_lt positive⟩
    simp only
    by_cases differs : info.toCService ≠ addr
    · exact ⟨man, if_pos differs, sound, rfl⟩
    · rw [if_neg differs]
      by_cases kind : info.fInTried = true
      · exact ⟨_, if_pos kind, updated, rfl⟩
      · rw [if_neg kind]
        split
        · exact makeTried_spec updated (OrderedStore.read_write_self _ _ _)
            (Bool.eq_false_of_not_eq_true kind) (Int.ne_of_gt positive)
        · exact ⟨_, rfl, updated, rfl⟩

theorem changeService_spec (sound : Sound net (fun _ => False) 0 man) (addr : CService)
    (change : CAddrInfo → CAddrInfo)
    (keeps : ∀ info, Healthy False (forget info) → Healthy False (forget (change info)) ∧
      (change info).toCService = info.toCService ∧ (change info).nRandomPos = info.nRandomPos ∧
      (change info).nRefCount = info.nRefCount ∧ (change info).fInTried = info.fInTried) :
    Sound net (fun _ => False) 0 (changeService man addr change) ∧
      (changeService man addr change).nKey = man.nKey := by
  unfold changeService
  cases found : find man addr.ip with
  | none => exact ⟨sound, rfl⟩
  | some known =>
    obtain ⟨nId, info⟩ := known
    obtain ⟨there, _⟩ := find_some sound found
    obtain ⟨healthy, service, position, count, tried⟩ := keeps info
      (sound.healthy nId _ (entries_read there))
    simp only
    split
    · exact ⟨sound, rfl⟩
    · exact ⟨sound.amend there _ service position count tried healthy, rfl⟩

/-- The loop keeps to positions of `vRandom`, of which each has an entry. -/
theorem gather_spec (nNodes : Nat) (draws : Nat → Nat) (nNow : Nat → Int) (left index : Nat)
    (sound : Sound net loose extra man) (vAddr : List CAddress)
    (inside : index + left = man.vRandom.length) :
    ∃ next result, gather nNodes draws nNow left index (man, vAddr) = some (next, result) ∧
      Sound net loose extra next ∧ next.nKey = man.nKey := by
  induction left generalizing index man vAddr with
  | zero => exact ⟨man, vAddr, rfl, sound, rfl⟩
  | succ left ih =>
    unfold gather
    by_cases full : vAddr.length ≥ nNodes
    · exact ⟨man, vAddr, if_pos full, sound, rfl⟩
    · rw [if_neg full]
      have below : randomInt (draws index) (left + 1) < left + 1 := Nat.mod_lt _ (Nat.succ_pos left)
      obtain ⟨store, keys, swapped, same, listed, perm, _⟩ := swapRandom_spec sound.listed index
        (randomInt (draws index) (left + 1) + index) (by omega) (by omega)
      have reordered := sound.reorder same listed perm
      obtain ⟨nId, atIndex⟩ : ∃ nId, keys[index]? = some nId :=
        ⟨_, getElem?_eq_getElem (by rw [perm.length_eq]; omega)⟩
      obtain ⟨ai, there, _⟩ := map_eq_some_iff.mp ((listed.stands _ _).mp atIndex)
      simp only [swapped, atIndex, there, bind_some]
      exact ih (index + 1) reordered _ (by rw [perm.length_eq]; omega)

theorem walk_spec (table : Table) (buckets : Nat) (ways : List (Nat × Nat))
    (slot found : Nat × Nat) (walked : walk table buckets ways slot = some found) :
    table found ≠ -1 := by
  induction ways generalizing slot with
  | nil => grind [walk]
  | cons way ways ih => grind [walk]

theorem selectFrom_spec (table : Table) (buckets : Nat) (rounds : List Round)
    (filled : ∀ slot, table slot ≠ -1 → ∃ info, man.mapInfo.read (table slot) = some info) :
    ∃ result, selectFrom man table buckets rounds = some result := by
  induction rounds with
  | nil => exact ⟨none, rfl⟩
  | cons round rounds ih =>
    unfold selectFrom
    split
    · exact ⟨none, rfl⟩
    · rename_i slot walked
      obtain ⟨info, there⟩ := filled slot (walk_spec table buckets _ _ slot walked)
      rw [there, bind_some]
      split
      · exact ⟨some info, rfl⟩
      · exact ih

theorem select_spec (sound : Sound net loose extra man) (newOnly : Bool) (coin : Nat)
    (rounds : List Round) : ∃ result, select man newOnly coin rounds = some result := by
  unfold select
  split
  · exact ⟨some emptyInfo, rfl⟩
  · split
    · apply selectFrom_spec
      intro slot occupied
      obtain ⟨_, viewed, _⟩ := (sound.triedTable slot _ occupied).mp rfl
      obtain ⟨info, there, _⟩ := read_of_entries viewed
      exact ⟨info, there⟩
    · apply selectFrom_spec
      intro slot occupied
      obtain ⟨_, _, viewed, _⟩ := sound.newTable.placed slot _ rfl occupied
      obtain ⟨info, there, _⟩ := read_of_entries viewed
      exact ⟨info, there⟩

/-- The times that the callers pass, and an id that is left for a new address. -/
def Allowed (man : CAddrMan) : Event → Prop
  | .add .. => man.nIdCount + 1 < 2 ^ 31
  | .good _ nTime _ => 0 < nTime
  | .attempt _ nTime => 0 ≤ nTime
  | .connected .. => True
  | .getAddr .. => True
  | .select .. => True

theorem empty_sound (nKey : Uint256) : Sound net (fun _ => False) 0 (CAddrMan.empty nKey) := by
  have nothing (n : Int) : entries OrderedStore.empty n = none := rfl
  constructor
  · refine ⟨le_refl _, fun n info there => ?_, fun addr n => ?_⟩
    · cases there
    · simp [nothing, CAddrMan.empty]
  · exact Listed.empty
  · refine ⟨fun slot n held isId => absurd held.symm isId, fun n info there => ?_⟩
    cases there
  · intro slot n isId
    simp [nothing, CAddrMan.empty, Ne.symm isId]
  · intro n info there
    cases there
  · exact ⟨rfl, rfl⟩

/-- A call that is allowed runs through, and leaves a sound state. -/
theorem step_spec (sound : Sound net (fun _ => False) 0 man) (event : Event)
    (allowed : Allowed man event) :
    ∃ next, step net man event = some next ∧ Sound net (fun _ => False) 0 next ∧
      next.nKey = man.nKey := by
  cases event with
  | add addr source nTimePenalty nNow draw =>
    exact add_spec sound addr source nTimePenalty nNow draw allowed
  | good addr nTime draw => exact good_spec sound addr nTime draw allowed
  | attempt addr nTime =>
    refine ⟨_, rfl, changeService_spec sound addr _ fun info healthy => ⟨?_, rfl, rfl, rfl, rfl⟩⟩
    exact ⟨healthy.tried, healthy.new, allowed, healthy.nLastSuccess⟩
  | connected addr nTime =>
    refine ⟨_, rfl, changeService_spec sound addr _ fun info healthy => ?_⟩
    split
    · exact ⟨⟨healthy.tried, healthy.new, healthy.nLastTry, healthy.nLastSuccess⟩, rfl, rfl, rfl, rfl⟩
    · exact ⟨healthy, rfl, rfl, rfl, rfl⟩
  | getAddr vAddr draws nNow =>
    obtain ⟨next, result, gathered, still, key⟩ := gather_spec
      (min (23 * man.vRandom.length / 100) 2500) draws nNow man.vRandom.length 0 sound vAddr
      (Nat.zero_add _)
    exact ⟨next, by rw [step, getAddr, gathered, map_some], still, key⟩
  | select newOnly coin rounds =>
    obtain ⟨result, selected⟩ := select_spec sound newOnly coin rounds
    exact ⟨man, by rw [step, selected, map_some], sound, rfl⟩

end ZenonCore.AddrMan
