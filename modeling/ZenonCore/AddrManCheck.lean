import ZenonCore.AddrManSteps
import ZenonCore.Library.Runs

/-!
# The consistency check of the address manager

`Check_` finds nothing in a sound state, and every run of calls keeps the state sound.
-/

namespace ZenonCore.AddrMan

open Library.OrderedStores Library.PositionLists Library.Runs Library.SlotCounts Primitives List Option

variable {net : Network} {man : CAddrMan}

theorem checkEntry_spec (sound : Sound net (fun _ => False) 0 man) (n : Int) (info : CAddrInfo)
    (there : man.mapInfo.read n = some info) : checkEntry man n info = none := by
  have viewed := entries_read there
  have healthy := sound.healthy n _ viewed
  have named := (sound.named.address info.ip n).mpr ⟨_, viewed, rfl⟩
  obtain ⟨place, isPlace⟩ := Int.eq_ofNat_of_zero_le
    (sound.listed.inside n _ (positions_read there))
  have stands := (sound.listed.stands place n).mpr
    (by rw [positions_read there]; exact congrArg some isPlace)
  have tried := healthy.tried
  have new := healthy.new
  have nLastTry : 0 ≤ info.nLastTry := healthy.nLastTry
  have nLastSuccess : 0 ≤ info.nLastSuccess := healthy.nLastSuccess
  simp only [forget] at tried new
  unfold checkEntry
  rw [if_neg (fun both => (tried both.1).2 both.2), if_neg (fun both => both.2 (tried both.1).1),
    if_neg (by grind), if_neg (by grind), if_neg (by simp [named]), if_neg, if_neg (by omega),
    if_neg (by omega)]
  rw [isPlace]
  simp [stands]

/-- Each id that is looked for is in a slot that is still to come. -/
theorem checkTried_spec (sound : Sound net (fun _ => False) 0 man) (slots : List (Nat × Nat))
    (distinct : slots.Nodup) (setTried : List Int) (once : setTried.Nodup)
    (known : ∀ n, n ∈ setTried ↔ n ≠ -1 ∧ ∃ slot ∈ slots, man.vvTried slot = n) :
    checkTried net man slots setTried = .ok [] := by
  induction slots generalizing setTried with
  | nil =>
    have nothing : setTried = [] := by
      apply eq_nil_iff_forall_not_mem.mpr
      intro n member
      obtain ⟨_, slot, inside, _⟩ := (known n).mp member
      cases inside
    rw [nothing, checkTried]
  | cons slot rest ih =>
    obtain ⟨notLater, others⟩ := nodup_cons.mp distinct
    unfold checkTried
    by_cases free : man.vvTried slot = -1
    · rw [if_pos free]
      apply ih others setTried once
      intro n
      rw [known n]
      simp only [exists_mem_cons_iff, free]
      grind
    · obtain ⟨_, viewed, _, place⟩ := (sound.triedTable slot _ free).mp rfl
      obtain ⟨info, there, rfl⟩ := read_of_entries viewed
      have inside : man.vvTried slot ∈ setTried :=
        (known _).mpr ⟨free, slot, mem_cons_self, rfl⟩
      rw [if_neg free, if_neg (not_not.mpr inside), there]
      have bucket : getTriedBucket net man.nKey info.toCService = slot.1 := congrArg Prod.fst place
      have position : getBucketPosition net man.nKey info.toCService false slot.1 = slot.2 := by
        rw [← bucket]
        exact congrArg Prod.snd place
      simp only [bucket, position, ne_eq, not_true_eq_false, if_false]
      apply ih others _ (once.erase _)
      intro n
      rw [once.mem_erase_iff, known n]
      have single (other : Nat × Nat) (held : man.vvTried other = man.vvTried slot) :
          other = slot := by
        obtain ⟨_, viewed', _, place'⟩ := (sound.triedTable other _ free).mp held
        rw [viewed] at viewed'
        cases viewed'
        exact place'.symm.trans place
      simp only [exists_mem_cons_iff]
      grind

/-- The counts that are left are those of the slots that are still to come. -/
theorem checkNew_spec (sound : Sound net (fun _ => False) 0 man) (slots : List (Nat × Nat))
    (mapNew : OrderedStore Int Int)
    (known : ∀ n, mapNew.read n = if n = -1 ∨ holding slots man.vvNew n = 0 then none
      else some (holding slots man.vvNew n : Int)) :
    ∃ last, checkNew net man slots mapNew = .ok last ∧ last.records = [] := by
  induction slots generalizing mapNew with
  | nil =>
    refine ⟨mapNew, rfl, mapNew.records_eq_nil fun n => ?_⟩
    rw [known n]
    exact if_pos (Or.inr rfl)
  | cons slot rest ih =>
    have cons (n : Int) : holding (slot :: rest) man.vvNew n =
        holding rest man.vvNew n + if man.vvNew slot = n then 1 else 0 := by
      simp [holding, countP_cons]
    unfold checkNew
    by_cases free : man.vvNew slot = -1
    · rw [if_pos free]
      apply ih
      intro n
      rw [known n, cons, free]
      grind
    · obtain ⟨_, _, viewed, place⟩ := sound.newTable.placed slot _ rfl free
      obtain ⟨info, there, rfl⟩ := read_of_entries viewed
      have position : getBucketPosition net man.nKey info.toCService true slot.1 = slot.2 :=
        congrArg Prod.snd place
      have left := known (man.vvNew slot)
      rw [cons, if_pos rfl, if_neg (by omega)] at left
      rw [if_neg free, left, there]
      simp only [position, ne_eq, not_true_eq_false, if_false]
      split
      · apply ih
        intro n
        rw [OrderedStore.read_erase, known n, cons]
        grind
      · apply ih
        intro n
        rw [OrderedStore.read_write, known n, cons]
        grind

theorem keys_perm (sound : Sound net (fun _ => False) 0 man) :
    man.vRandom.Perm (man.mapInfo.records.map Prod.fst) := by
  apply (perm_ext_iff_of_nodup sound.listed.nodup man.mapInfo.keys_nodup).mpr
  intro n
  rw [sound.listed.mem_iff, ← OrderedStore.read_isSome, positions, Function.comp_apply,
    isSome_map]

theorem record_count (sound : Sound net (fun _ => False) 0 man) (tried : Bool)
    (keep : Int × CAddrInfo → Bool) (keeps : ∀ record, keep record = (record.2.fInTried == tried)) :
    (man.mapInfo.records.filter keep).length =
      holding man.vRandom (inTried (entries man.mapInfo)) (some tried) := by
  unfold holding
  rw [(keys_perm sound).countP_eq, countP_map, ← countP_eq_length_filter]
  apply countP_congr
  intro record member
  have there := (OrderedStore.read_eq_some _ record.1 record.2).mpr member
  simp [keeps, inTried, entries_read there, forget]

theorem checkTried_initial (sound : Sound net (fun _ => False) 0 man) :
    checkTried net man triedSlots
      ((man.mapInfo.records.filter fun record => record.2.fInTried).map Prod.fst) = .ok [] := by
  apply checkTried_spec sound triedSlots (nodup_range.product nodup_range)
  · exact man.mapInfo.keys_nodup.sublist (filter_sublist.map Prod.fst)
  · intro n
    rw [List.mem_map]
    constructor
    · rintro ⟨⟨n, info⟩, member, rfl⟩
      obtain ⟨member, isTried⟩ := mem_filter.mp member
      have there := (OrderedStore.read_eq_some _ n info).mpr member
      have isId := sound.is_id there
      refine ⟨isId, triedSlot net man.nKey info.toCService, ?_,
        (sound.triedTable _ n isId).mpr ⟨_, entries_read there, isTried, rfl⟩⟩
      exact pair_mem_product.mpr ⟨mem_range.mpr (Nat.mod_lt _ (by decide)),
        mem_range.mpr (Nat.mod_lt _ (by decide))⟩
    · rintro ⟨isId, slot, _, held⟩
      obtain ⟨_, viewed, isTried, _⟩ := (sound.triedTable slot n isId).mp held
      obtain ⟨info, there, rfl⟩ := read_of_entries viewed
      exact ⟨(n, info), mem_filter.mpr ⟨(OrderedStore.read_eq_some _ n info).mp there,
        isTried⟩, rfl⟩

theorem checkNew_initial (sound : Sound net (fun _ => False) 0 man) :
    ∃ last, checkNew net man newSlots (man.mapInfo.choose (fun record => !record.2.fInTried)
      CAddrInfo.nRefCount) = .ok last ∧ last.records = [] := by
  apply checkNew_spec sound
  intro n
  rw [OrderedStore.read_choose]
  cases there : man.mapInfo.read n with
  | none =>
    have nowhere (slot : Nat × Nat) (isId : n ≠ -1) : man.vvNew slot ≠ n := by
      intro held
      obtain ⟨_, _, viewed, _⟩ := sound.newTable.placed slot n held isId
      obtain ⟨info, isRead, _⟩ := read_of_entries viewed
      rw [there] at isRead
      cases isRead
    rw [filter_none, map_none, if_pos]
    by_cases isId : n = -1
    · exact Or.inl isId
    · exact Or.inr (holding_eq_zero _ _ _ fun slot _ => nowhere slot isId)
  | some info =>
    have viewed := entries_read there
    have isId := sound.is_id there
    have count := sound.newTable.counted n _ viewed
    have healthy := sound.healthy n _ viewed
    have tried := healthy.tried
    have new := healthy.new
    simp only [forget, not_false_eq_true, forall_const] at count tried new
    cases kind : info.fInTried with
    | true =>
      have none := (tried kind).1
      rw [filter_some, if_neg (by simp [kind]), map_none, if_pos (by omega)]
    | false =>
      have some := (new kind).2
      rw [filter_some, if_pos (by simp [kind]), map_some, if_neg (by omega), count]

/-- `Check_` finds nothing, except a key that is null. -/
theorem check_spec (sound : Sound net (fun _ => False) 0 man) :
    check net man = if man.nKey = 0 then -16 else 0 := by
  have triedCount := record_count sound true (fun record => record.2.fInTried) (by simp)
  have newCount := record_count sound false (fun record => !record.2.fInTried) (by simp)
  have tried := sound.counted.tried
  have new := sound.counted.new
  have all : man.vRandom.length = man.mapInfo.records.length := by
    rw [(keys_perm sound).length_eq, length_map]
  have split := length_eq_length_filter_add (l := man.mapInfo.records)
    fun record => record.2.fInTried
  have each : (man.mapInfo.records.findSome? fun record => checkEntry man record.1 record.2) =
      none := by
    apply findSome?_eq_none_iff.mpr
    intro record member
    exact checkEntry_spec sound _ _ ((OrderedStore.read_eq_some _ _ _).mpr member)
  obtain ⟨last, isLast, nothing⟩ := checkNew_initial sound
  have sizes : (man.mapInfo.choose (fun record => !record.2.fInTried)
      CAddrInfo.nRefCount).records.length =
      (man.mapInfo.records.filter fun record => !record.2.fInTried).length := length_map _
  unfold check
  simp only [each, checkTried_initial sound, isLast, nothing, sizes, length_map]
  rw [if_neg (by omega), if_neg (by omega), if_neg (by omega)]
  simp

/-- Every run of calls with the times that the callers pass runs through, and every manager in it
passes `Check_`. -/
theorem every_run_passes_check (net : Network) (nKey : Uint256) (drawn : nKey ≠ 0)
    (events : List Event)
    (allowed : AllSteps (step net) Allowed (CAddrMan.empty nKey) events) :
    ∃ last, run (step net) (CAddrMan.empty nKey) events = some last ∧ check net last = 0 := by
  obtain ⟨last, reached, sound, key⟩ := simulation_of_guarded_run (step net) Allowed
    (fun _ _ => ()) (fun man (_ : Unit) => Sound net (fun _ => False) 0 man ∧ man.nKey = nKey)
    (by
      rintro man _ event ⟨sound, key⟩ isAllowed
      obtain ⟨next, taken, still, same⟩ := step_spec sound event isAllowed
      exact ⟨next, taken, still, same.trans key⟩)
    (CAddrMan.empty nKey) () events ⟨empty_sound nKey, rfl⟩ allowed
  refine ⟨last, reached, ?_⟩
  rw [check_spec sound, key, if_neg drawn]

instance decidableAllowed (man : CAddrMan) : ∀ event, Decidable (Allowed man event)
  | .add .. => inferInstanceAs (Decidable (_ < _))
  | .good _ nTime _ => inferInstanceAs (Decidable (0 < nTime))
  | .attempt _ nTime => inferInstanceAs (Decidable (0 ≤ nTime))
  | .connected .. => isTrue trivial
  | .getAddr .. => isTrue trivial
  | .select .. => isTrue trivial

/-- A network in which every address has the same slot of every bucket. -/
def flatNetwork : Network :=
  { isRoutable := fun _ => true
    getGroup := fun _ => []
    getLow64 := fun _ => 0 }

def peer (ip : CNetAddr) : CAddress :=
  { ip := ip
    port := 8333
    nServices := 1
    nTime := 1600000000 }

/-- The second peer takes the tried slot of the first one, which goes back. -/
theorem collision_passes_check : ∃ last,
    run (step flatNetwork) (CAddrMan.empty 1)
      [.add (peer 1) 3 0 1600000000 0, .good (peer 1).toCService 1600000100 0,
        .add (peer 2) 3 0 1600000000 0, .good (peer 2).toCService 1600000200 0,
        .getAddr [] (fun _ => 1) (fun _ => 1600000300)] = some last ∧
    check flatNetwork last = 0 := by
  apply every_run_passes_check flatNetwork 1 (by decide)
  decide +kernel

/-- A time below zero for an attempt and a key that is null are found by `Check_`, and the
counter of the ids has an end. -/
theorem negative_attempt_found :
    (run (step flatNetwork) (CAddrMan.empty 1)
      [.add (peer 1) 3 0 1600000000 0, .attempt (peer 1).toCService (-1)]).map
        (check flatNetwork) = some (-6) ∧
    (run (step flatNetwork) (CAddrMan.empty 0) []).map (check flatNetwork) = some (-16) ∧
    ∀ man, man.nIdCount = 2 ^ 31 - 1 → man.mapAddr (peer 1).ip = none →
      step flatNetwork man (.add (peer 1) 3 0 1600000000 0) = none := by
  refine ⟨by decide +kernel, ?_, ?_⟩
  · exact congrArg some (check_spec (empty_sound 0))
  · intro man full absent
    have unknown : find man (peer 1).ip = none := by rw [find, absent, bind_none]
    rw [step, add, if_neg (by decide), unknown]
    simp [create, full]

end ZenonCore.AddrMan
