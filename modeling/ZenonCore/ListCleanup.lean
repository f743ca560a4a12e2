import ZenonCore.Library.OrderedStores
import ZenonCore.CollateralOwnership
import Mathlib.Data.Prod.Lex

/-!
# The clean-up of the masternode list

`CheckAndRemove` erases from the list and its maps through iterators. The loop over the old
broadcasts takes two steps at once, and reads behind the end where the last one is old.
-/

namespace ZenonCore.ListCleanup

open Script Primitives Chainstate Masternode List Option
open MasternodeMan ValueGate CollateralOwnership
open Library.OrderedStores

structure CNetAddr where
  ip : Bytes
deriving DecidableEq

local instance addrOrder : LinearOrder CNetAddr :=
  LinearOrder.lift' (fun addr => addr.ip.map UInt8.toNat) (by
    intro first second same
    have bytes : first.ip = second.ip :=
      List.map_injective_iff.mpr (fun _ _ => UInt8.toNat_inj.mp) same
    cases first
    cases second
    rw [CNetAddr.mk.injEq]
    exact bytes)

local instance hashOrder : LinearOrder Uint256 :=
  LinearOrder.lift' BitVec.toNat (fun _ _ => BitVec.eq_of_toNat_eq)

local instance outpointOrder : LinearOrder COutPoint :=
  LinearOrder.lift' (fun out => toLex (out.hash.toNat, out.n.toNat)) (by
    intro first second same
    have parts := Prod.mk.inj (toLex.injective same)
    cases first
    cases second
    rw [COutPoint.mk.injEq]
    exact ⟨BitVec.eq_of_toNat_eq parts.1, UInt32.toNat_inj.mp parts.2⟩)

/-- The members of `CMasternodeMan` that are cleaned up, and the broadcasts that
`masternodeSync` has counted. -/
structure ListState where
  vMasternodes : List CMasternode
  mapSeenMasternodeBroadcast : OrderedStore Uint256 CMasternodeBroadcast
  mapSeenMasternodePing : OrderedStore Uint256 CMasternodePing
  mAskedUsForMasternodeList : OrderedStore CNetAddr Int
  mWeAskedForMasternodeList : OrderedStore CNetAddr Int
  mWeAskedForMasternodeListEntry : OrderedStore COutPoint Int
  mapSeenSyncMNB : OrderedStore Uint256 Int

def ListState.man (state : ListState) : CMasternodeMan :=
  { vMasternodes := state.vMasternodes
    mapSeenMasternodeBroadcast := state.mapSeenMasternodeBroadcast.read
    mapSeenMasternodePing := state.mapSeenMasternodePing.read }

section Loops

variable (services : Services) (signer : Signer) (env : Environment)

def eraseBroadcasts (vin : CTxIn) :
    List (Uint256 × CMasternodeBroadcast) → ListState → ListState
  | [], state => state
  | it3 :: ahead, state =>
    if it3.2.vin = vin then
      eraseBroadcasts vin ahead
        { state with
          mapSeenSyncMNB := state.mapSeenSyncMNB.erase it3.1
          mapSeenMasternodeBroadcast := state.mapSeenMasternodeBroadcast.erase it3.1 }
    else eraseBroadcasts vin ahead state

def forgetAsked (prevout : COutPoint) (state : ListState) : ListState :=
  { state with
    mWeAskedForMasternodeListEntry :=
      .eraseWhere (fun it2 => it2.1 == prevout) state.mWeAskedForMasternodeListEntry.records
        state.mWeAskedForMasternodeListEntry }

/-- Removes the inactive and outdated entries, with those before the iterator apart. -/
def removeInactive (forceExpiredRemoval : Bool) :
    List CMasternode → List CMasternode → ListState → ListState
  | _, [], state => state
  | passed, it :: ahead, state =>
    if isInactive env forceExpiredRemoval it then
      let forgotten := forgetAsked it.vin.prevout
        (eraseBroadcasts it.vin state.mapSeenMasternodeBroadcast.records state)
      removeInactive forceExpiredRemoval passed ahead
        { forgotten with vMasternodes := passed ++ ahead }
    else removeInactive forceExpiredRemoval (passed ++ [it]) ahead state

def isOver {κ : Type} (entry : κ × Int) : Bool := decide (entry.2 < env.here.getTime)

/-- A ping so old is forgotten, alone or with its broadcast. -/
def isOld (ping : CMasternodePing) : Bool :=
  decide (ping.sigTime < env.here.getTime - masternodeRemovalSeconds * 2)

/-- Erases the old broadcasts; the one the iterator stands on is not counted, `none` behind the end.
-/
def eraseOldBroadcasts :
    List (Uint256 × CMasternodeBroadcast) → ListState → Option ListState
  | [], state => some state
  | it3 :: ahead, state =>
    if isOld env it3.2.lastPing then
      let erased :=
        { state with
          mapSeenMasternodeBroadcast := state.mapSeenMasternodeBroadcast.erase it3.1 }
      match ahead with
      | [] => none
      | next :: rest =>
        eraseOldBroadcasts (next :: rest)
          { erased with
            mapSeenSyncMNB := erased.mapSeenSyncMNB.erase (next.2.getHash signer) }
    else eraseOldBroadcasts ahead state

def check (state : ListState) : ListState :=
  { state with
    vMasternodes := state.vMasternodes.map fun mn => mn.check services env (.list mn.vin) false }

def eraseOver (state : ListState) : ListState :=
  { state with
    mAskedUsForMasternodeList :=
      .eraseWhere (isOver env) state.mAskedUsForMasternodeList.records
        state.mAskedUsForMasternodeList
    mWeAskedForMasternodeList :=
      .eraseWhere (isOver env) state.mWeAskedForMasternodeList.records
        state.mWeAskedForMasternodeList
    mWeAskedForMasternodeListEntry :=
      .eraseWhere (isOver env) state.mWeAskedForMasternodeListEntry.records
        state.mWeAskedForMasternodeListEntry }

def eraseOldPings (state : ListState) : ListState :=
  { state with
    mapSeenMasternodePing :=
      .eraseWhere (fun it4 => isOld env it4.2) state.mapSeenMasternodePing.records
        state.mapSeenMasternodePing }

/-- `CheckAndRemove`; `none` where an iterator is read behind the end. -/
def checkAndRemove (forceExpiredRemoval : Bool) (state : ListState) : Option ListState :=
  let checked := check services env state
  let removed := removeInactive env forceExpiredRemoval [] checked.vMasternodes checked
  let asked := eraseOver env removed
  (eraseOldBroadcasts signer env asked.mapSeenMasternodeBroadcast.records asked).map
    (eraseOldPings env)

end Loops

section Statements

variable (services : Services) (signer : Signer) (env : Environment) (forceExpiredRemoval : Bool)

def removedEntries (state : ListState) : List CMasternode :=
  (check services env state).vMasternodes.filter (isInactive env forceExpiredRemoval)

/-- The entry is one that is asked for and whose masternode is removed. -/
def IsOfRemoved (state : ListState) (outpoint : COutPoint) : Prop :=
  ∃ mn ∈ removedEntries services env forceExpiredRemoval state, outpoint = mn.vin.prevout

/-- The list and each map have lost exactly what they should; of the entries asked for
those of `lostEntry`. -/
structure CleansExactly (lostEntry : COutPoint × Int → Prop) (before after : ListState) :
    Prop where
  listed : after.vMasternodes = (check services env before).vMasternodes.filter
    fun mn => !isInactive env forceExpiredRemoval mn
  broadcasts : ∀ record, record ∈ after.mapSeenMasternodeBroadcast.records ↔
    record ∈ before.mapSeenMasternodeBroadcast.records ∧
      ¬((∃ mn ∈ removedEntries services env forceExpiredRemoval before,
          record.2.vin = mn.vin) ∨ isOld env record.2.lastPing = true)
  pings : ∀ record, record ∈ after.mapSeenMasternodePing.records ↔
    record ∈ before.mapSeenMasternodePing.records ∧ ¬isOld env record.2 = true
  askedUs : ∀ record, record ∈ after.mAskedUsForMasternodeList.records ↔
    record ∈ before.mAskedUsForMasternodeList.records ∧ ¬isOver env record = true
  weAsked : ∀ record, record ∈ after.mWeAskedForMasternodeList.records ↔
    record ∈ before.mWeAskedForMasternodeList.records ∧ ¬isOver env record = true
  weAskedEntry : ∀ record, record ∈ after.mWeAskedForMasternodeListEntry.records ↔
    record ∈ before.mWeAskedForMasternodeListEntry.records ∧ ¬lostEntry record

/-- The broadcasts that are there when the old ones are looked for. -/
def broadcastsLeft (state : ListState) : List (Uint256 × CMasternodeBroadcast) :=
  state.mapSeenMasternodeBroadcast.records.filter fun record =>
    !(removedEntries services env forceExpiredRemoval state).any fun mn => record.2.vin == mn.vin

/-- The last broadcast that is there then is not old, so that each old one has a next. -/
def NextIsThere (state : ListState) : Prop :=
  ∀ last, (broadcastsLeft services env forceExpiredRemoval state).getLast? = some last →
    isOld env last.2.lastPing = false

end Statements

section Facts

variable (services : Services) (signer : Signer) (env : Environment) (forceExpiredRemoval : Bool)

theorem eraseBroadcasts_eq (vin : CTxIn) (ahead : List (Uint256 × CMasternodeBroadcast))
    (state : ListState) :
    ∃ counted, eraseBroadcasts vin ahead state =
      { state with
        mapSeenMasternodeBroadcast :=
          .eraseWhere (fun it3 => it3.2.vin == vin) ahead state.mapSeenMasternodeBroadcast
        mapSeenSyncMNB := counted } := by
  induction ahead generalizing state with
  | nil => exact ⟨state.mapSeenSyncMNB, rfl⟩
  | cons it3 ahead ih =>
    unfold eraseBroadcasts OrderedStore.eraseWhere
    by_cases isSeen : it3.2.vin = vin
    · rw [if_pos isSeen, if_pos (beq_iff_eq.mpr isSeen)]
      exact ih _
    · rw [if_neg isSeen, if_neg (by simpa using isSeen)]
      exact ih _

/-- What has been done once the entries `gone` are off the list. -/
structure Removed (gone : List CMasternode) (before after : ListState) : Prop where
  broadcasts : ∀ record, record ∈ after.mapSeenMasternodeBroadcast.records ↔
    record ∈ before.mapSeenMasternodeBroadcast.records ∧ ¬∃ mn ∈ gone, record.2.vin = mn.vin
  asked : ∀ record, record ∈ after.mWeAskedForMasternodeListEntry.records ↔
    record ∈ before.mWeAskedForMasternodeListEntry.records ∧
      ¬∃ mn ∈ gone, record.1 = mn.vin.prevout
  pings : after.mapSeenMasternodePing = before.mapSeenMasternodePing
  askedUs : after.mAskedUsForMasternodeList = before.mAskedUsForMasternodeList
  weAsked : after.mWeAskedForMasternodeList = before.mWeAskedForMasternodeList

theorem Removed.refl (state : ListState) : Removed [] state state where
  broadcasts record := by simp
  asked record := by simp
  pings := rfl
  askedUs := rfl
  weAsked := rfl

theorem Removed.trans {first second : List CMasternode} {before between after : ListState}
    (removed : Removed first before between) (next : Removed second between after) :
    Removed (first ++ second) before after where
  broadcasts record := by
    rw [next.broadcasts, removed.broadcasts, and_assoc, ← not_or]
    simp only [mem_append, or_and_right, exists_or]
  asked record := by
    rw [next.asked, removed.asked, and_assoc, ← not_or]
    simp only [mem_append, or_and_right, exists_or]
  pings := next.pings.trans removed.pings
  askedUs := next.askedUs.trans removed.askedUs
  weAsked := next.weAsked.trans removed.weAsked

theorem forgetAsked_removed (mn : CMasternode) (state : ListState) (list : List CMasternode) :
    Removed [mn] state
      { forgetAsked mn.vin.prevout
          (eraseBroadcasts mn.vin state.mapSeenMasternodeBroadcast.records state) with
        vMasternodes := list } := by
  rcases eraseBroadcasts_eq mn.vin state.mapSeenMasternodeBroadcast.records state with
    ⟨counted, erased⟩
  rw [erased]
  constructor
  · intro record
    simp [forgetAsked, OrderedStore.mem_eraseWhere]
  · intro record
    simp [forgetAsked, OrderedStore.mem_eraseWhere]
  · rfl
  · rfl
  · rfl

theorem removeInactive_spec (ahead passed : List CMasternode) (state : ListState)
    (whole : state.vMasternodes = passed ++ ahead) :
    (removeInactive env forceExpiredRemoval passed ahead state).vMasternodes =
        passed ++ ahead.filter (fun mn => !isInactive env forceExpiredRemoval mn) ∧
      Removed (ahead.filter (isInactive env forceExpiredRemoval)) state
        (removeInactive env forceExpiredRemoval passed ahead state) := by
  induction ahead generalizing passed state with
  | nil =>
    refine ⟨?_, Removed.refl state⟩
    unfold removeInactive
    rw [whole, filter_nil]
  | cons it ahead ih =>
    unfold removeInactive
    by_cases inactive : isInactive env forceExpiredRemoval it = true
    · rw [if_pos inactive, filter_cons_of_pos inactive,
        filter_cons_of_neg (by simp [inactive])]
      rcases ih passed
        { forgetAsked it.vin.prevout
            (eraseBroadcasts it.vin state.mapSeenMasternodeBroadcast.records state) with
          vMasternodes := passed ++ ahead } rfl with ⟨listed, removed⟩
      exact ⟨listed, (forgetAsked_removed it state (passed ++ ahead)).trans removed⟩
    · rw [if_neg inactive, filter_cons_of_neg inactive,
        filter_cons_of_pos (by simp [inactive])]
      rcases ih (passed ++ [it]) state (by rw [whole, append_assoc]; rfl) with
        ⟨listed, removed⟩
      refine ⟨?_, removed⟩
      rw [listed, append_assoc]
      rfl

variable (ahead : List (Uint256 × CMasternodeBroadcast)) (state : ListState)

/-- The loop over the old broadcasts comes to its end if the last of them is not old,
and erases the old ones. -/
theorem eraseOldBroadcasts_some (next : ∀ last, ahead.getLast? = some last → isOld env last.2.lastPing = false) :
    ∃ counted, eraseOldBroadcasts signer env ahead state =
      some { state with
        mapSeenMasternodeBroadcast :=
          .eraseWhere (fun it3 => isOld env it3.2.lastPing) ahead
            state.mapSeenMasternodeBroadcast
        mapSeenSyncMNB := counted } := by
  induction ahead generalizing state with
  | nil => exact ⟨state.mapSeenSyncMNB, rfl⟩
  | cons it3 ahead ih =>
    have nextAhead : ∀ last, ahead.getLast? = some last →
        isOld env last.2.lastPing = false := by
      intro last isLast
      apply next
      rw [getLast?_cons, isLast]
      rfl
    unfold eraseOldBroadcasts OrderedStore.eraseWhere
    by_cases old : isOld env it3.2.lastPing = true
    · rw [if_pos old, if_pos old]
      cases ahead with
      | nil =>
        rw [next it3 rfl] at old
        cases old
      | cons following rest => exact ih _ nextAhead
    · rw [if_neg old, if_neg old]
      exact ih _ nextAhead

theorem eraseOldBroadcasts_none (last : Uint256 × CMasternodeBroadcast)
    (isLast : ahead.getLast? = some last) (old : isOld env last.2.lastPing = true) :
    eraseOldBroadcasts signer env ahead state = none := by
  induction ahead generalizing state with
  | nil => cases isLast
  | cons it3 ahead ih =>
    unfold eraseOldBroadcasts
    cases ahead with
    | nil =>
      have here : it3 = last := some.inj isLast
      rw [here, if_pos old]
    | cons following rest =>
      have later : (following :: rest).getLast? = some last := isLast
      by_cases oldHere : isOld env it3.2.lastPing = true
      · rw [if_pos oldHere]
        exact ih _ later
      · rw [if_neg oldHere]
        exact ih _ later

theorem records_left (state between : ListState)
    (removed : Removed (removedEntries services env forceExpiredRemoval state) state between) :
    between.mapSeenMasternodeBroadcast.records =
      broadcastsLeft services env forceExpiredRemoval state := by
  let left : OrderedStore Uint256 CMasternodeBroadcast :=
    { records := broadcastsLeft services env forceExpiredRemoval state
      ordered := state.mapSeenMasternodeBroadcast.ordered.filter _ }
  apply OrderedStore.records_eq_of_mem_iff _ left
  intro record
  rw [removed.broadcasts]
  simp [left, broadcastsLeft]

def withoutInactive (state : ListState) : ListState :=
  removeInactive env forceExpiredRemoval [] (check services env state).vMasternodes
    (check services env state)

theorem withoutInactive_listed (state : ListState) :
    (withoutInactive services env forceExpiredRemoval state).vMasternodes =
      (check services env state).vMasternodes.filter
        fun mn => !isInactive env forceExpiredRemoval mn :=
  (removeInactive_spec env forceExpiredRemoval _ [] (check services env state) rfl).1

theorem withoutInactive_removed (state : ListState) :
    Removed (removedEntries services env forceExpiredRemoval state) state
      (withoutInactive services env forceExpiredRemoval state) := by
  have removed :=
    (removeInactive_spec env forceExpiredRemoval _ [] (check services env state) rfl).2
  exact ⟨removed.broadcasts, removed.asked, removed.pings, removed.askedUs, removed.weAsked⟩

theorem checkAndRemove_eq (state : ListState) :
    checkAndRemove services signer env forceExpiredRemoval state =
      (eraseOldBroadcasts signer env (broadcastsLeft services env forceExpiredRemoval state)
        (eraseOver env (withoutInactive services env forceExpiredRemoval state))).map
          (eraseOldPings env) := by
  rw [← records_left services env forceExpiredRemoval state _
    (withoutInactive_removed services env forceExpiredRemoval state)]
  rfl

end Facts

variable (services : Services) (signer : Signer) (env : Environment) (forceExpiredRemoval : Bool)
  (state : ListState)

/-- The loop over the broadcasts steps behind the end exactly if the last one left is old. -/
theorem checkAndRemove_stops_iff :
    checkAndRemove services signer env forceExpiredRemoval state = none ↔
      ¬NextIsThere services env forceExpiredRemoval state := by
  rw [checkAndRemove_eq, map_eq_none_iff]
  constructor
  · intro stops nextIsThere
    rcases eraseOldBroadcasts_some signer env _
      (eraseOver env (withoutInactive services env forceExpiredRemoval state)) nextIsThere with
      ⟨counted, ends⟩
    rw [ends] at stops
    cases stops
  · intro notThere
    obtain ⟨last, notLast⟩ := not_forall.mp notThere
    obtain ⟨isLast, old⟩ := Classical.not_imp.mp notLast
    exact eraseOldBroadcasts_none signer env _ _ last isLast (by simpa using old)

/-- A clean-up takes away exactly what is inactive, over or old, and what was seen of a masternode
that it removes, which can be announced again. -/
theorem cleans_exactly (services : Services) (signer : Signer) (env : Environment)
    (forceExpiredRemoval : Bool) (state : ListState)
    (nextIsThere : NextIsThere services env forceExpiredRemoval state) :
    ∃ cleaned, checkAndRemove services signer env forceExpiredRemoval state = some cleaned ∧
      CleansExactly services env forceExpiredRemoval
        (fun entry => IsOfRemoved services env forceExpiredRemoval state entry.1 ∨
          isOver env entry = true)
        state cleaned := by
  have listed := withoutInactive_listed services env forceExpiredRemoval state
  have removed := withoutInactive_removed services env forceExpiredRemoval state
  have left := records_left services env forceExpiredRemoval state _ removed
  rcases eraseOldBroadcasts_some signer env _
    (eraseOver env (withoutInactive services env forceExpiredRemoval state)) nextIsThere with
    ⟨counted, ends⟩
  refine ⟨_, by rw [checkAndRemove_eq, ends, map_some], ?_⟩
  constructor
  · exact listed
  · intro record
    rw [not_or, ← and_assoc, ← removed.broadcasts, ← left]
    simp [eraseOldPings, eraseOver, OrderedStore.mem_eraseWhere]
  · intro record
    simp [eraseOldPings, eraseOver, OrderedStore.mem_eraseWhere, removed.pings]
  · intro record
    simp [eraseOldPings, eraseOver, OrderedStore.mem_eraseWhere, removed.askedUs]
  · intro record
    simp [eraseOldPings, eraseOver, OrderedStore.mem_eraseWhere, removed.weAsked]
  · intro record
    rw [not_or, ← and_assoc]
    unfold IsOfRemoved
    rw [← removed.asked]
    simp [eraseOldPings, eraseOver, OrderedStore.mem_eraseWhere]

def ListState.empty : ListState :=
  { vMasternodes := []
    mapSeenMasternodeBroadcast := .empty
    mapSeenMasternodePing := .empty
    mAskedUsForMasternodeList := .empty
    mWeAskedForMasternodeList := .empty
    mWeAskedForMasternodeListEntry := .empty
    mapSeenSyncMNB := .empty }

/-- A masternode whose collateral has been found spent, just checked. -/
def spentEntry : CMasternode :=
  { CMasternode.ofBroadcast (attackerBroadcast 1) with
    activeState := .vinSpent
    lastTimeChecked := 1600000600 }

/-- It has been asked for, and can be asked for again in five minutes. -/
def askedAndSpent : ListState :=
  { ListState.empty with
    vMasternodes := [spentEntry]
    mWeAskedForMasternodeListEntry :=
      OrderedStore.empty.write spentEntry.vin.prevout 1600000900 }

/-- An entry asked for is lost before its time. -/
theorem asked_again_early :
    ¬ ∀ (services : Services) (signer : Signer) (env : Environment)
      (forceExpiredRemoval : Bool) (state : ListState),
      ∃ cleaned, checkAndRemove services signer env forceExpiredRemoval state = some cleaned ∧
        CleansExactly services env forceExpiredRemoval (fun entry => isOver env entry = true)
          state cleaned := by
  intro claimed
  rcases claimed mainnetServices exampleSigner syncedNode false askedAndSpent with
    ⟨cleaned, ends, exact⟩
  have none : (checkAndRemove mainnetServices exampleSigner syncedNode false askedAndSpent).map
      (fun state => state.mWeAskedForMasternodeListEntry.records) = some [] := by decide +kernel
  rw [ends] at none
  have lost : cleaned.mWeAskedForMasternodeListEntry.records = [] := some.inj none
  have kept := (exact.weAskedEntry (spentEntry.vin.prevout, 1600000900)).mpr
    ⟨by decide +kernel, by decide +kernel⟩
  rw [lost] at kept
  cases kept

/-- A masternode that stays and one that is removed, an old broadcast and a new one. -/
def mixedState : ListState :=
  { ListState.empty with
    vMasternodes :=
      [{ CMasternode.ofBroadcast (attackerBroadcast 0) with lastTimeChecked := 1600000600 },
       spentEntry]
    mapSeenMasternodeBroadcast :=
      (OrderedStore.empty.write 5
        { attackerBroadcast 2 with lastPing := { (attackerBroadcast 2).lastPing with
          sigTime := 1500000000 } }).write 7 (attackerBroadcast 0)
    mWeAskedForMasternodeListEntry :=
      OrderedStore.empty.write spentEntry.vin.prevout 1600000900 }

theorem mixed_state_cleaned :
    ∃ cleaned, checkAndRemove mainnetServices exampleSigner syncedNode true mixedState =
        some cleaned ∧
      CleansExactly mainnetServices syncedNode true
        (fun entry => IsOfRemoved mainnetServices syncedNode true mixedState entry.1 ∨
          isOver syncedNode entry = true)
        mixedState cleaned := by
  apply cleans_exactly
  intro last isLast
  have recent : ((broadcastsLeft mainnetServices syncedNode true mixedState).getLast?).map
      (fun record => isOld syncedNode record.2.lastPing) = some false := by decide +kernel
  rw [isLast] at recent
  exact some.inj recent

theorem read_filter {κ : Type} [LinearOrder κ] {β : Type} (before after : OrderedStore κ β)
    (keeps : β → Bool)
    (kept : ∀ record, record ∈ after.records ↔ record ∈ before.records ∧ keeps record.2 = true)
    (key : κ) : after.read key = (before.read key).filter keeps := by
  apply ext
  intro value
  rw [OrderedStore.read_eq_some, kept, filter_eq_some_iff, OrderedStore.read_eq_some]

/-- Such a clean-up is that of the plain list. -/
theorem CleansExactly.man_eq {lostEntry : COutPoint × Int → Prop} {cleaned : ListState}
    (exact : CleansExactly services env forceExpiredRemoval lostEntry state cleaned) :
    cleaned.man = MasternodeMan.checkAndRemove services env forceExpiredRemoval state.man := by
  unfold ListState.man MasternodeMan.checkAndRemove
  rw [CMasternodeMan.mk.injEq]
  refine ⟨exact.listed, ?_, ?_⟩
  · funext hash
    apply read_filter
    intro record
    rw [exact.broadcasts]
    simp only [@eq_comm _ record.2.vin]
    simp [removedEntries, check, isOld]
  · funext hash
    apply read_filter
    intro record
    rw [exact.pings]
    simp [isOld]

end ZenonCore.ListCleanup
