import ZenonCore.PingAuthenticity

/-!
# Last pings go forward

A ping is taken some time after the last one; a broadcast that renews an entry has its ping
checked in the same way, but for its outpoint. An entry that is not enabled is added anew.
-/

namespace ZenonCore.PingAdvance

open Script Primitives Chain Chainstate List Option
open Validation
open Masternode MasternodeMan CollateralOwnership
open PingAuthenticity ValueGate Library.Runs

def entryAt (man : CMasternodeMan) (outpoint : COutPoint) : Option CMasternode :=
  man.vMasternodes.find? fun mn => mn.vin.prevout == outpoint

/-- The broadcast passes `CheckAndUpdate` and its entry is not enabled: it is taken off the list. -/
def replaces (services : Services) (signer : Signer) (env : Environment) (man : CMasternodeMan)
    (mnb : CMasternodeBroadcast) : Bool :=
  let checked :=
    checkBroadcast services signer env (man.rememberBroadcast (mnb.getHash signer) mnb) mnb
  checked.accepted && (checked.man.find mnb.vin).any fun pmn => !pmn.isEnabled

/-- The event takes no entry off the list, nor brings it a ping with the time that stands for now,
or a ping of another masternode. -/
def Steady (services : Services) (signer : Signer) (outpoint : COutPoint) (man : CMasternodeMan) :
    Event → Prop
  | .mnb env mnb =>
    (mnb.lastPing.vin.prevout = outpoint → mnb.lastPing.sigTime ≠ -1) ∧
      (mnb.vin.prevout = outpoint → mnb.lastPing.vin.prevout = outpoint ∧
        replaces services signer env man mnb = false)
  | .mnp _ mnp => mnp.vin.prevout = outpoint → mnp.sigTime ≠ -1
  | .checkAndRemove env forceExpiredRemoval =>
    (entryAt (checkAndRemove services env forceExpiredRemoval man) outpoint).isSome

instance (services : Services) (signer : Signer) (outpoint : COutPoint) (man : CMasternodeMan) :
    (event : Event) → Decidable (Steady services signer outpoint man event)
  | .mnb .. => inferInstanceAs (Decidable (_ ∧ _))
  | .mnp .. => inferInstanceAs (Decidable (_ → _))
  | .checkAndRemove .. => inferInstanceAs (Decidable (Option.isSome _ = true))

def isMessage : Event → Bool
  | .mnb .. => true
  | .mnp .. => true
  | .checkAndRemove .. => false

def ProbesKey (event : Event) : Prop :=
  ∃ keyID, event.env.collateralPubKey = getScriptForDestination keyID

/-- The stand-alone ping is looked at and `CheckAndUpdate` accepts it. -/
def acceptsPing (services : Services) (signer : Signer) (env : Environment)
    (man : CMasternodeMan) (mnp : CMasternodePing) : Bool :=
  let hash := signer.hashPing mnp.vin mnp.sigTime
  !(env.fLiteMode || !env.isBlockchainSynced) && (man.mapSeenMasternodePing hash).isNone &&
    (checkPing services signer env (man.rememberPing hash mnp) mnp 0 true false).accepted

structure Sound (man : CMasternodeMan) : Prop where
  distinct : (man.vMasternodes.map fun mn => mn.vin.prevout).Nodup
  notNull : COutPoint.null ∉ man.vMasternodes.map fun mn => mn.vin.prevout
  pinged : ∀ mn ∈ man.vMasternodes, mn.lastPing.same .empty = false

/-- The entry of the outpoint stays listed, and its last ping does not go back. -/
def Advanced (outpoint : COutPoint) (before after : CMasternodeMan) : Prop :=
  ∀ first, entryAt before outpoint = some first →
    ∃ last, entryAt after outpoint = some last ∧ first.lastPing.sigTime ≤ last.lastPing.sigTime

theorem Advanced.refl (outpoint : COutPoint) (man : CMasternodeMan) : Advanced outpoint man man :=
  fun first listed => ⟨first, listed, le_refl _⟩

theorem Advanced.trans {outpoint : COutPoint} {before between after : CMasternodeMan}
    (first : Advanced outpoint before between) (second : Advanced outpoint between after) :
    Advanced outpoint before after := by
  intro mn listed
  obtain ⟨middle, listedMiddle, notBack⟩ := first mn listed
  obtain ⟨last, listedLast, stillNotBack⟩ := second middle listedMiddle
  exact ⟨last, listedLast, le_trans notBack stillNotBack⟩

/-- A broadcast lets no last ping go back, if its ping has a proper time and its own entry's
outpoint. -/
def Moves (mnb : CMasternodeBroadcast) (before after : CMasternodeMan) : Prop :=
  ∀ outpoint, (mnb.lastPing.vin.prevout = outpoint → mnb.lastPing.sigTime ≠ -1) →
    (mnb.vin.prevout = outpoint → mnb.lastPing.vin.prevout = outpoint) →
      Advanced outpoint before after

theorem Moves.refl (mnb : CMasternodeBroadcast) (man : CMasternodeMan) : Moves mnb man man :=
  fun outpoint _ _ => Advanced.refl outpoint man

section Entries

variable (man : CMasternodeMan)

theorem entryAt_prevout (outpoint : COutPoint) (mn : CMasternode)
    (listed : entryAt man outpoint = some mn) : mn.vin.prevout = outpoint := by
  have holds := find?_some listed
  exact beq_iff_eq.mp holds

theorem entryAt_mem (outpoint : COutPoint) (mn : CMasternode)
    (listed : entryAt man outpoint = some mn) : mn ∈ man.vMasternodes :=
  mem_of_find?_eq_some listed

variable (mn : CMasternode)

theorem writeEntry_prevouts (list : List CMasternode) :
    (CMasternodeMan.writeEntry mn list).map (fun other => other.vin.prevout) =
      list.map fun other => other.vin.prevout := by
  induction list with
  | nil => rfl
  | cons first rest ih =>
    unfold CMasternodeMan.writeEntry
    split
    · rename_i here
      rw [map_cons, map_cons, here]
    · rw [map_cons, map_cons, ih]

theorem entryAt_write_other (outpoint : COutPoint)
    (other : mn.vin.prevout ≠ outpoint) :
    entryAt (man.write mn) outpoint = entryAt man outpoint := by
  unfold entryAt CMasternodeMan.write
  dsimp only
  generalize man.vMasternodes = list
  induction list with
  | nil => rfl
  | cons first rest ih =>
    unfold CMasternodeMan.writeEntry
    split
    · rename_i here
      rw [find?_cons_of_neg (by simpa using other),
        find?_cons_of_neg (by rw [here]; simpa using other)]
    · rw [find?_cons, find?_cons, ih]

theorem entryAt_write_same (mn first : CMasternode)
    (listed : entryAt man mn.vin.prevout = some first) :
    entryAt (man.write mn) mn.vin.prevout = some mn := by
  unfold entryAt CMasternodeMan.write at *
  dsimp only
  generalize man.vMasternodes = list at listed ⊢
  induction list with
  | nil => cases listed
  | cons head rest ih =>
    unfold CMasternodeMan.writeEntry
    split
    · rw [find?_cons_of_pos (by simp)]
    · rename_i elsewhere
      rw [find?_cons_of_neg (by simpa using elsewhere)] at listed ⊢
      exact ih listed

theorem write_sound (sound : Sound man)
    (pinged : mn.lastPing.same .empty = false) : Sound (man.write mn) := by
  constructor
  · unfold CMasternodeMan.write
    rw [writeEntry_prevouts]
    exact sound.distinct
  · unfold CMasternodeMan.write
    rw [writeEntry_prevouts]
    exact sound.notNull
  · intro other member
    obtain written | kept := mem_writeEntry mn other man.vMasternodes member
    · rw [written]
      exact pinged
    · exact sound.pinged other kept

theorem write_advanced (outpoint : COutPoint)
    (later : mn.vin.prevout = outpoint → ∀ first, entryAt man outpoint = some first →
      first.lastPing.sigTime ≤ mn.lastPing.sigTime) :
    Advanced outpoint man (man.write mn) := by
  intro first listed
  by_cases same : mn.vin.prevout = outpoint
  · have notBack := later same first listed
    subst same
    exact ⟨mn, entryAt_write_same man mn first listed, notBack⟩
  · rw [entryAt_write_other man mn outpoint same]
    exact ⟨first, listed, le_refl _⟩

theorem remove_sound (vin : CTxIn) (sound : Sound man) : Sound (man.remove vin) := by
  have sublist : (man.remove vin).vMasternodes.Sublist man.vMasternodes := eraseP_sublist
  constructor
  · exact sound.distinct.sublist (sublist.map _)
  · exact fun member => sound.notNull ((sublist.map _).subset member)
  · exact fun mn member => sound.pinged mn (sublist.subset member)

theorem remove_advanced (vin : CTxIn) (outpoint : COutPoint) (other : vin.prevout ≠ outpoint) :
    Advanced outpoint man (man.remove vin) := by
  intro first listed
  refine ⟨first, ?_, le_refl _⟩
  unfold entryAt CMasternodeMan.remove at *
  dsimp only
  generalize man.vMasternodes = list at listed ⊢
  induction list with
  | nil => cases listed
  | cons head rest ih =>
    by_cases here : head.vin = vin
    · rw [eraseP_cons_of_pos (by simpa using here)]
      rwa [find?_cons_of_neg (by rw [here]; simpa using other)] at listed
    · rw [eraseP_cons_of_neg (by simpa using here)]
      rw [find?_cons] at listed ⊢
      split
      · rename_i found
        rwa [found] at listed
      · rename_i passed
        rw [passed] at listed
        exact ih listed

variable (env : Environment) (mn : CMasternode)

theorem add_cases :
    man.add env mn = man ∨
      man.find mn.vin = none ∧ ∃ added : CMasternode,
        added.toCMasternodeBroadcast = mn.toCMasternodeBroadcast ∧
          (man.add env mn).vMasternodes = man.vMasternodes ++ [added] := by
  unfold CMasternodeMan.add
  split
  · exact Or.inl rfl
  · split
    · exact Or.inl rfl
    · rename_i absent
      refine Or.inr ⟨absent, _, ?_, rfl⟩
      repeat' split
      all_goals rfl

theorem add_sound (sound : Sound man)
    (notNull : mn.vin.prevout ≠ .null) (pinged : mn.lastPing.same .empty = false) :
    Sound (man.add env mn) := by
  obtain same | ⟨absent, added, isEntry, list⟩ := add_cases man env mn
  · rw [same]
    exact sound
  have new : mn.vin.prevout ∉ man.vMasternodes.map fun other => other.vin.prevout := by
    intro member
    obtain ⟨other, inList, same⟩ := mem_map.mp member
    exact absurd (find?_eq_none.mp absent other inList) (by simpa using same)
  have vin : added.vin = mn.vin := congrArg CMasternodeBroadcast.vin isEntry
  constructor
  · rw [list, map_append, map_singleton, vin]
    exact List.Nodup.append sound.distinct (nodup_singleton _)
      (disjoint_singleton.mpr new)
  · rw [list, map_append, map_singleton, vin, mem_append, mem_singleton]
    exact fun either => either.elim sound.notNull fun same => notNull same.symm
  · intro other member
    rw [list] at member
    obtain old | isAdded := mem_append.mp member
    · exact sound.pinged other old
    · rw [mem_singleton.mp isAdded,
        show added.lastPing = mn.lastPing from congrArg CMasternodeBroadcast.lastPing isEntry]
      exact pinged

theorem add_advanced (outpoint : COutPoint) :
    Advanced outpoint man (man.add env mn) := by
  obtain same | ⟨_, added, _, list⟩ := add_cases man env mn
  · rw [same]
    exact Advanced.refl outpoint man
  · intro first listed
    refine ⟨first, ?_, le_refl _⟩
    unfold entryAt at listed ⊢
    rw [list, find?_append, listed]
    rfl

end Entries

section Messages

variable (services : Services) (signer : Signer) (env : Environment) (man : CMasternodeMan)

variable (ping : CMasternodePing)

/-- A ping that is not only checked for its time is refused without a change, or in time and taken
over. -/
theorem checkPing_whole (nDoS : Nat) (fRequireEnabled : Bool)
    (outcome : Outcome)
    (done : checkPing services signer env man ping nDoS fRequireEnabled false = outcome) :
    outcome.man = man ∧ outcome.accepted = false ∨
      ∃ pmn : CMasternode, entryAt man ping.vin.prevout = some pmn ∧
        pmn.isPingedWithin env (masternodeMinMnpSeconds - 60) ping.sigTime = false ∧
          outcome.man = (man.write ({ pmn with lastPing := ping }.check services env .ping
            true)).refreshBroadcast
              (CMasternodeBroadcast.getHash signer { pmn with lastPing := ping }) ping := by
  rcases checkPing_cases services signer env man ping nDoS fRequireEnabled false outcome done with
    ⟨same, onlyTime⟩ | ⟨_, pmn, found, notEarly, _, written⟩
  · left
    refine ⟨same, ?_⟩
    rw [Bool.eq_false_iff]
    intro accepted
    cases (onlyTime accepted).1
  · exact Or.inr ⟨pmn, found, notEarly, written⟩

theorem spaced_of_not_early (pmn : CMasternode)
    (pinged : pmn.lastPing.same .empty = false) (dated : ping.sigTime ≠ -1)
    (notEarly : pmn.isPingedWithin env (masternodeMinMnpSeconds - 60) ping.sigTime = false) :
    pmn.lastPing.sigTime + (masternodeMinMnpSeconds - 60) ≤ ping.sigTime := by
  unfold CMasternode.isPingedWithin at notEarly
  rw [pinged, if_neg (by decide : ¬false = true), if_neg dated] at notEarly
  have apart := of_decide_eq_false notEarly
  omega

theorem listed_ping_not_empty (pmn : CMasternode) (sound : Sound man)
    (listed : entryAt man ping.vin.prevout = some pmn) : ping.same .empty = false := by
  apply Bool.eq_false_iff.mpr
  intro empty
  have vin : ping.vin = emptyTxIn := beq_iff_eq.mp (Bool.and_eq_true_iff.mp empty).1
  apply sound.notNull
  rw [vin] at listed
  rw [← show pmn.vin.prevout = COutPoint.null from entryAt_prevout man _ pmn listed]
  exact mem_map.mpr ⟨pmn, entryAt_mem man _ pmn listed, rfl⟩

theorem check_entry (site : LockSite) (forceCheck : Bool) (mn : CMasternode) :
    (mn.check services env site forceCheck).lastPing = mn.lastPing ∧
      (mn.check services env site forceCheck).vin = mn.vin := by
  have entry := CMasternode.check_toCMasternodeBroadcast services env site forceCheck mn
  exact ⟨congrArg CMasternodeBroadcast.lastPing entry, congrArg CMasternodeBroadcast.vin entry⟩

theorem checkPing_spec (nDoS : Nat)
    (fRequireEnabled fCheckSigTimeOnly : Bool) (sound : Sound man) :
    Sound (checkPing services signer env man ping nDoS fRequireEnabled fCheckSigTimeOnly).man ∧
      ∀ outpoint, (ping.vin.prevout = outpoint → ping.sigTime ≠ -1) →
        Advanced outpoint man
          (checkPing services signer env man ping nDoS fRequireEnabled fCheckSigTimeOnly).man := by
  cases fCheckSigTimeOnly with
  | true =>
    rw [(checkPing_time services signer env man ping nDoS fRequireEnabled).1]
    exact ⟨sound, fun outpoint _ => Advanced.refl outpoint man⟩
  | false =>
    rcases checkPing_whole services signer env man ping nDoS fRequireEnabled _ rfl with
      ⟨same, _⟩ | ⟨pmn, listed, notEarly, written⟩
    · rw [same]
      exact ⟨sound, fun outpoint _ => Advanced.refl outpoint man⟩
    rcases check_entry services env .ping true { pmn with lastPing := ping } with
      ⟨lastPing, vin⟩
    rw [written]
    constructor
    · have stored := write_sound man _ sound (by
        rw [lastPing]
        exact listed_ping_not_empty man ping pmn sound listed)
      exact ⟨stored.distinct, stored.notNull, stored.pinged⟩
    · intro outpoint dated
      refine write_advanced man _ outpoint ?_
      intro same first firstListed
      have isOutpoint : ping.vin.prevout = outpoint := by
        rw [← same, vin]
        exact (entryAt_prevout man _ pmn listed).symm
      have isFirst : first = pmn := by
        rw [← isOutpoint] at firstListed
        exact some.inj (firstListed.symm.trans listed)
      have apart := spaced_of_not_early env ping pmn
        (sound.pinged pmn (entryAt_mem man _ pmn listed)) (dated isOutpoint) notEarly
      have spacing : masternodeMinMnpSeconds - 60 = 540 := by decide
      rw [lastPing, isFirst]
      change pmn.lastPing.sigTime ≤ ping.sigTime
      omega

theorem checkPing_accepted (nDoS : Nat) (fRequireEnabled : Bool)
    (sound : Sound man)
    (accepted :
      (checkPing services signer env man ping nDoS fRequireEnabled false).accepted = true) :
    (∃ first, entryAt man ping.vin.prevout = some first ∧
        (ping.sigTime ≠ -1 →
          first.lastPing.sigTime + (masternodeMinMnpSeconds - 60) ≤ ping.sigTime)) ∧
      ∃ last, entryAt (checkPing services signer env man ping nDoS fRequireEnabled false).man
        ping.vin.prevout = some last ∧ last.lastPing = ping := by
  rcases checkPing_whole services signer env man ping nDoS fRequireEnabled _ rfl with
    ⟨_, refused⟩ | ⟨pmn, listed, notEarly, written⟩
  · rw [refused] at accepted
    cases accepted
  rcases check_entry services env .ping true { pmn with lastPing := ping } with ⟨lastPing, vin⟩
  constructor
  · exact ⟨pmn, listed, fun dated => spaced_of_not_early env ping pmn
      (sound.pinged pmn (entryAt_mem man _ pmn listed)) dated notEarly⟩
  · refine ⟨_, ?_, lastPing⟩
    rw [written]
    have here : ({ pmn with lastPing := ping }.check services env .ping true).vin.prevout =
        ping.vin.prevout := by
      rw [vin]
      exact entryAt_prevout man _ pmn listed
    rw [← here] at listed ⊢
    exact entryAt_write_same man _ pmn listed

/-- A renewal keeps the time of the last ping or moves it on, if the broadcast carries a
ping of its own masternode. -/
theorem updateFromNewBroadcast_spec (pmn : CMasternode) (mnb : CMasternodeBroadcast)
    (sound : Sound man) (listed : entryAt man mnb.vin.prevout = some pmn)
    (notEmpty : mnb.lastPing.same .empty = false) :
    Sound (updateFromNewBroadcast services signer env man pmn mnb) ∧
      Moves mnb man (updateFromNewBroadcast services signer env man pmn mnb) := by
  have here : pmn.vin.prevout = mnb.vin.prevout := entryAt_prevout man _ pmn listed
  unfold updateFromNewBroadcast
  dsimp only
  simp only [notEmpty, Bool.false_eq_true, if_false]
  set renewed : CMasternode := { pmn with
    pubKeyMasternode := mnb.pubKeyMasternode
    pubKeyCollateralAddress := mnb.pubKeyCollateralAddress
    sigTime := mnb.sigTime
    sig := mnb.sig
    protocolVersion := mnb.protocolVersion
    addr := mnb.addr
    lastTimeChecked := 0 } with isRenewed
  have writtenSound : Sound (man.write renewed) :=
    write_sound man renewed sound (sound.pinged pmn (entryAt_mem man _ pmn listed))
  have writtenAdvanced : ∀ outpoint, Advanced outpoint man (man.write renewed) := by
    intro outpoint
    apply write_advanced
    intro same first firstListed
    have isOutpoint : mnb.vin.prevout = outpoint := here.symm.trans same
    rw [← isOutpoint] at firstListed
    have isFirst : first = pmn := some.inj (firstListed.symm.trans listed)
    rw [isFirst]
  have pinged := checkPing_spec services signer env (man.write renewed) mnb.lastPing 0 false false
    writtenSound
  split
  · rename_i accepted
    rcases checkPing_accepted services signer env (man.write renewed) mnb.lastPing 0 false
      writtenSound accepted with ⟨_, taken, takenListed, isTaken⟩
    set checked := checkPing services signer env (man.write renewed) mnb.lastPing 0 false false
    have entryHere : ((checked.man.find pmn.vin).getD renewed).vin.prevout = mnb.vin.prevout := by
      cases found : checked.man.find pmn.vin with
      | none => exact here
      | some entry => exact (find_prevout checked.man pmn.vin entry found).trans here
    constructor
    · have stored := write_sound checked.man
        { (checked.man.find pmn.vin).getD renewed with lastPing := mnb.lastPing } pinged.1 notEmpty
      exact ⟨stored.distinct, stored.notNull, stored.pinged⟩
    · intro outpoint dated own
      refine (writtenAdvanced outpoint).trans ((pinged.2 outpoint dated).trans ?_)
      refine write_advanced checked.man _ outpoint ?_
      intro same first firstListed
      have isOwn : mnb.lastPing.vin.prevout = outpoint := own (entryHere.symm.trans same)
      rw [isOwn] at takenListed
      have isFirst : first = taken := some.inj (firstListed.symm.trans takenListed)
      rw [isFirst, isTaken]
  · exact ⟨pinged.1, fun outpoint dated _ =>
      (writtenAdvanced outpoint).trans (pinged.2 outpoint dated)⟩

variable (mnb : CMasternodeBroadcast)

theorem updateListed_spec (nDoS : Nat) (sound : Sound man)
    (notEmpty : mnb.lastPing.same .empty = false) :
    Sound (updateListed services signer env man mnb nDoS).man ∧
      Moves mnb man (updateListed services signer env man mnb nDoS).man := by
  have same : Sound man ∧ Moves mnb man man := ⟨sound, Moves.refl mnb man⟩
  unfold updateListed
  cases found : man.find mnb.vin with
  | none => exact same
  | some pmn =>
    dsimp only
    split
    · exact same
    split
    · exact same
    split
    · have updated := updateFromNewBroadcast_spec services signer env man pmn mnb sound found
        notEmpty
      cases again : (updateFromNewBroadcast services signer env man pmn mnb).find pmn.vin with
      | none => exact updated
      | some entry =>
        obtain ⟨lastPing, vin⟩ := check_entry services env .update false entry
        constructor
        · apply write_sound _ _ updated.1
          rw [lastPing]
          exact updated.1.pinged entry (find_mem _ pmn.vin entry again)
        · intro outpoint dated own
          refine (updated.2 outpoint dated own).trans (write_advanced _ _ outpoint ?_)
          intro here first firstListed
          rw [vin, find_prevout _ pmn.vin entry again] at here
          rw [← here] at firstListed
          have isFirst : first = entry := some.inj (firstListed.symm.trans again)
          rw [isFirst, lastPing]
    · exact same

theorem checkBroadcast_accepted
    (accepted : (checkBroadcast services signer env man mnb).accepted = true) :
    mnb.lastPing.same .empty = false ∧ mnb.vin.scriptSig.isEmpty = true := by
  unfold checkBroadcast at accepted
  split at accepted
  · cases accepted
  split at accepted
  · cases accepted
  rename_i notEmpty
  dsimp only at accepted
  split at accepted
  · rename_i refused
    rw [accepted] at refused
    cases refused
  split at accepted
  · cases accepted
  split at accepted
  · cases accepted
  split at accepted
  · cases accepted
  split at accepted
  · cases accepted
  rename_i plain
  exact ⟨by simpa using notEmpty, by simpa using plain⟩

theorem checkBroadcast_empty
    (empty : mnb.lastPing.same .empty = true) :
    (checkBroadcast services signer env man mnb).man = man := by
  unfold checkBroadcast
  rw [if_pos empty]
  split
  · rfl
  · rfl

theorem checkBroadcast_spec (sound : Sound man) :
    Sound (checkBroadcast services signer env man mnb).man ∧
      Moves mnb man (checkBroadcast services signer env man mnb).man := by
  cases empty : mnb.lastPing.same .empty with
  | true =>
    rw [checkBroadcast_empty services signer env man mnb empty]
    exact ⟨sound, Moves.refl mnb man⟩
  | false =>
    rcases checkBroadcast_cases services signer env man mnb _ rfl with
      ⟨unchanged, _⟩ | ⟨_, _, updated⟩
    · rw [unchanged]
      exact ⟨sound, Moves.refl mnb man⟩
    · rw [← updated]
      exact updateListed_spec services signer env man mnb _ sound empty

theorem acceptable_notNull (vin : CTxIn) (plain : vin.scriptSig.isEmpty = true)
    (probesKey : ∃ keyID, env.collateralPubKey = getScriptForDestination keyID)
    (acceptable : acceptableInputs services env (probeTransaction services env vin) = .ok ()) :
    vin.prevout ≠ .null := by
  intro isNull
  obtain ⟨keyID, probes⟩ := probesKey
  have unsigned : vin.scriptSig = [] := isEmpty_iff.mp plain
  have coinBase : (probeTransaction services env vin).isCoinBase = true := by
    have noSpend : vin.isZerocoinSpend = false := by
      unfold CTxIn.isZerocoinSpend
      rw [unsigned]
      exact Bool.and_false _
    have noPublicSpend : vin.isZerocoinPublicSpend = false := by
      unfold CTxIn.isZerocoinPublicSpend
      rw [unsigned]
      rfl
    have noMint : isZerocoinMint env.collateralPubKey = false := by
      rw [probes]
      rfl
    simp [CTransaction.isCoinBase, probeTransaction, CTransaction.containsZerocoins,
      CTransaction.hasZerocoinSpendInputs, CTransaction.hasZerocoinPublicSpendInputs,
      CTransaction.hasZerocoinMintOutputs, CTxIn.spendsZerocoin, CTxOut.isZerocoinMint,
      noSpend, noPublicSpend, noMint, isNull, COutPoint.isNull, COutPoint.null]
  unfold acceptableInputs at acceptable
  obtain ⟨_, _, afterCheck⟩ := (bind_eq_ok _ _ _).mp acceptable
  obtain ⟨_, notCoinBase, _⟩ := (bind_eq_ok _ _ _).mp afterCheck
  rw [coinBase] at notCoinBase
  cases notCoinBase

theorem checkInputsThenAdd_spec (nDoS : Nat) (outcome : Outcome)
    (sound : Sound man) (plain : mnb.vin.scriptSig.isEmpty = true)
    (notEmpty : mnb.lastPing.same .empty = false)
    (probesKey : ∃ keyID, env.collateralPubKey = getScriptForDestination keyID)
    (checked : checkInputsThenAdd services signer env man mnb nDoS = some outcome) :
    Sound outcome.man ∧ ∀ outpoint, Advanced outpoint man outcome.man := by
  have forgotten : Sound (man.forgetBroadcast (mnb.getHash signer)) ∧ ∀ outpoint,
      Advanced outpoint man (man.forgetBroadcast (mnb.getHash signer)) :=
    ⟨⟨sound.distinct, sound.notNull, sound.pinged⟩, fun outpoint => Advanced.refl outpoint man⟩
  have same : Sound man ∧ ∀ outpoint, Advanced outpoint man man :=
    ⟨sound, fun outpoint => Advanced.refl outpoint man⟩
  unfold checkInputsThenAdd at checked
  split at checked
  · cases checked
    exact forgotten
  split at checked
  · cases checked
    exact same
  · cases checked
  rename_i acceptable
  split at checked
  · cases checked
    exact forgotten
  split at checked
  · cases checked
  · cases checked
    exact same
  · cases checked
    exact ⟨add_sound man env (.ofBroadcast mnb) sound
      (acceptable_notNull services env mnb.vin plain probesKey acceptable) notEmpty,
      add_advanced man env (.ofBroadcast mnb)⟩

theorem checkInputsAndAdd_spec (nDoS : Nat) (outcome : Outcome)
    (sound : Sound man) (plain : mnb.vin.scriptSig.isEmpty = true)
    (notEmpty : mnb.lastPing.same .empty = false)
    (probesKey : ∃ keyID, env.collateralPubKey = getScriptForDestination keyID)
    (checked : checkInputsAndAdd services signer env man mnb nDoS = some outcome) :
    Sound outcome.man ∧ ∀ outpoint,
      (mnb.vin.prevout = outpoint → ∀ pmn, man.find mnb.vin = some pmn → pmn.isEnabled = true) →
        Advanced outpoint man outcome.man := by
  unfold checkInputsAndAdd at checked
  split at checked
  · cases checked
    exact ⟨sound, fun outpoint _ => Advanced.refl outpoint man⟩
  split at checked
  · cases checked
    exact ⟨sound, fun outpoint _ => Advanced.refl outpoint man⟩
  dsimp only at checked
  split at checked
  · cases checked
    rw [(checkPing_time services signer env man mnb.lastPing nDoS false).1]
    exact ⟨sound, fun outpoint _ => Advanced.refl outpoint man⟩
  split at checked
  · have added := checkInputsThenAdd_spec services signer env man mnb _ outcome sound plain
      notEmpty probesKey checked
    exact ⟨added.1, fun outpoint _ => added.2 outpoint⟩
  · rename_i pmn found
    split at checked
    · cases checked
      exact ⟨sound, fun outpoint _ => Advanced.refl outpoint man⟩
    · rename_i disabled
      have added := checkInputsThenAdd_spec services signer env (man.remove pmn.vin) mnb _ outcome
        (remove_sound man pmn.vin sound) plain notEmpty probesKey checked
      refine ⟨added.1, fun outpoint keeps => ?_⟩
      have other : pmn.vin.prevout ≠ outpoint := by
        intro same
        rw [find_prevout man mnb.vin pmn found] at same
        exact disabled (keeps same pmn found)
      exact (remove_advanced man pmn.vin outpoint other).trans (added.2 outpoint)

theorem processBroadcast_spec (after : CMasternodeMan)
    (nDoS : Nat) (sound : Sound man)
    (probesKey : ∃ keyID, env.collateralPubKey = getScriptForDestination keyID)
    (processed : processBroadcast services signer env man mnb = some (after, nDoS)) :
    Sound after ∧ ∀ outpoint, Steady services signer outpoint man (.mnb env mnb) →
      Advanced outpoint man after := by
  have seen : Sound (man.rememberBroadcast (mnb.getHash signer) mnb) :=
    ⟨sound.distinct, sound.notNull, sound.pinged⟩
  have checked := checkBroadcast_spec services signer env _ mnb seen
  have first : ∀ outpoint, Steady services signer outpoint man (.mnb env mnb) →
      Advanced outpoint man (checkBroadcast services signer env
        (man.rememberBroadcast (mnb.getHash signer) mnb) mnb).man :=
    fun outpoint steady => checked.2 outpoint steady.1 fun own => (steady.2 own).1
  rcases processBroadcast_cases services signer env man mnb after nDoS _ rfl processed with
    same | same | ⟨accepted, _, outcome, added, same⟩
  · rw [same]
    exact ⟨sound, fun outpoint _ => Advanced.refl outpoint man⟩
  · rw [same]
    exact ⟨checked.1, first⟩
  · rw [same]
    have shown := checkBroadcast_accepted services signer env _ mnb accepted
    have listed := checkInputsAndAdd_spec services signer env _ mnb _ outcome checked.1 shown.2
      shown.1 probesKey added
    refine ⟨listed.1, fun outpoint steady =>
      (first outpoint steady).trans (listed.2 outpoint ?_)⟩
    intro own pmn found
    have kept := (steady.2 own).2
    unfold replaces at kept
    dsimp only at kept
    rw [accepted, found] at kept
    simpa using kept

theorem checkAndRemove_spec (forceExpiredRemoval : Bool) (sound : Sound man) :
    Sound (checkAndRemove services env forceExpiredRemoval man) ∧
      ∀ outpoint,
        (entryAt (checkAndRemove services env forceExpiredRemoval man) outpoint).isSome →
          Advanced outpoint man (checkAndRemove services env forceExpiredRemoval man) := by
  set after := checkAndRemove services env forceExpiredRemoval man with isAfter
  have sublist : after.vMasternodes.Sublist
      (man.vMasternodes.map fun mn => mn.check services env (.list mn.vin) false) :=
    filter_sublist
  have prevouts : (man.vMasternodes.map fun mn =>
      mn.check services env (.list mn.vin) false).map (fun mn => mn.vin.prevout) =
      man.vMasternodes.map fun mn => mn.vin.prevout := by
    rw [List.map_map]
    apply map_congr_left
    intro mn _
    exact congrArg CTxIn.prevout (check_entry services env (.list mn.vin) false mn).2
  have prevoutsLeft := sublist.map fun mn : CMasternode => mn.vin.prevout
  rw [prevouts] at prevoutsLeft
  have origin : ∀ mn ∈ after.vMasternodes, ∃ entry ∈ man.vMasternodes,
      mn.lastPing = entry.lastPing ∧ mn.vin = entry.vin := by
    intro mn member
    obtain ⟨entry, inList, same⟩ := mem_map.mp (sublist.subset member)
    rw [← same]
    exact ⟨entry, inList, check_entry services env (.list entry.vin) false entry⟩
  constructor
  · constructor
    · exact sound.distinct.sublist prevoutsLeft
    · exact fun member => sound.notNull (prevoutsLeft.subset member)
    · intro mn member
      obtain ⟨entry, inList, lastPing, _⟩ := origin mn member
      rw [lastPing]
      exact sound.pinged entry inList
  · intro outpoint stays first listed
    obtain ⟨last, lastListed⟩ := isSome_iff_exists.mp stays
    rcases origin last (entryAt_mem after outpoint last lastListed) with
      ⟨entry, inList, lastPing, vin⟩
    have here : entry.vin.prevout = first.vin.prevout := by
      rw [← vin, entryAt_prevout after outpoint last lastListed,
        entryAt_prevout man outpoint first listed]
    have isFirst : entry = first := inj_on_of_nodup_map sound.distinct inList
      (entryAt_mem man outpoint first listed) here
    refine ⟨last, lastListed, ?_⟩
    rw [lastPing, isFirst]

theorem step_spec (event : Event) (after : CMasternodeMan) (sound : Sound man)
    (probesKey : ProbesKey event) (taken : step services signer man event = some after) :
    Sound after ∧ ∀ outpoint, Steady services signer outpoint man event →
      Advanced outpoint man after := by
  cases event with
  | mnb env mnb =>
    obtain ⟨⟨changed, nDoS⟩, processed, same⟩ := map_eq_some_iff.mp taken
    subst same
    exact processBroadcast_spec services signer env man mnb changed nDoS sound probesKey processed
  | mnp env mnp =>
    cases taken
    unfold processPing
    split
    · exact ⟨sound, fun outpoint _ => Advanced.refl outpoint man⟩
    dsimp only
    split
    · exact ⟨sound, fun outpoint _ => Advanced.refl outpoint man⟩
    · exact checkPing_spec services signer env
        (man.rememberPing (signer.hashPing mnp.vin mnp.sigTime) mnp) mnp 0 true false
        ⟨sound.distinct, sound.notNull, sound.pinged⟩
  | checkAndRemove env forceExpiredRemoval =>
    cases taken
    exact checkAndRemove_spec services env man forceExpiredRemoval sound

theorem acceptsPing_spec (mnp : CMasternodePing) (sound : Sound man)
    (accepts : acceptsPing services signer env man mnp = true) :
    (∃ first, entryAt man mnp.vin.prevout = some first ∧ (mnp.sigTime ≠ -1 →
        first.lastPing.sigTime + (masternodeMinMnpSeconds - 60) ≤ mnp.sigTime)) ∧
      ∃ last, entryAt (processPing services signer env man mnp).1 mnp.vin.prevout = some last ∧
        last.lastPing = mnp := by
  unfold acceptsPing at accepts
  obtain ⟨considered, accepted⟩ := Bool.and_eq_true_iff.mp accepts
  obtain ⟨awake, unseen⟩ := Bool.and_eq_true_iff.mp considered
  have checked := checkPing_accepted services signer env
    (man.rememberPing (signer.hashPing mnp.vin mnp.sigTime) mnp) mnp 0 true
    ⟨sound.distinct, sound.notNull, sound.pinged⟩ accepted
  refine ⟨checked.1, ?_⟩
  unfold processPing
  rw [if_neg (by simpa using awake)]
  dsimp only
  rw [if_neg (by simpa using unseen)]
  exact checked.2

end Messages

variable (services : Services) (signer : Signer)

theorem run_sound (events : List Event)
    (man : CMasternodeMan) (probesKey : ∀ event ∈ events, ProbesKey event)
    (reached : run (step services signer) .empty events = some man) : Sound man := by
  apply invariant_of_guarded_run (step services signer) (fun _ event => ProbesKey event) Sound _
    .empty man events _ (all_steps_of_events _ ProbesKey _ events probesKey) reached
  · intro state event next sound isProbe taken
    exact (step_spec services signer state event next sound isProbe taken).1
  · exact ⟨nodup_nil, not_mem_nil, fun mn member => by cases member⟩

theorem run_advanced (outpoint : COutPoint)
    (events : List Event) (man after : CMasternodeMan) (sound : Sound man)
    (probesKey : ∀ event ∈ events, ProbesKey event)
    (steady : AllSteps (step services signer) (Steady services signer outpoint) man events)
    (goesOn : run (step services signer) man events = some after) :
    Sound after ∧ Advanced outpoint man after := by
  induction events generalizing man with
  | nil =>
    cases goesOn
    exact ⟨sound, Advanced.refl outpoint after⟩
  | cons event events ih =>
    obtain ⟨next, taken, rest⟩ := (run_cons_some _ _ _ _ _).mp goesOn
    have stepped := step_spec services signer man event next sound
      (probesKey event mem_cons_self) taken
    have later := ih next stepped.1 (fun other member =>
      probesKey other (mem_cons_of_mem event member)) (steady.2 next taken) rest
    exact ⟨later.1, (stepped.2 outpoint steady.1).trans later.2⟩

def datedSigner : Signer :=
  { exampleSigner with
    hashBroadcast := fun time _ => BitVec.ofInt 256 time
    hashPing := fun _ time => BitVec.ofInt 256 time }

def pingAt (n : UInt32) (time : Int) : CMasternodePing :=
  { (attackerBroadcast n).lastPing with blockHash := 116, sigTime := time }

def broadcastAt (n : UInt32) (time : Int) (ping : CMasternodePing) : CMasternodeBroadcast :=
  { attackerBroadcast n with sigTime := time, lastPing := ping }

def listAfter (events : List Event) : CMasternodeMan :=
  (run (step mainnetServices datedSigner) .empty events).getD .empty

theorem listAfter_reached (events : List Event)
    (possible : (run (step mainnetServices datedSigner) .empty events).isSome = true) :
    run (step mainnetServices datedSigner) .empty events = some (listAfter events) := by
  obtain ⟨man, reached⟩ := isSome_iff_exists.mp possible
  unfold listAfter
  rw [reached]
  rfl

def collateralOutpoint (n : UInt32) : COutPoint := (attackerBroadcast n).vin.prevout

/-- The masternode is listed, and pings so soon that it is not enabled any more. -/
def pingedTooSoon : List Event :=
  [.mnb syncedNode (broadcastAt 1 1600000500 (pingAt 1 1600000500)),
   .mnp syncedNode (pingAt 1 1600001050)]

def olderPing : Event := .mnb syncedNode (broadcastAt 1 1600000501 (pingAt 1 1600000502))

/-- An enabled entry is renewed with an earlier ping of another masternode. -/
def foreignPing : List Event :=
  [.mnb syncedNode (broadcastAt 1 1600000100 (pingAt 1 1600002000)),
   .mnb syncedNode (broadcastAt 0 1600000000 (pingAt 0 1600000000)),
   .mnb syncedNode (broadcastAt 1 1600000200 (pingAt 0 1600000700))]

/-- This is why the ping of a broadcast has to be one of its own masternode. -/
example : (entryAt (listAfter (foreignPing.take 2)) (collateralOutpoint 1)).map
      (fun mn => (mn.isEnabled, mn.lastPing.sigTime)) = some (true, 1600002000) ∧
    (entryAt (listAfter foreignPing) (collateralOutpoint 1)).map
      (fun mn => mn.lastPing.sigTime) = some 1600000700 := by decide +kernel

def pingedInTime : List Event :=
  [.mnb syncedNode (broadcastAt 1 1600000500 (pingAt 1 1600000500)),
   .mnp syncedNode (pingAt 1 1600001100)]

/-- A ping that comes too early, and a broadcast that is not newer. -/
def ignored : List Event :=
  [.mnp syncedNode (pingAt 1 1600001200),
   .mnb syncedNode (broadcastAt 1 1600000400 (pingAt 1 1600001150))]

theorem probesKey_of_synced (event : Event) (synced : event.env = syncedNode) :
    ProbesKey event := by
  refine ⟨exampleSigner.getID [], ?_⟩
  rw [synced]
  rfl

theorem pingedInTime_probesKey : ∀ event ∈ pingedInTime ++ ignored, ProbesKey event := by
  intro event member
  apply probesKey_of_synced
  simp only [pingedInTime, ignored, cons_append, nil_append, mem_cons,
    not_mem_nil, or_false] at member
  rcases member with here | here | here | here <;> rw [here] <;> rfl

end ZenonCore.PingAdvance
