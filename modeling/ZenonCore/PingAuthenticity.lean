import ZenonCore.CollateralOwnership

/-!
# Who has signed the last ping of a listed masternode

A ping is checked against the listed key, and a broadcast that renews an entry changes the key
before its ping is looked at.
-/

namespace ZenonCore.PingAuthenticity

open Script Primitives Chain Validation List
open Chainstate
open Masternode MasternodeMan CollateralOwnership
open ValueGate Library.Runs

/-- The last ping is empty, or its signature of its input, block hash and time
verifies under the key of the masternode. -/
def Authentic (signer : Signer) (mn : CMasternodeBroadcast) : Prop :=
  mn.lastPing = .empty ∨ mn.lastPing.verifySignature signer mn.pubKeyMasternode = true

def AllAuthentic (signer : Signer) (man : CMasternodeMan) : Prop :=
  ∀ mn ∈ man.vMasternodes, Authentic signer mn.toCMasternodeBroadcast

/-- The loop of `dseg`: enabled entries are offered and remembered, all of them
or the one that is asked for. -/
def offerEntries (signer : Signer) (isRFC1918 : CService → Bool) (vin : CTxIn) :
    List CMasternode → CMasternodeMan → CMasternodeMan
  | [], man => man
  | mn :: rest, man =>
    if isRFC1918 mn.addr || !mn.isEnabled then offerEntries signer isRFC1918 vin rest man
    else if vin = mn.vin then
      man.rememberBroadcast (mn.getHash signer) mn.toCMasternodeBroadcast
    else if vin = emptyTxIn then
      offerEntries signer isRFC1918 vin rest
        (man.rememberBroadcast (mn.getHash signer) mn.toCMasternodeBroadcast)
    else offerEntries signer isRFC1918 vin rest man

/-- `ProcessMessage` of `dseg`; a peer that has asked for the whole list before
gets nothing. -/
def processListRequest (signer : Signer) (env : Environment) (isRFC1918 : CService → Bool)
    (hasAsked : Bool) (man : CMasternodeMan) (vin : CTxIn) : CMasternodeMan :=
  if env.fLiteMode || !env.isBlockchainSynced then man
  else if decide (vin = emptyTxIn) && hasAsked then man
  else offerEntries signer isRFC1918 vin man.vMasternodes man

def checkAll (services : Services) (env : Environment) (man : CMasternodeMan) : CMasternodeMan :=
  { man with
    vMasternodes := man.vMasternodes.map fun mn => mn.check services env (.list mn.vin) false }

inductive ListEvent
  | message (event : Event)
  | dseg (env : Environment) (isRFC1918 : CService → Bool) (hasAsked : Bool) (vin : CTxIn)
  | check (env : Environment)
  | clear

def listStep (services : Services) (signer : Signer) (man : CMasternodeMan) :
    ListEvent → Option CMasternodeMan
  | .message event => step services signer man event
  | .dseg env isRFC1918 hasAsked vin =>
    some (processListRequest signer env isRFC1918 hasAsked man vin)
  | .check env => some (checkAll services env man)
  | .clear => some .empty

/-- A broadcast that enters the list carries a ping signed with its own key; one that renews an
entry keeps the key. -/
structure PingSigned (services : Services) (signer : Signer) (env : Environment)
    (man : CMasternodeMan) (mnb : CMasternodeBroadcast) : Prop where
  enters : (∀ pmn, man.find mnb.vin = some pmn → pmn.isEnabled = false) →
    isVinAssociatedWithPubkey signer env mnb.vin mnb.pubKeyCollateralAddress = true →
    acceptableInputs services env (probeTransaction services env mnb.vin) = .ok () →
    mnb.lastPing.verifySignature signer mnb.pubKeyMasternode = true
  renews : ∀ pmn, man.find mnb.vin = some pmn → pmn.isEnabled = true →
    pmn.sigTime < mnb.sigTime → pmn.pubKeyCollateralAddress = mnb.pubKeyCollateralAddress →
    pmn.isBroadcastedWithin env masternodeMinMnbSeconds = false →
    signer.getID pmn.pubKeyMasternode = signer.getID mnb.pubKeyMasternode ∧
      (mnb.lastPing.vin.prevout = mnb.vin.prevout ∨
        mnb.lastPing.verifySignature signer mnb.pubKeyMasternode = true)

/-- The condition on an event, of a broadcast that its collateral key has signed. -/
def SignsItsPing (services : Services) (signer : Signer) (man : CMasternodeMan) :
    ListEvent → Prop
  | .message (.mnb env mnb) =>
    mnb.verifySignature signer = true → PingSigned services signer env man mnb
  | _ => True

section Entries

variable (signer : Signer)

theorem verifySignature_congr (ping : CMasternodePing) (first second : CPubKey)
    (same : signer.getID first = signer.getID second) :
    ping.verifySignature signer first = ping.verifySignature signer second := by
  unfold CMasternodePing.verifySignature verifyMessage
  rw [same]

variable (man : CMasternodeMan)

theorem write_authentic (mn : CMasternode)
    (listed : AllAuthentic signer man) (authentic : Authentic signer mn.toCMasternodeBroadcast) :
    AllAuthentic signer (man.write mn) := by
  intro other member
  obtain written | kept := mem_writeEntry mn other man.vMasternodes member
  · rw [written]
    exact authentic
  · exact listed other kept

theorem add_authentic (env : Environment) (man : CMasternodeMan) (mn : CMasternode)
    (listed : AllAuthentic signer man) (authentic : Authentic signer mn.toCMasternodeBroadcast) :
    AllAuthentic signer (man.add env mn) := by
  intro other member
  obtain old | same := mem_add env man mn other member
  · exact listed other old
  · rw [same]
    exact authentic

theorem find_prevout (vin : CTxIn) (mn : CMasternode)
    (found : man.find vin = some mn) : mn.vin.prevout = vin.prevout := by
  have holds := find?_some found
  exact beq_iff_eq.mp holds

theorem find_congr (first second : CTxIn)
    (same : first.prevout = second.prevout) : man.find first = man.find second := by
  unfold CMasternodeMan.find
  rw [same]

theorem find_write (mn found : CMasternode) (vin : CTxIn)
    (isFound : (man.write mn).find vin = some found) :
    (mn.vin.prevout = vin.prevout ∧ found = mn) ∨
      (mn.vin.prevout ≠ vin.prevout ∧ man.find vin = some found) := by
  unfold CMasternodeMan.write at isFound
  unfold CMasternodeMan.find at isFound ⊢
  dsimp only at isFound ⊢
  generalize man.vMasternodes = list at isFound ⊢
  induction list with
  | nil => cases isFound
  | cons first rest ih =>
    unfold CMasternodeMan.writeEntry at isFound
    split at isFound
    · rename_i here
      by_cases same : mn.vin.prevout = vin.prevout
      · rw [find?_cons_of_pos (by simpa using same)] at isFound
        exact Or.inl ⟨same, (Option.some.inj isFound).symm⟩
      · rw [find?_cons_of_neg (by simpa using same)] at isFound
        rw [find?_cons_of_neg (by rw [here]; simpa using same)]
        exact Or.inr ⟨same, isFound⟩
    · rename_i elsewhere
      by_cases same : first.vin.prevout = vin.prevout
      · rw [find?_cons_of_pos (by simpa using same)] at isFound ⊢
        refine Or.inr ⟨?_, isFound⟩
        rw [← same]
        exact fun other => elsewhere other.symm
      · rw [find?_cons_of_neg (by simpa using same)] at isFound ⊢
        exact ih isFound

end Entries

section Messages

variable (services : Services) (signer : Signer) (env : Environment) (man : CMasternodeMan)

variable (ping : CMasternodePing) (nDoS : Nat)

/-- A check of the time alone leaves the list as it is, and verifies the ping if
its outpoint is listed. -/
theorem checkPing_time (fRequireEnabled : Bool) :
    (checkPing services signer env man ping nDoS fRequireEnabled true).man = man ∧
      ((checkPing services signer env man ping nDoS fRequireEnabled true).accepted = true →
        ∀ pmn, man.find ping.vin = some pmn →
          ping.verifySignature signer pmn.pubKeyMasternode = true) := by
  rcases checkPing_cases services signer env man ping nDoS fRequireEnabled true _ rfl with
    ⟨same, verified⟩ | ⟨whole, _⟩
  · exact ⟨same, fun accepted => (verified accepted).2⟩
  · cases whole

theorem checkPing_authentic (fRequireEnabled fCheckSigTimeOnly : Bool) (listed : AllAuthentic signer man) :
    AllAuthentic signer
        (checkPing services signer env man ping nDoS fRequireEnabled fCheckSigTimeOnly).man ∧
      ∀ vin found, (checkPing services signer env man ping nDoS fRequireEnabled
          fCheckSigTimeOnly).man.find vin = some found →
        ∃ before, man.find vin = some before ∧
          before.pubKeyMasternode = found.pubKeyMasternode := by
  rcases checkPing_cases services signer env man ping nDoS fRequireEnabled fCheckSigTimeOnly _ rfl
    with ⟨same, _⟩ | ⟨_, pmn, known, _, verified, written⟩
  · rw [same]
    exact ⟨listed, fun _ found isFound => ⟨found, isFound, rfl⟩⟩
  · rw [written]
    constructor
    · apply write_authentic signer man _ listed
      rw [CMasternode.check_toCMasternodeBroadcast]
      exact Or.inr verified
    · intro vin found isFound
      have entry := CMasternode.check_toCMasternodeBroadcast services env .ping true
        { pmn with lastPing := ping }
      obtain ⟨same, isWritten⟩ | ⟨_, kept⟩ := find_write man _ found vin isFound
      · refine ⟨pmn, ?_, ?_⟩
        · rw [← known]
          apply find_congr
          rw [← same, entry]
          exact find_prevout man ping.vin pmn known
        · rw [isWritten, entry]
      · exact ⟨found, kept, rfl⟩

theorem updateFromNewBroadcast_authentic (pmn : CMasternode) (mnb : CMasternodeBroadcast)
    (listed : AllAuthentic signer man) (entry : Authentic signer pmn.toCMasternodeBroadcast)
    (sameKey : signer.getID pmn.pubKeyMasternode = signer.getID mnb.pubKeyMasternode)
    (verified : mnb.lastPing.verifySignature signer mnb.pubKeyMasternode = true) :
    AllAuthentic signer (updateFromNewBroadcast services signer env man pmn mnb) := by
  have renewedAuthentic : Authentic signer { mnb with vin := pmn.vin, lastPing := pmn.lastPing } := by
    obtain empty | signed := entry
    · exact Or.inl empty
    · right
      rw [← verifySignature_congr signer _ _ _ sameKey]
      exact signed
  unfold updateFromNewBroadcast
  dsimp only
  set written := man.write _ with writtenDef
  have writtenAuthentic : AllAuthentic signer written := by
    rw [writtenDef]
    exact write_authentic signer man _ listed renewedAuthentic
  have writtenKey : ∀ found, written.find pmn.vin = some found →
      found.pubKeyMasternode = mnb.pubKeyMasternode := by
    intro found isFound
    obtain ⟨_, same⟩ | ⟨other, _⟩ := find_write man _ found pmn.vin isFound
    · rw [same]
    · exact absurd rfl other
  have pinged : AllAuthentic signer
      (if mnb.lastPing.same .empty then (⟨written, 0, true⟩ : Outcome)
        else checkPing services signer env written mnb.lastPing 0 false false).man ∧
      ∀ found, (if mnb.lastPing.same .empty then (⟨written, 0, true⟩ : Outcome)
        else checkPing services signer env written mnb.lastPing 0 false false).man.find pmn.vin =
          some found → found.pubKeyMasternode = mnb.pubKeyMasternode := by
    split
    · exact ⟨writtenAuthentic, writtenKey⟩
    · have checked := checkPing_authentic services signer env written mnb.lastPing 0 false false
        writtenAuthentic
      refine ⟨checked.1, ?_⟩
      intro found isFound
      obtain ⟨before, known, same⟩ := checked.2 pmn.vin found isFound
      rw [← same]
      exact writtenKey before known
  generalize (if mnb.lastPing.same .empty then (⟨written, 0, true⟩ : Outcome)
    else checkPing services signer env written mnb.lastPing 0 false false) = outcome at pinged ⊢
  split
  · apply write_authentic signer outcome.man _ pinged.1
    right
    cases found : outcome.man.find pmn.vin with
    | none => exact verified
    | some current =>
      have key := pinged.2 current found
      change mnb.lastPing.verifySignature signer current.pubKeyMasternode = true
      rw [key]
      exact verified
  · exact pinged.1

structure Renews (mnb : CMasternodeBroadcast) (pmn : CMasternode) : Prop where
  listed : man.find mnb.vin = some pmn
  enabled : pmn.isEnabled = true
  newer : pmn.sigTime < mnb.sigTime
  sameOwner : pmn.pubKeyCollateralAddress = mnb.pubKeyCollateralAddress
  notRecent : pmn.isBroadcastedWithin env masternodeMinMnbSeconds = false

variable (mnb : CMasternodeBroadcast)

theorem updateListed_authentic (nDoS : Nat)
    (listed : AllAuthentic signer man)
    (signs : ∀ pmn, Renews env man mnb pmn →
      signer.getID pmn.pubKeyMasternode = signer.getID mnb.pubKeyMasternode ∧
        mnb.lastPing.verifySignature signer mnb.pubKeyMasternode = true) :
    AllAuthentic signer (updateListed services signer env man mnb nDoS).man ∧
      ((updateListed services signer env man mnb nDoS).man = man ∨
        ∃ pmn, Renews env man mnb pmn) := by
  unfold updateListed
  cases found : man.find mnb.vin with
  | none => exact ⟨listed, Or.inl rfl⟩
  | some pmn =>
    dsimp only
    split
    · exact ⟨listed, Or.inl rfl⟩
    rename_i older
    split
    · exact ⟨listed, Or.inl rfl⟩
    rename_i enabled
    split
    · rename_i condition
      have renews : Renews env man mnb pmn :=
        { listed := found
          enabled := by simpa using enabled
          newer := by omega
          sameOwner := condition.1
          notRecent := by simpa using condition.2 }
      refine ⟨?_, Or.inr ⟨pmn, renews⟩⟩
      have updated := updateFromNewBroadcast_authentic services signer env man pmn mnb listed
        (listed pmn (find_mem man mnb.vin pmn found)) (signs pmn renews).1 (signs pmn renews).2
      cases again : (updateFromNewBroadcast services signer env man pmn mnb).find pmn.vin with
      | none => exact updated
      | some entry =>
        apply write_authentic signer _ _ updated
        rw [CMasternode.check_toCMasternodeBroadcast]
        exact updated entry (find_mem _ pmn.vin entry again)
    · exact ⟨listed, Or.inl rfl⟩

theorem renewal_verified (pmn : CMasternode)
    (signs : PingSigned services signer env man mnb) (renews : Renews env man mnb pmn)
    (timed : ∀ other, man.find mnb.lastPing.vin = some other →
      mnb.lastPing.verifySignature signer other.pubKeyMasternode = true) :
    signer.getID pmn.pubKeyMasternode = signer.getID mnb.pubKeyMasternode ∧
      mnb.lastPing.verifySignature signer mnb.pubKeyMasternode = true := by
  rcases signs.renews pmn renews.listed renews.enabled renews.newer renews.sameOwner
    renews.notRecent with ⟨sameKey, own | verified⟩
  · refine ⟨sameKey, ?_⟩
    rw [← verifySignature_congr signer _ _ _ sameKey]
    apply timed
    rw [find_congr man _ _ own]
    exact renews.listed
  · exact ⟨sameKey, verified⟩

/-- What the first check of a broadcast leaves: the list it has found, or an
entry that is renewed by a ping of its key. -/
theorem checkBroadcast_authentic
    (listed : AllAuthentic signer man)
    (signs : mnb.verifySignature signer = true → PingSigned services signer env man mnb) :
    AllAuthentic signer (checkBroadcast services signer env man mnb).man ∧
      ((checkBroadcast services signer env man mnb).accepted = true →
        PingSigned services signer env man mnb ∧
          ((checkBroadcast services signer env man mnb).man = man ∨
            mnb.lastPing.verifySignature signer mnb.pubKeyMasternode = true)) := by
  rcases checkBroadcast_cases services signer env man mnb _ rfl with
    ⟨same, refused⟩ | ⟨pinged, signed, listing⟩
  · rw [same, refused]
    exact ⟨listed, fun accepted => by cases accepted⟩
  · have pingSigned := signs signed
    have verified := (checkPing_time services signer env man mnb.lastPing 0 false).2 pinged
    have updated := updateListed_authentic services signer env man mnb
      (checkPing services signer env man mnb.lastPing 0 false true).nDoS listed
      fun pmn renews => renewal_verified services signer env man mnb pmn pingSigned renews verified
    rw [← listing]
    refine ⟨updated.1, fun _ => ⟨pingSigned, ?_⟩⟩
    obtain same | ⟨pmn, renews⟩ := updated.2
    · exact Or.inl same
    · exact Or.inr
        (renewal_verified services signer env man mnb pmn pingSigned renews verified).2

theorem checkInputsThenAdd_authentic (nDoS : Nat) (outcome : Outcome)
    (listed : AllAuthentic signer man)
    (verified : acceptableInputs services env (probeTransaction services env mnb.vin) = .ok () →
      mnb.lastPing.verifySignature signer mnb.pubKeyMasternode = true)
    (checked : checkInputsThenAdd services signer env man mnb nDoS = some outcome) :
    AllAuthentic signer outcome.man := by
  unfold checkInputsThenAdd at checked
  split at checked
  · cases checked
    exact listed
  split at checked
  · cases checked
    exact listed
  · cases checked
  rename_i acceptable
  split at checked
  · cases checked
    exact listed
  split at checked
  · cases checked
  · cases checked
    exact listed
  · cases checked
    exact add_authentic signer env man (.ofBroadcast mnb) listed (Or.inr (verified acceptable))

theorem checkInputsAndAdd_authentic (nDoS : Nat) (outcome : Outcome)
    (listed : AllAuthentic signer man)
    (verified : (∀ pmn, man.find mnb.vin = some pmn → pmn.isEnabled = false) →
      acceptableInputs services env (probeTransaction services env mnb.vin) = .ok () →
      mnb.lastPing.verifySignature signer mnb.pubKeyMasternode = true)
    (checked : checkInputsAndAdd services signer env man mnb nDoS = some outcome) :
    AllAuthentic signer outcome.man := by
  unfold checkInputsAndAdd at checked
  split at checked
  · cases checked
    exact listed
  split at checked
  · cases checked
    exact listed
  dsimp only at checked
  split at checked
  · cases checked
    rw [(checkPing_time services signer env man mnb.lastPing nDoS false).1]
    exact listed
  split at checked
  · rename_i absent
    apply checkInputsThenAdd_authentic services signer env man mnb _ outcome listed _ checked
    apply verified
    intro pmn found
    rw [absent] at found
    cases found
  · rename_i pmn found
    split at checked
    · cases checked
      exact listed
    · rename_i disabled
      apply checkInputsThenAdd_authentic services signer env (man.remove pmn.vin) mnb _ outcome
        (fun other member => listed other (mem_of_mem_eraseP member)) _ checked
      apply verified
      intro other same
      rw [found] at same
      cases same
      simpa using disabled

theorem offerEntries_list (isRFC1918 : CService → Bool) (vin : CTxIn) (list : List CMasternode) :
    (offerEntries signer isRFC1918 vin list man).vMasternodes = man.vMasternodes := by
  induction list generalizing man with
  | nil => rfl
  | cons mn rest ih =>
    unfold offerEntries
    split
    · exact ih man
    split
    · rfl
    split
    · exact ih _
    · exact ih man

theorem processBroadcast_authentic (after : CMasternodeMan)
    (nDoS : Nat) (listed : AllAuthentic signer man)
    (signs : mnb.verifySignature signer = true → PingSigned services signer env man mnb)
    (processed : processBroadcast services signer env man mnb = some (after, nDoS)) :
    AllAuthentic signer after := by
  have seen : AllAuthentic signer (man.rememberBroadcast (mnb.getHash signer) mnb) := listed
  have signsSeen : mnb.verifySignature signer = true → PingSigned services signer env
      (man.rememberBroadcast (mnb.getHash signer) mnb) mnb :=
    fun signed => ⟨(signs signed).enters, (signs signed).renews⟩
  have checked := checkBroadcast_authentic services signer env _ mnb seen signsSeen
  rcases processBroadcast_cases services signer env man mnb after nDoS _ rfl processed with
    same | same | ⟨accepted, associated, outcome, added, same⟩
  · rw [same]
    exact listed
  · rw [same]
    exact checked.1
  · rw [same]
    apply checkInputsAndAdd_authentic services signer env _ mnb _ outcome checked.1 _ added
    intro free acceptable
    obtain ⟨pingSigned, score | verified⟩ := checked.2 accepted
    · rw [score] at free
      exact pingSigned.enters free associated acceptable
    · exact verified

theorem checkAll_authentic (listed : AllAuthentic signer man) :
    AllAuthentic signer (checkAll services env man) := by
  intro mn member
  obtain ⟨entry, inList, same⟩ := mem_map.mp member
  rw [← same, CMasternode.check_toCMasternodeBroadcast]
  exact listed entry inList

theorem listStep_authentic (event : ListEvent) (after : CMasternodeMan)
    (listed : AllAuthentic signer man) (condition : SignsItsPing services signer man event)
    (taken : listStep services signer man event = some after) : AllAuthentic signer after := by
  cases event with
  | message event =>
    cases event with
    | mnb env mnb =>
      obtain ⟨⟨changed, nDoS⟩, processed, same⟩ := Option.map_eq_some_iff.mp taken
      subst same
      exact processBroadcast_authentic services signer env man mnb changed nDoS listed condition
        processed
    | mnp env mnp =>
      cases taken
      unfold processPing
      split
      · exact listed
      dsimp only
      split
      · exact listed
      · exact (checkPing_authentic services signer env
          (man.rememberPing (signer.hashPing mnp.vin mnp.sigTime) mnp) mnp 0 true false
          listed).1
    | checkAndRemove env forceExpiredRemoval =>
      cases taken
      intro mn member
      exact checkAll_authentic services signer env man listed mn (mem_of_mem_filter member)
  | dseg env isRFC1918 hasAsked vin =>
    cases taken
    unfold processListRequest
    split
    · exact listed
    split
    · exact listed
    · intro mn member
      rw [offerEntries_list] at member
      exact listed mn member
  | check env =>
    cases taken
    exact checkAll_authentic services signer env man listed
  | clear =>
    cases taken
    intro mn member
    cases member

end Messages

/-- In every run of messages, checks and clean-ups whose broadcasts meet the
condition, every last ping is authentic. -/
theorem last_pings_authentic (services : Services) (signer : Signer) (events : List ListEvent)
    (after : CMasternodeMan)
    (condition : AllSteps (listStep services signer) (SignsItsPing services signer) .empty events)
    (reached : run (listStep services signer) .empty events = some after) :
    AllAuthentic signer after := by
  apply invariant_of_guarded_run (listStep services signer) (SignsItsPing services signer)
    (AllAuthentic signer) _ .empty after events _ condition reached
  · intro man event next listed signs taken
    exact listStep_authentic services signer man event next listed signs taken
  · intro mn member
    cases member

/-- The owner's broadcast with a ping that another key has signed. -/
def forgedPingBroadcast : CMasternodeBroadcast :=
  { attackerBroadcast 1 with lastPing := { (attackerBroadcast 1).lastPing with vchSig := victimKey } }

theorem broadcast_lists (mnb : CMasternodeBroadcast) (after : CMasternodeMan)
    (processed : step mainnetServices exampleSigner .empty (.mnb syncedNode mnb) = some after) :
    run (listStep mainnetServices exampleSigner) .empty [.message (.mnb syncedNode mnb)] =
      some after :=
  (run_cons_some _ _ _ _ []).mpr ⟨after, processed, rfl⟩

/-- A masternode is listed whose ping its key has not signed. -/
theorem forged_ping_is_listed :
    ¬ ∀ (services : Services) (signer : Signer) (events : List ListEvent) (after : CMasternodeMan),
      run (listStep services signer) .empty events = some after → AllAuthentic signer after := by
  intro authentic
  have listed : (step mainnetServices exampleSigner .empty
      (.mnb syncedNode forgedPingBroadcast)).map (fun man => man.vMasternodes) =
      some [.ofBroadcast forgedPingBroadcast] := by decide +kernel
  obtain ⟨man, processed, entries⟩ := Option.map_eq_some_iff.mp listed
  have all := authentic mainnetServices exampleSigner _ man
    (broadcast_lists forgedPingBroadcast man processed)
  have forged := all (.ofBroadcast forgedPingBroadcast) (by
    rw [entries]
    exact mem_singleton.mpr rfl)
  obtain empty | verified := forged
  · exact absurd empty (by decide +kernel)
  · exact absurd verified (by decide +kernel)

/-- The same broadcast with a ping of its own key. -/
theorem signed_ping_is_listed :
    ∃ man, run (listStep mainnetServices exampleSigner) .empty
        [.message (.mnb syncedNode (attackerBroadcast 1))] = some man ∧
      man.vMasternodes = [.ofBroadcast (attackerBroadcast 1)] ∧ AllAuthentic exampleSigner man := by
  have listed : (step mainnetServices exampleSigner .empty
      (.mnb syncedNode (attackerBroadcast 1))).map (fun man => man.vMasternodes) =
      some [.ofBroadcast (attackerBroadcast 1)] := by decide +kernel
  obtain ⟨man, processed, entries⟩ := Option.map_eq_some_iff.mp listed
  have reached := broadcast_lists (attackerBroadcast 1) man processed
  refine ⟨man, reached, entries, last_pings_authentic mainnetServices exampleSigner _ man ?_ reached⟩
  refine ⟨fun _ => ⟨fun _ _ _ => by decide +kernel, ?_⟩, fun _ _ => trivial⟩
  intro pmn found
  cases found

end ZenonCore.PingAuthenticity
