import ZenonCore.Masternode

/-!
# The masternode list

`CMasternodeMan` with broadcasts (`mnb`), pings (`mnp`) and `CheckAndRemove`. A pointer into
the list is the first entry with its outpoint.
-/

namespace ZenonCore.MasternodeMan

open Script Primitives ChainParams Chain
open Validation Chainstate Masternode

structure CMasternodeMan where
  vMasternodes : List CMasternode
  mapSeenMasternodeBroadcast : Uint256 → Option CMasternodeBroadcast
  mapSeenMasternodePing : Uint256 → Option CMasternodePing

namespace CMasternodeMan

def empty : CMasternodeMan :=
  { vMasternodes := []
    mapSeenMasternodeBroadcast := fun _ => none
    mapSeenMasternodePing := fun _ => none }

def find (man : CMasternodeMan) (vin : CTxIn) : Option CMasternode :=
  man.vMasternodes.find? fun mn => mn.vin.prevout == vin.prevout

/-- Puts `mn` where the first entry with its outpoint stands. -/
def writeEntry (mn : CMasternode) : List CMasternode → List CMasternode
  | [] => []
  | first :: rest =>
    if first.vin.prevout = mn.vin.prevout then mn :: rest else first :: writeEntry mn rest

def write (man : CMasternodeMan) (mn : CMasternode) : CMasternodeMan :=
  { man with vMasternodes := writeEntry mn man.vMasternodes }

def remove (man : CMasternodeMan) (vin : CTxIn) : CMasternodeMan :=
  { man with vMasternodes := man.vMasternodes.eraseP fun mn => mn.vin == vin }

def rememberBroadcast (man : CMasternodeMan) (hash : Uint256) (mnb : CMasternodeBroadcast) :
    CMasternodeMan :=
  { man with
    mapSeenMasternodeBroadcast := fun other =>
      if other = hash then some ((man.mapSeenMasternodeBroadcast hash).getD mnb)
      else man.mapSeenMasternodeBroadcast other }

def forgetBroadcast (man : CMasternodeMan) (hash : Uint256) : CMasternodeMan :=
  { man with
    mapSeenMasternodeBroadcast := fun other =>
      if other = hash then none else man.mapSeenMasternodeBroadcast other }

/-- The ping of a broadcast that is remembered is brought up to date. -/
def refreshBroadcast (man : CMasternodeMan) (hash : Uint256) (ping : CMasternodePing) :
    CMasternodeMan :=
  { man with
    mapSeenMasternodeBroadcast := fun other =>
      if other = hash then
        (man.mapSeenMasternodeBroadcast hash).map fun mnb => { mnb with lastPing := ping }
      else man.mapSeenMasternodeBroadcast other }

def rememberPing (man : CMasternodeMan) (hash : Uint256) (ping : CMasternodePing) :
    CMasternodeMan :=
  { man with
    mapSeenMasternodePing := fun other =>
      if other = hash then some ((man.mapSeenMasternodePing hash).getD ping)
      else man.mapSeenMasternodePing other }

/-- `Add`, which looks up once more whether the collateral is that of a pillar. -/
def add (env : Environment) (man : CMasternodeMan) (mn : CMasternode) : CMasternodeMan :=
  if !mn.isEnabled then man
  else match man.find mn.vin with
    | some _ => man
    | none =>
      let ownsPillar : Bool :=
        match getTransaction env.node mn.vin.prevout.hash with
        | none => false
        | some (txPrev, _) =>
          (txPrev.vout[mn.vin.prevout.n.toNat]?).any fun out => out.nValue == pillarAmount
      { man with
        vMasternodes := man.vMasternodes ++
          [if ownsPillar then { mn with isPillar := true } else mn] }

end CMasternodeMan

/-- What a check returns that has a list to change and a ban score to set. -/
structure Outcome where
  man : CMasternodeMan
  nDoS : Nat
  accepted : Bool

section Messages

variable (services : Services) (signer : Signer) (env : Environment)

def checkPing (man : CMasternodeMan) (ping : CMasternodePing) (nDoS : Nat)
    (fRequireEnabled fCheckSigTimeOnly : Bool) : Outcome :=
  if env.here.getAdjustedTime + 2 * 60 * 60 < ping.sigTime then ⟨man, 1, false⟩
  else if ping.sigTime ≤ env.here.getAdjustedTime - 2 * 60 * 60 then ⟨man, 1, false⟩
  else match man.find ping.vin with
    | none => ⟨man, nDoS, fCheckSigTimeOnly⟩
    | some pmn =>
      if fCheckSigTimeOnly then
        if ping.verifySignature signer pmn.pubKeyMasternode then ⟨man, nDoS, true⟩
        else ⟨man, 33, false⟩
      else if pmn.protocolVersion < env.getMinMasternodePaymentsProto then ⟨man, nDoS, false⟩
      else if fRequireEnabled && !pmn.isEnabled then ⟨man, nDoS, false⟩
      else if pmn.isPingedWithin env (masternodeMinMnpSeconds - 60) ping.sigTime then
        ⟨man, nDoS, false⟩
      else if !ping.verifySignature signer pmn.pubKeyMasternode then ⟨man, 33, false⟩
      else match env.node.mapBlockIndex ping.blockHash with
        | none => ⟨man, nDoS, false⟩
        | some pindex =>
          if pindex.nHeight < env.node.chainActive.nHeight - 24 then ⟨man, nDoS, false⟩
          else
            let pinged := { pmn with lastPing := ping }
            let checked := pinged.check services env .ping true
            ⟨(man.write checked).refreshBroadcast (pinged.getHash signer) ping, nDoS,
              checked.isEnabled⟩

/-- `CMasternode::UpdateFromNewBroadcast` of the listed entry `pmn`. The ping is checked against the
new entry. -/
def updateFromNewBroadcast (man : CMasternodeMan) (pmn : CMasternode)
    (mnb : CMasternodeBroadcast) : CMasternodeMan :=
  let renewed :=
    { pmn with
      pubKeyMasternode := mnb.pubKeyMasternode
      pubKeyCollateralAddress := mnb.pubKeyCollateralAddress
      sigTime := mnb.sigTime
      sig := mnb.sig
      protocolVersion := mnb.protocolVersion
      addr := mnb.addr
      lastTimeChecked := 0 }
  let written := man.write renewed
  let pinged :=
    if mnb.lastPing.same .empty then ⟨written, 0, true⟩
    else checkPing services signer env written mnb.lastPing 0 false false
  if pinged.accepted then
    let entry := (pinged.man.find pmn.vin).getD renewed
    (pinged.man.write { entry with lastPing := mnb.lastPing }).rememberPing
      (signer.hashPing mnb.lastPing.vin mnb.lastPing.sigTime) mnb.lastPing
  else pinged.man

/-- The end of `CheckAndUpdate` of a broadcast: a listed and enabled entry takes it over. -/
def updateListed (man : CMasternodeMan) (mnb : CMasternodeBroadcast) (nDoS : Nat) : Outcome :=
  match man.find mnb.vin with
  | none => ⟨man, nDoS, true⟩
  | some pmn =>
    if mnb.sigTime ≤ pmn.sigTime then ⟨man, nDoS, false⟩
    else if !pmn.isEnabled then ⟨man, nDoS, true⟩
    else if pmn.pubKeyCollateralAddress = mnb.pubKeyCollateralAddress ∧
        !pmn.isBroadcastedWithin env masternodeMinMnbSeconds then
      let updated := updateFromNewBroadcast services signer env man pmn mnb
      match updated.find pmn.vin with
      | none => ⟨updated, nDoS, true⟩
      | some entry => ⟨updated.write (entry.check services env .update false), nDoS, true⟩
    else ⟨man, nDoS, true⟩

def checkBroadcast (man : CMasternodeMan) (mnb : CMasternodeBroadcast) : Outcome :=
  if env.here.getAdjustedTime + 60 * 60 < mnb.sigTime then ⟨man, 1, false⟩
  else if mnb.lastPing.same .empty then ⟨man, 0, false⟩
  else
    let pinged := checkPing services signer env man mnb.lastPing 0 false true
    if !pinged.accepted then pinged
    else if mnb.protocolVersion < env.getMinMasternodePaymentsProto then ⟨man, pinged.nDoS, false⟩
    else if (getScriptForDestination (signer.getID mnb.pubKeyCollateralAddress)).length ≠ 25 then
      ⟨man, 100, false⟩
    else if (getScriptForDestination (signer.getID mnb.pubKeyMasternode)).length ≠ 25 then
      ⟨man, 100, false⟩
    else if !mnb.vin.scriptSig.isEmpty then ⟨man, pinged.nDoS, false⟩
    else if !mnb.verifySignature signer then
      ⟨man, if mnb.protocolVersion < minPeerMnAnnounce then 0 else 100, false⟩
    else if (services.params.networkID = .main ∧ mnb.addr.port ≠ 35993) ∨
        (services.params.networkID ≠ .main ∧ mnb.addr.port = 35993) then
      ⟨man, pinged.nDoS, false⟩
    else updateListed services signer env man mnb pinged.nDoS

def paysCollateral (pubkey : CPubKey) (out : CTxOut) : Bool :=
  (out.nValue == masternodeAmount || out.nValue == pillarAmount) &&
    out.scriptPubKey == getScriptForDestination (signer.getID pubkey)

def isVinAssociatedWithPubkey (vin : CTxIn) (pubkey : CPubKey) : Bool :=
  match getTransaction env.node vin.prevout.hash with
  | none => false
  | some (txVin, _) => txVin.vout.any (paysCollateral signer pubkey)

/-- Whether the collateral got its confirmations after the broadcast; `none` at a null pointer. -/
def confirmedTooLate (mnb : CMasternodeBroadcast) : Option Bool :=
  let hashBlock := ((getTransaction env.node mnb.vin.prevout.hash).map Prod.snd).getD 0
  match env.node.mapBlockIndex hashBlock with
  | none => some false
  | some pMNIndex =>
    match env.node.chainActive.atHeight (pMNIndex.nHeight + masternodeMinConfirmations - 1) with
    | [] => none
    | pConfIndex :: _ => some (decide (mnb.sigTime < pConfIndex.getBlockTime))

/-- The last part of `CheckInputsAndAdd`: the inputs are checked and the entry
is added. -/
def checkInputsThenAdd (man : CMasternodeMan) (mnb : CMasternodeBroadcast) (nDoS : Nat) :
    Option Outcome :=
  if !env.lockMain .inputs then
    some ⟨man.forgetBroadcast (mnb.getHash signer), nDoS, false⟩
  else match acceptableInputs services env (probeTransaction services env mnb.vin) with
    | .error (.rejected state) =>
      some ⟨man, if state.isInvalid then state.nDoS else nDoS, false⟩
    | .error _ => none
    | .ok () =>
      if getInputAge env.node mnb.vin < masternodeMinConfirmations then
        some ⟨man.forgetBroadcast (mnb.getHash signer), nDoS, false⟩
      else match confirmedTooLate env mnb with
        | none => none
        | some true => some ⟨man, nDoS, false⟩
        | some false => some ⟨man.add env (.ofBroadcast mnb), nDoS, true⟩

/-- `CMasternodeBroadcast::CheckInputsAndAdd`; `none` where the process stops. -/
def checkInputsAndAdd (man : CMasternodeMan) (mnb : CMasternodeBroadcast) (nDoS : Nat) :
    Option Outcome :=
  if env.fMasterNode && mnb.vin.prevout == env.activeVin.prevout &&
      mnb.pubKeyMasternode == env.activePubKeyMasternode then some ⟨man, nDoS, true⟩
  else if mnb.lastPing.same .empty then some ⟨man, nDoS, false⟩
  else
    let pinged := checkPing services signer env man mnb.lastPing nDoS false true
    if !pinged.accepted then some pinged
    else match man.find mnb.vin with
      | none => checkInputsThenAdd services signer env man mnb pinged.nDoS
      | some pmn =>
        if pmn.isEnabled then some ⟨man, pinged.nDoS, true⟩
        else checkInputsThenAdd services signer env (man.remove pmn.vin) mnb pinged.nDoS

/-- `ProcessMessage` of `mnb`: the list, and the ban score of the peer. -/
def processBroadcast (man : CMasternodeMan) (mnb : CMasternodeBroadcast) :
    Option (CMasternodeMan × Nat) :=
  if env.fLiteMode || !env.isBlockchainSynced then some (man, 0)
  else if !env.canBePillar mnb.vin.prevout then some (man, 100)
  else if (man.mapSeenMasternodeBroadcast (mnb.getHash signer)).isSome then some (man, 0)
  else
    let checked :=
      checkBroadcast services signer env (man.rememberBroadcast (mnb.getHash signer) mnb) mnb
    if !checked.accepted then some (checked.man, checked.nDoS)
    else if !isVinAssociatedWithPubkey signer env mnb.vin mnb.pubKeyCollateralAddress then
      some (checked.man, 33)
    else (checkInputsAndAdd services signer env checked.man mnb checked.nDoS).map fun added =>
      (added.man, if added.accepted then 0 else added.nDoS)

def processPing (man : CMasternodeMan) (mnp : CMasternodePing) : CMasternodeMan × Nat :=
  if env.fLiteMode || !env.isBlockchainSynced then (man, 0)
  else
    let hash := signer.hashPing mnp.vin mnp.sigTime
    if (man.mapSeenMasternodePing hash).isSome then (man, 0)
    else
      let checked := checkPing services signer env (man.rememberPing hash mnp) mnp 0 true false
      (checked.man, if checked.accepted then 0 else checked.nDoS)

def isInactive (forceExpiredRemoval : Bool) (mn : CMasternode) : Bool :=
  mn.activeState = .remove || mn.activeState = .vinSpent ||
    (forceExpiredRemoval && decide (mn.activeState = .expired)) ||
    decide (mn.protocolVersion < env.getMinMasternodePaymentsProto)

/-- `CheckAndRemove`: the broadcasts seen of a removed entry can come again,
and old ones and old pings are forgotten. -/
def checkAndRemove (forceExpiredRemoval : Bool) (man : CMasternodeMan) : CMasternodeMan :=
  let checked := man.vMasternodes.map fun mn => mn.check services env (.list mn.vin) false
  let removed := checked.filter (isInactive env forceExpiredRemoval)
  let oldest := env.here.getTime - masternodeRemovalSeconds * 2
  { vMasternodes := checked.filter fun mn => !isInactive env forceExpiredRemoval mn
    mapSeenMasternodeBroadcast := fun hash =>
      (man.mapSeenMasternodeBroadcast hash).filter fun mnb =>
        !removed.any (fun mn => mn.vin == mnb.vin) && decide (oldest ≤ mnb.lastPing.sigTime)
    mapSeenMasternodePing := fun hash =>
      (man.mapSeenMasternodePing hash).filter fun ping => decide (oldest ≤ ping.sigTime) }

end Messages

section Cases

variable (services : Services) (signer : Signer) (env : Environment) (man : CMasternodeMan)

/-- A check of a ping leaves the list, accepting by time alone a verified ping of a listed entry, or
writes an entry with a ping that is not too early. -/
theorem checkPing_cases (ping : CMasternodePing) (nDoS : Nat)
    (fRequireEnabled fCheckSigTimeOnly : Bool) (outcome : Outcome)
    (done : checkPing services signer env man ping nDoS fRequireEnabled fCheckSigTimeOnly =
      outcome) :
    outcome.man = man ∧ (outcome.accepted = true → fCheckSigTimeOnly = true ∧
        ∀ pmn, man.find ping.vin = some pmn →
          ping.verifySignature signer pmn.pubKeyMasternode = true) ∨
      fCheckSigTimeOnly = false ∧ ∃ pmn : CMasternode, man.find ping.vin = some pmn ∧
        pmn.isPingedWithin env (masternodeMinMnpSeconds - 60) ping.sigTime = false ∧
        ping.verifySignature signer pmn.pubKeyMasternode = true ∧
          outcome.man = (man.write ({ pmn with lastPing := ping }.check services env .ping
            true)).refreshBroadcast
              (CMasternodeBroadcast.getHash signer { pmn with lastPing := ping }) ping := by
  have refused : ∀ score : Nat, (⟨man, score, false⟩ : Outcome) = outcome →
      outcome.man = man ∧ (outcome.accepted = true → fCheckSigTimeOnly = true ∧
        ∀ pmn, man.find ping.vin = some pmn →
          ping.verifySignature signer pmn.pubKeyMasternode = true) := by
    intro score same
    rw [← same]
    exact ⟨rfl, fun accepted => by cases accepted⟩
  unfold checkPing at done
  split at done
  · exact Or.inl (refused _ done)
  split at done
  · exact Or.inl (refused _ done)
  cases found : man.find ping.vin with
  | none =>
    left
    rw [found] at done
    rw [← done]
    exact ⟨rfl, fun onlyTime => ⟨onlyTime, fun _ none => by cases none⟩⟩
  | some pmn =>
    rw [found] at done refused
    dsimp only at done
    split at done
    · left
      rename_i onlyTime
      split at done
      · rename_i verified
        rw [← done]
        refine ⟨rfl, fun _ => ⟨onlyTime, fun other same => ?_⟩⟩
        rw [← Option.some.inj same]
        exact verified
      · exact refused _ done
    rename_i whole
    split at done
    · exact Or.inl (refused _ done)
    split at done
    · exact Or.inl (refused _ done)
    split at done
    · exact Or.inl (refused _ done)
    rename_i notEarly
    split at done
    · exact Or.inl (refused _ done)
    rename_i verified
    cases block : env.node.mapBlockIndex ping.blockHash with
    | none =>
      rw [block] at done
      exact Or.inl (refused _ done)
    | some pindex =>
      rw [block] at done
      dsimp only at done
      split at done
      · exact Or.inl (refused _ done)
      · right
        refine ⟨by simpa using whole, pmn, rfl, by simpa using notEarly,
          by simpa using verified, ?_⟩
        rw [← done]

/-- A check of a broadcast refuses it and leaves the list, or it has verified ping and broadcast and
goes on. -/
theorem checkBroadcast_cases (mnb : CMasternodeBroadcast) (outcome : Outcome)
    (done : checkBroadcast services signer env man mnb = outcome) :
    outcome.man = man ∧ outcome.accepted = false ∨
      (checkPing services signer env man mnb.lastPing 0 false true).accepted = true ∧
        mnb.verifySignature signer = true ∧
          updateListed services signer env man mnb
            (checkPing services signer env man mnb.lastPing 0 false true).nDoS = outcome := by
  have refused : ∀ score : Nat, (⟨man, score, false⟩ : Outcome) = outcome →
      outcome.man = man ∧ outcome.accepted = false := by
    intro score same
    rw [← same]
    exact ⟨rfl, rfl⟩
  unfold checkBroadcast at done
  split at done
  · exact Or.inl (refused _ done)
  split at done
  · exact Or.inl (refused _ done)
  dsimp only at done
  split at done
  · left
    rename_i unpinged
    rcases checkPing_cases services signer env man mnb.lastPing 0 false true outcome done with
      unchanged | written
    · refine ⟨unchanged.1, ?_⟩
      rw [done] at unpinged
      simpa using unpinged
    · exact absurd written.1 (by decide)
  rename_i pinged
  split at done
  · exact Or.inl (refused _ done)
  split at done
  · exact Or.inl (refused _ done)
  split at done
  · exact Or.inl (refused _ done)
  split at done
  · exact Or.inl (refused _ done)
  split at done
  · exact Or.inl (refused _ done)
  rename_i verified
  split at done
  · exact Or.inl (refused _ done)
  · exact Or.inr ⟨by simpa using pinged, by simpa using verified, done⟩

/-- A broadcast is passed over, or remembered and checked, then goes on if its key owns its input.
-/
theorem processBroadcast_cases (mnb : CMasternodeBroadcast) (after : CMasternodeMan) (nDoS : Nat)
    (checked : Outcome)
    (isChecked : checkBroadcast services signer env
      (man.rememberBroadcast (mnb.getHash signer) mnb) mnb = checked)
    (processed : processBroadcast services signer env man mnb = some (after, nDoS)) :
    after = man ∨ after = checked.man ∨
      checked.accepted = true ∧
        isVinAssociatedWithPubkey signer env mnb.vin mnb.pubKeyCollateralAddress = true ∧
        ∃ outcome, checkInputsAndAdd services signer env checked.man mnb checked.nDoS =
          some outcome ∧ after = outcome.man := by
  unfold processBroadcast at processed
  rw [isChecked] at processed
  split at processed
  · cases processed
    exact Or.inl rfl
  split at processed
  · cases processed
    exact Or.inl rfl
  split at processed
  · cases processed
    exact Or.inl rfl
  right
  dsimp only at processed
  split at processed
  · cases processed
    exact Or.inl rfl
  rename_i accepted
  split at processed
  · cases processed
    exact Or.inl rfl
  rename_i associated
  obtain ⟨outcome, added, result⟩ := Option.map_eq_some_iff.mp processed
  cases result
  exact Or.inr ⟨by simpa using accepted, by simpa using associated, outcome, added, rfl⟩

end Cases

/-- A message of a peer, or the regular clean-up, and the node it meets. -/
inductive Event
  | mnb (env : Environment) (mnb : CMasternodeBroadcast)
  | mnp (env : Environment) (mnp : CMasternodePing)
  | checkAndRemove (env : Environment) (forceExpiredRemoval : Bool)

def Event.env : Event → Environment
  | .mnb env _ => env
  | .mnp env _ => env
  | .checkAndRemove env _ => env

def step (services : Services) (signer : Signer) (man : CMasternodeMan) :
    Event → Option CMasternodeMan
  | .mnb env mnb => (processBroadcast services signer env man mnb).map Prod.fst
  | .mnp env mnp => some (processPing services signer env man mnp).1
  | .checkAndRemove env forceExpiredRemoval =>
    some (checkAndRemove services env forceExpiredRemoval man)

end ZenonCore.MasternodeMan
