import ZenonCore.Library.Runs
import ZenonCore.MasternodeMan
import ZenonCore.ValueGate

/-!
# Who owns the collateral of a listed masternode

`IsVinAssociatedWithPubkey` looks at every output of the collateral's transaction, the checks
behind it neither at the key nor at the exact value of the broadcast's own.
-/

namespace ZenonCore.CollateralOwnership

open Script Primitives ChainParams Coins List Option
open Mempool Chain Validation Chainstate
open Masternode MasternodeMan ValueGate Library.Runs

/-- The output `prevout` names is worth exactly a collateral and pays the key that signed the
broadcast. -/
structure OwnsCollateral (signer : Signer) (transactions : Uint256 → Option CTransaction)
    (mnb : CMasternodeBroadcast) : Prop where
  collateral : ∃ tx out, transactions mnb.vin.prevout.hash = some tx ∧
    tx.vout[mnb.vin.prevout.n.toNat]? = some out ∧
    paysCollateral signer mnb.pubKeyCollateralAddress out = true
  signed : mnb.verifySignature signer = true

def AllOwned (signer : Signer) (transactions : Uint256 → Option CTransaction)
    (man : CMasternodeMan) : Prop :=
  ∀ mn ∈ man.vMasternodes, OwnsCollateral signer transactions mn.toCMasternodeBroadcast

/-- A transaction is identified by its hash, wherever the node finds it. -/
def Identified (transactions : Uint256 → Option CTransaction) (node : NodeState) : Prop :=
  ∀ hash tx hashBlock, getTransaction node hash = some (tx, hashBlock) → transactions hash = some tx

/-- If some output of a signed broadcast's transaction passes for the collateral, its own output
does. -/
def OwnOutputPays (services : Services) (signer : Signer) : Event → Prop
  | .mnb env mnb =>
    mnb.verifySignature signer = true →
    acceptableInputs services env (probeTransaction services env mnb.vin) = .ok () →
    ∀ tx hashBlock, getTransaction env.node mnb.vin.prevout.hash = some (tx, hashBlock) →
      tx.vout.any (paysCollateral signer mnb.pubKeyCollateralAddress) = true →
      (tx.vout[mnb.vin.prevout.n.toNat]?).any
        (paysCollateral signer mnb.pubKeyCollateralAddress) = true
  | .mnp _ _ => True
  | .checkAndRemove _ _ => True

section Entries

variable (signer : Signer) (transactions : Uint256 → Option CTransaction)

theorem OwnsCollateral.with_ping {mnb : CMasternodeBroadcast} (ping : CMasternodePing)
    (owned : OwnsCollateral signer transactions mnb) :
    OwnsCollateral signer transactions { mnb with lastPing := ping } :=
  ⟨owned.collateral, owned.signed⟩

theorem mem_writeEntry (mn other : CMasternode) (list : List CMasternode)
    (member : other ∈ CMasternodeMan.writeEntry mn list) : other = mn ∨ other ∈ list := by
  induction list with
  | nil => cases member
  | cons first rest ih =>
    unfold CMasternodeMan.writeEntry at member
    split at member
    · obtain here | later := mem_cons.mp member
      · exact Or.inl here
      · exact Or.inr (mem_cons_of_mem first later)
    · obtain here | later := mem_cons.mp member
      · exact Or.inr (here ▸ mem_cons_self ..)
      · obtain written | kept := ih later
        · exact Or.inl written
        · exact Or.inr (mem_cons_of_mem first kept)

variable (man : CMasternodeMan)

theorem find_mem (vin : CTxIn) (mn : CMasternode)
    (found : man.find vin = some mn) : mn ∈ man.vMasternodes :=
  mem_of_find?_eq_some found

theorem write_owned (mn : CMasternode)
    (listed : AllOwned signer transactions man)
    (owned : OwnsCollateral signer transactions mn.toCMasternodeBroadcast) :
    AllOwned signer transactions (man.write mn) := by
  intro other member
  obtain written | kept := mem_writeEntry mn other man.vMasternodes member
  · rw [written]
    exact owned
  · exact listed other kept

theorem remove_owned (vin : CTxIn)
    (listed : AllOwned signer transactions man) : AllOwned signer transactions (man.remove vin) :=
  fun other member => listed other (mem_of_mem_eraseP member)

theorem mem_add (env : Environment) (man : CMasternodeMan) (mn other : CMasternode)
    (member : other ∈ (man.add env mn).vMasternodes) :
    other ∈ man.vMasternodes ∨ other.toCMasternodeBroadcast = mn.toCMasternodeBroadcast := by
  unfold CMasternodeMan.add at member
  split at member
  · exact Or.inl member
  · split at member
    · exact Or.inl member
    · obtain old | new := mem_append.mp member
      · exact Or.inl old
      · right
        rw [mem_singleton.mp new]
        repeat' split
        all_goals rfl

theorem add_owned (env : Environment) (man : CMasternodeMan) (mn : CMasternode)
    (listed : AllOwned signer transactions man)
    (owned : OwnsCollateral signer transactions mn.toCMasternodeBroadcast) :
    AllOwned signer transactions (man.add env mn) := by
  intro other member
  obtain old | same := mem_add env man mn other member
  · exact listed other old
  · rw [same]
    exact owned

end Entries

section Messages

variable (services : Services) (signer : Signer) (env : Environment)
variable (transactions : Uint256 → Option CTransaction) (man : CMasternodeMan)

theorem checkPing_owned (ping : CMasternodePing) (nDoS : Nat)
    (fRequireEnabled fCheckSigTimeOnly : Bool) (listed : AllOwned signer transactions man) :
    AllOwned signer transactions
      (checkPing services signer env man ping nDoS fRequireEnabled fCheckSigTimeOnly).man := by
  rcases checkPing_cases services signer env man ping nDoS fRequireEnabled fCheckSigTimeOnly _ rfl
    with ⟨same, _⟩ | ⟨_, pmn, found, _, _, written⟩
  · rw [same]
    exact listed
  · rw [written]
    have entry := listed pmn (find_mem man ping.vin pmn found)
    apply write_owned signer transactions man _ listed
    rw [CMasternode.check_toCMasternodeBroadcast]
    exact entry.with_ping signer transactions ping

theorem updateFromNewBroadcast_owned (pmn : CMasternode) (mnb : CMasternodeBroadcast)
    (listed : AllOwned signer transactions man)
    (entry : OwnsCollateral signer transactions pmn.toCMasternodeBroadcast)
    (sameKey : pmn.pubKeyCollateralAddress = mnb.pubKeyCollateralAddress)
    (signed : mnb.verifySignature signer = true) :
    AllOwned signer transactions
      (updateFromNewBroadcast services signer env man pmn mnb) := by
  have renewed : ∀ ping, OwnsCollateral signer transactions
      { mnb with vin := pmn.vin, lastPing := ping } := by
    intro ping
    refine ⟨?_, signed⟩
    rw [← sameKey]
    exact entry.collateral
  unfold updateFromNewBroadcast
  dsimp only
  set written := man.write _ with writtenDef
  have writtenOwned : AllOwned signer transactions written := by
    rw [writtenDef]
    exact write_owned signer transactions man _ listed (renewed pmn.lastPing)
  have pingedOwned : AllOwned signer transactions
      (if mnb.lastPing.same .empty then (⟨written, 0, true⟩ : Outcome)
        else checkPing services signer env written mnb.lastPing 0 false false).man := by
    split
    · exact writtenOwned
    · exact checkPing_owned services signer env transactions written mnb.lastPing 0 false false
        writtenOwned
  generalize (if mnb.lastPing.same .empty then (⟨written, 0, true⟩ : Outcome)
    else checkPing services signer env written mnb.lastPing 0 false false) = pinged at pingedOwned ⊢
  split
  · apply write_owned signer transactions pinged.man _ pingedOwned
    cases found : pinged.man.find pmn.vin with
    | none => exact renewed mnb.lastPing
    | some current =>
      have owned := pingedOwned current (find_mem pinged.man pmn.vin current found)
      exact owned.with_ping signer transactions mnb.lastPing
  · exact pingedOwned

variable (mnb : CMasternodeBroadcast)

theorem updateListed_owned (nDoS : Nat)
    (listed : AllOwned signer transactions man) (signed : mnb.verifySignature signer = true) :
    AllOwned signer transactions (updateListed services signer env man mnb nDoS).man := by
  unfold updateListed
  cases found : man.find mnb.vin with
  | none => exact listed
  | some pmn =>
    dsimp only
    split
    · exact listed
    split
    · exact listed
    split
    · rename_i renews
      have updated := updateFromNewBroadcast_owned services signer env transactions man pmn mnb
        listed (listed pmn (find_mem man mnb.vin pmn found)) renews.1 signed
      cases again : (updateFromNewBroadcast services signer env man pmn mnb).find pmn.vin with
      | none => exact updated
      | some entry =>
        apply write_owned signer transactions _ _ updated
        rw [CMasternode.check_toCMasternodeBroadcast]
        exact updated entry (find_mem _ pmn.vin entry again)
    · exact listed

theorem checkBroadcast_owned
    (listed : AllOwned signer transactions man) :
    AllOwned signer transactions (checkBroadcast services signer env man mnb).man ∧
      ((checkBroadcast services signer env man mnb).accepted = true →
        mnb.verifySignature signer = true) := by
  rcases checkBroadcast_cases services signer env man mnb _ rfl with
    ⟨same, refused⟩ | ⟨_, signed, updated⟩
  · rw [same, refused]
    exact ⟨listed, fun accepted => by cases accepted⟩
  · rw [← updated]
    exact ⟨updateListed_owned services signer env transactions man mnb _ listed signed,
      fun _ => signed⟩

theorem checkInputsThenAdd_owned (nDoS : Nat) (outcome : Outcome)
    (listed : AllOwned signer transactions man)
    (owned : acceptableInputs services env (probeTransaction services env mnb.vin) = .ok () →
      OwnsCollateral signer transactions mnb)
    (checked : checkInputsThenAdd services signer env man mnb nDoS = some outcome) :
    AllOwned signer transactions outcome.man := by
  unfold checkInputsThenAdd at checked
  split at checked
  · cases checked
    exact listed
  split at checked
  · cases checked
    exact listed
  · cases checked
  rename_i acceptable
  split at checked
  · cases checked
    exact listed
  split at checked
  · cases checked
  · cases checked
    exact listed
  · cases checked
    exact add_owned signer transactions env man (.ofBroadcast mnb) listed (owned acceptable)

theorem checkInputsAndAdd_owned (nDoS : Nat) (outcome : Outcome)
    (listed : AllOwned signer transactions man)
    (owned : acceptableInputs services env (probeTransaction services env mnb.vin) = .ok () →
      OwnsCollateral signer transactions mnb)
    (checked : checkInputsAndAdd services signer env man mnb nDoS = some outcome) :
    AllOwned signer transactions outcome.man := by
  unfold checkInputsAndAdd at checked
  split at checked
  · cases checked
    exact listed
  split at checked
  · cases checked
    exact listed
  dsimp only at checked
  split at checked
  · cases checked
    exact checkPing_owned services signer env transactions man mnb.lastPing nDoS false true listed
  split at checked
  · exact checkInputsThenAdd_owned services signer env transactions man mnb _ outcome listed owned
      checked
  · rename_i pmn found
    split at checked
    · cases checked
      exact listed
    · exact checkInputsThenAdd_owned services signer env transactions (man.remove pmn.vin) mnb _
        outcome (remove_owned signer transactions man pmn.vin listed) owned checked

theorem owned_of_associated
    (identified : Identified transactions env.node)
    (condition : OwnOutputPays services signer (.mnb env mnb))
    (signed : mnb.verifySignature signer = true)
    (associated : isVinAssociatedWithPubkey signer env mnb.vin mnb.pubKeyCollateralAddress = true)
    (acceptable : acceptableInputs services env (probeTransaction services env mnb.vin) = .ok ()) :
    OwnsCollateral signer transactions mnb := by
  unfold isVinAssociatedWithPubkey at associated
  split at associated
  · cases associated
  rename_i tx hashBlock found
  have pays := condition signed acceptable tx hashBlock found associated
  obtain ⟨present, exact_⟩ := any_eq_true_iff_get .. |>.mp pays
  refine ⟨⟨tx, _, identified _ tx hashBlock found, (some_get present).symm, exact_⟩, signed⟩

theorem step_owned (event : Event) (after : CMasternodeMan)
    (listed : AllOwned signer transactions man)
    (identified : Identified transactions event.env.node)
    (condition : OwnOutputPays services signer event)
    (taken : step services signer man event = some after) :
    AllOwned signer transactions after := by
  cases event with
  | mnb env mnb =>
    obtain ⟨⟨changed, nDoS⟩, processed, same⟩ := map_eq_some_iff.mp taken
    subst same
    have seen : AllOwned signer transactions
        (man.rememberBroadcast (mnb.getHash signer) mnb) := listed
    have checked := checkBroadcast_owned services signer env transactions _ mnb seen
    rcases processBroadcast_cases services signer env man mnb changed nDoS _ rfl processed with
      same | same | ⟨accepted, associated, outcome, added, same⟩
    · rw [same]
      exact listed
    · rw [same]
      exact checked.1
    · rw [same]
      apply checkInputsAndAdd_owned services signer env transactions _ mnb _ outcome checked.1 _
        added
      exact owned_of_associated services signer env transactions mnb identified condition
        (checked.2 accepted) associated
  | mnp env mnp =>
    cases taken
    unfold processPing
    split
    · exact listed
    dsimp only
    split
    · exact listed
    · exact checkPing_owned services signer env transactions _ mnp 0 true false listed
  | checkAndRemove env forceExpiredRemoval =>
    cases taken
    intro mn member
    have kept := mem_of_mem_filter member
    obtain ⟨entry, inList, same⟩ := mem_map.mp kept
    rw [← same, CMasternode.check_toCMasternodeBroadcast]
    exact listed entry inList

end Messages

/-- Over every sequence of messages whose broadcasts meet the condition, every
listed masternode owns its collateral. -/
theorem listed_collateral_owned (services : Services) (signer : Signer)
    (transactions : Uint256 → Option CTransaction) (events : List Event)
    (man after : CMasternodeMan) (initially : AllOwned signer transactions man)
    (identified : ∀ event ∈ events, Identified transactions event.env.node)
    (condition : ∀ event ∈ events, OwnOutputPays services signer event)
    (reached : run (step services signer) man events = some after) :
    AllOwned signer transactions after := by
  have guarded := all_steps_of_events (step services signer)
    (fun event => Identified transactions event.env.node ∧ OwnOutputPays services signer event)
    man events fun event member => ⟨identified event member, condition event member⟩
  apply invariant_of_guarded_run (step services signer) _ (AllOwned signer transactions) _ man after
    events initially guarded reached
  intro state event next listed guard taken
  exact step_owned services signer transactions state event next listed guard.1 guard.2 taken

/-- Keys are 33 bytes, their hash starts with their last bytes, and a
signature gives the key that made it. -/
def exampleSigner : Signer where
  getID := fun key =>
    ⟨(key.drop 13 ++ List.replicate 20 0).take 20, by
      simp only [List.length_take, List.length_append, List.length_replicate]
      omega⟩
  hashMessage := fun _ => 88
  recoverCompact := fun _ vchSig => some vchSig
  serviceToString := fun addr => addr.ip
  txInToString := fun _ => []
  keyIDToString := fun keyID => keyID.val
  hashToString := fun _ => []
  hashBroadcast := fun _ key => BitVec.ofNat 256 key.length
  hashPing := fun vin _ => vin.prevout.hash

def victimKey : CPubKey := 2 :: List.replicate 32 17

def attackerKey : CPubKey := 3 :: List.replicate 32 34

/-- 6000 coins for the victim, and exactly a collateral for the attacker. -/
def sharedTx : CTransaction where
  hash := 21
  nVersion := 1
  vin := [{ prevout := { hash := 9, n := 0 }, scriptSig := [], nSequence := 0xffffffff }]
  vout :=
    [{ nValue := 6000 * coin
       scriptPubKey := getScriptForDestination (exampleSigner.getID victimKey) },
     { nValue := 5000 * coin
       scriptPubKey := getScriptForDestination (exampleSigner.getID attackerKey) }]
  nLockTime := 0

/-- The block with the two outputs, and `n` blocks behind it. -/
def confirmedChain : Nat → CBlockIndex
  | 0 => [exampleBlock 101 mainParams.hashGenesisBlock 1600000000 [coinbaseTx 10, sharedTx],
      genesisBlock]
  | n + 1 =>
    exampleBlock (BitVec.ofNat 256 (102 + n)) (BitVec.ofNat 256 (101 + n)) 1600000000
      [coinbaseTx (BitVec.ofNat 256 (1000 + n))] :: confirmedChain n

def sharedTransactions (hash : Uint256) : Option CTransaction :=
  if hash = 21 then some sharedTx else none

def collateralNode : NodeState where
  mapBlockIndex := fun hash =>
    if hash = 116 then some (confirmedChain 15)
    else if hash = 101 then some (confirmedChain 0)
    else none
  chainActive := confirmedChain 15
  pcoinsTip :=
    { hashBlock := 116
      coins := fun txid => if txid = 21 then some (CCoins.fromTx sharedTx 1) else none }
  mempool := CTxMemPool.empty
  zerocoinDB := CZerocoinDB.empty
  fTxIndex := true
  txIndex := fun hash => (sharedTransactions hash).map fun tx => (101, tx)
  blockUndo := fun _ => none
  fVerifyingBlocks := false

def syncedNode : Environment where
  node := collateralNode
  here := quietNode
  fLiteMode := false
  isBlockchainSynced := true
  fMasterNode := false
  activeVin := emptyTxIn
  activePubKeyMasternode := []
  getMinMasternodePaymentsProto := 70927
  mPillarCollaterals := fun _ => false
  vPillarCollaterals := []
  maxPillarsAllowed := 0
  collateralPubKey := getScriptForDestination (exampleSigner.getID [])
  lockMain := fun _ => true
  relayPriority := fun _ _ => true

def attackerBroadcast (n : UInt32) : CMasternodeBroadcast :=
  let vin := { prevout := { hash := 21, n := n }, scriptSig := [], nSequence := 0xffffffff }
  { vin := vin
    addr := { ip := [1, 2, 3, 4], port := 35993 }
    pubKeyCollateralAddress := attackerKey
    pubKeyMasternode := attackerKey
    sig := attackerKey
    sigTime := 1600000500
    protocolVersion := 70928
    lastPing := { vin := vin, blockHash := 104, sigTime := 1600000500, vchSig := attackerKey } }

theorem collateralNode_identified : Identified sharedTransactions collateralNode := by
  intro hash tx hashBlock found
  have indexed : collateralNode.txIndex hash = some (hashBlock, tx) := by
    unfold getTransaction at found
    have absent : collateralNode.mempool.lookup hash = none := rfl
    rw [absent] at found
    dsimp only at found
    rw [if_pos (by rfl)] at found
    split at found
    · cases found
    · rename_i entry
      split at found
      · cases found
        exact entry
      · cases found
  obtain ⟨other, known, same⟩ := map_eq_some_iff.mp indexed
  cases same
  exact known

theorem attacker_listed :
    (run (step mainnetServices exampleSigner) .empty
      [.mnb syncedNode (attackerBroadcast 0)]).map (fun man => man.vMasternodes) =
      some [.ofBroadcast (attackerBroadcast 0)] := by decide +kernel

/-- The attacker gets a masternode listed on the victim's output. -/
theorem foreign_output_is_listed :
    ∃ man mn, run (step mainnetServices exampleSigner) .empty
        [.mnb syncedNode (attackerBroadcast 0)] = some man ∧
      mn ∈ man.vMasternodes ∧
      ¬ OwnsCollateral exampleSigner sharedTransactions mn.toCMasternodeBroadcast := by
  obtain ⟨man, reached, entries⟩ := map_eq_some_iff.mp attacker_listed
  refine ⟨man, .ofBroadcast (attackerBroadcast 0), reached, ?_, ?_⟩
  · rw [entries]
    exact mem_singleton.mpr rfl
  · intro owned
    obtain ⟨tx, out, known, output, pays⟩ := owned.collateral
    have same : tx = sharedTx := by
      have shared : sharedTransactions 21 = some tx := known
      exact (some.inj shared).symm
    subst same
    have victims : out =
        { nValue := 6000 * coin
          scriptPubKey := getScriptForDestination (exampleSigner.getID victimKey) } :=
      (some.inj output).symm
    subst victims
    revert pays
    decide +kernel

theorem own_output_is_listed :
    ∃ man, run (step mainnetServices exampleSigner) .empty
        [.mnb syncedNode (attackerBroadcast 1)] = some man ∧
      man.vMasternodes = [.ofBroadcast (attackerBroadcast 1)] ∧
      AllOwned exampleSigner sharedTransactions man := by
  have listed : (run (step mainnetServices exampleSigner) .empty
      [.mnb syncedNode (attackerBroadcast 1)]).map (fun man => man.vMasternodes) =
      some [.ofBroadcast (attackerBroadcast 1)] := by decide +kernel
  obtain ⟨man, reached, entries⟩ := map_eq_some_iff.mp listed
  refine ⟨man, reached, entries, ?_⟩
  apply listed_collateral_owned mainnetServices exampleSigner sharedTransactions
    [.mnb syncedNode (attackerBroadcast 1)] .empty man
  · intro mn member
    cases member
  · intro event member
    rw [mem_singleton.mp member]
    exact collateralNode_identified
  · intro event member
    rw [mem_singleton.mp member]
    intro signed acceptable tx hashBlock found associated
    have known := collateralNode_identified _ tx hashBlock found
    have same : tx = sharedTx := (some.inj known).symm
    subst same
    decide +kernel
  · exact reached

end ZenonCore.CollateralOwnership
