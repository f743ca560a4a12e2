import Mathlib.Data.List.AList
import ZenonCore.MasternodeMan

/-!
# Budget proposals and their votes

`CBudgetManager` with votes (`mvote`) and proposals (`mprop`). A vote for an unknown proposal
is parked and replayed when a proposal comes.
-/

namespace ZenonCore.Budget

open Script Primitives Masternode MasternodeMan

def voteAbstain : Int := 0
def voteYes : Int := 1
def voteNo : Int := 2
def voteDelete : Int := 3

def budgetVoteUpdateMin : Int := 60 * 60

structure CBudgetVote where
  vin : CTxIn
  nProposalHash : Uint256
  nVote : Int
  nTime : Int
  vchSig : Bytes
  fValid : Bool
deriving DecidableEq, Repr

abbrev VoteMap := AList fun _ : Uint256 => CBudgetVote

structure CBudgetProposalBroadcast where
  strProposalName : Bytes
  strURL : Bytes
  nTime : Int
  nBlockStart : Int
  nBlockEnd : Int
  vchSig : Bytes
  nFeeTXHash : Uint256
deriving DecidableEq, Repr

structure CBudgetProposal extends CBudgetProposalBroadcast where
  fValid : Bool
  mapVotes : VoteMap

/-- The hashes of the budget messages, and the key of the network. -/
structure BudgetServices where
  signer : Signer
  sporkKey : CPubKey
  /-- `CBudgetVote::GetHash`, of `vin`, `nProposalHash`, `nVote` and `nTime`. -/
  hashVote : CTxIn → Uint256 → Int → Int → Uint256
  /-- `COutPoint::GetHash`. -/
  hashOutPoint : COutPoint → Uint256
  /-- `CBudgetProposal::GetHash`, of the name, the URL and the two blocks. -/
  hashProposal : Bytes → Bytes → Int → Int → Uint256

/-- What `IsBudgetCollateralValid` returns and leaves in `nTime` and `nConf`. -/
structure Collateral where
  valid : Bool
  nTime : Option Int
  nConf : Int

/-- What the handlers read of the node when a message comes. -/
structure BudgetView where
  fLiteMode : Bool
  isBlockchainSynced : Bool
  isSynced : Bool
  getTime : Int
  mnodeman : CMasternodeMan
  mPillarCollaterals : COutPoint → Bool
  countEnabled : Int
  isBudgetCollateralValid : Uint256 → Uint256 → Collateral

def BudgetView.active (view : BudgetView) : Bool := !view.fLiteMode && view.isBlockchainSynced

def toStringShort (signer : Signer) (outpoint : COutPoint) : Bytes :=
  (signer.hashToString outpoint.hash).take 64 ++ [0x2d] ++ decimal outpoint.n.toNat

namespace CBudgetVote

def getHash (services : BudgetServices) (vote : CBudgetVote) : Uint256 :=
  services.hashVote vote.vin vote.nProposalHash vote.nVote vote.nTime

/-- What a vote is signed for. The deletion of a proposal leaves `vin` out. -/
def strMessage (services : BudgetServices) (vote : CBudgetVote) : Bytes :=
  let statement := services.signer.hashToString vote.nProposalHash ++ decimal vote.nVote ++
    decimal vote.nTime
  if vote.nVote = voteDelete then statement
  else toStringShort services.signer vote.vin.prevout ++ statement

def signatureValid (services : BudgetServices) (view : BudgetView) (fSignatureCheck : Bool)
    (vote : CBudgetVote) : Bool :=
  if vote.nVote = voteDelete then
    verifyMessage services.signer services.sporkKey vote.vchSig (vote.strMessage services)
  else match view.mnodeman.find vote.vin with
    | none => false
    | some pmn =>
      if !view.mPillarCollaterals pmn.vin.prevout then false
      else if !fSignatureCheck then true
      else verifyMessage services.signer pmn.pubKeyMasternode vote.vchSig
        (vote.strMessage services)

end CBudgetVote

namespace CBudgetProposalBroadcast

def getHash (services : BudgetServices) (proposal : CBudgetProposalBroadcast) : Uint256 :=
  services.hashProposal proposal.strProposalName proposal.strURL proposal.nBlockStart
    proposal.nBlockEnd

def signatureValid (services : BudgetServices) (proposal : CBudgetProposalBroadcast) : Bool :=
  verifyMessage services.signer services.sporkKey proposal.vchSig
    (services.signer.hashToString (proposal.getHash services))

/-- `!SignatureValid() && !IsBudgetCollateralValid(..)`, negated, with the `nConf` and time it
leaves. -/
def checkCollateral (services : BudgetServices) (view : BudgetView)
    (proposal : CBudgetProposalBroadcast) : Bool × Int × CBudgetProposalBroadcast :=
  if proposal.signatureValid services then (true, 0, proposal)
  else
    let found := view.isBudgetCollateralValid proposal.nFeeTXHash (proposal.getHash services)
    (found.valid, found.nConf, { proposal with nTime := found.nTime.getD proposal.nTime })

end CBudgetProposalBroadcast

namespace CBudgetProposal

/-- `CBudgetProposal(budgetProposalBroadcast)`: the votes are not sent. -/
def ofBroadcast (broadcast : CBudgetProposalBroadcast) : CBudgetProposal :=
  { broadcast with fValid := true, mapVotes := ∅ }

def countVotes (proposal : CBudgetProposal) (nVote : Int) : Nat :=
  proposal.mapVotes.entries.countP fun entry => entry.2.nVote == nVote && entry.2.fValid

def getYeas (proposal : CBudgetProposal) : Nat := proposal.countVotes voteYes
def getNays (proposal : CBudgetProposal) : Nat := proposal.countVotes voteNo
def getAbstains (proposal : CBudgetProposal) : Nat := proposal.countVotes voteAbstain

def isValid (services : BudgetServices) (view : BudgetView) (proposal : CBudgetProposal) :
    Bool × CBudgetProposal :=
  if view.countEnabled.tdiv 10 < (proposal.getNays : Int) - proposal.getYeas then
    (false, proposal)
  else if proposal.nBlockStart < 0 then (false, proposal)
  else if proposal.nBlockEnd < proposal.nBlockStart then (false, proposal)
  else
    let checked := proposal.toCBudgetProposalBroadcast.checkCollateral services view
    (checked.1, { proposal with toCBudgetProposalBroadcast := checked.2.2 })

def comesTooSoon (existing vote : CBudgetVote) : Bool :=
  decide (vote.nTime < existing.nTime) || decide (vote.nTime - existing.nTime < budgetVoteUpdateMin)

def addOrUpdateVote (services : BudgetServices) (view : BudgetView) (proposal : CBudgetProposal)
    (vote : CBudgetVote) : Option CBudgetProposal :=
  let hash := services.hashOutPoint vote.vin.prevout
  if (proposal.mapVotes.lookup hash).any (comesTooSoon · vote) then none
  else if view.getTime + 60 * 60 < vote.nTime then none
  else some { proposal with mapVotes := proposal.mapVotes.insert hash vote }

end CBudgetProposal

structure CBudgetManager where
  mapProposals : AList fun _ : Uint256 => CBudgetProposal
  mapSeenMasternodeBudgetProposals : AList fun _ : Uint256 => CBudgetProposalBroadcast
  mapSeenMasternodeBudgetVotes : VoteMap
  mapOrphanMasternodeBudgetVotes : VoteMap
  askedForSourceProposalOrBudget : AList fun _ : Uint256 => Int
  vecImmatureBudgetProposals : List CBudgetProposalBroadcast

namespace CBudgetManager

def empty : CBudgetManager where
  mapProposals := ∅
  mapSeenMasternodeBudgetProposals := ∅
  mapSeenMasternodeBudgetVotes := ∅
  mapOrphanMasternodeBudgetVotes := ∅
  askedForSourceProposalOrBudget := ∅
  vecImmatureBudgetProposals := []

/-- The end of `UpdateProposal`'s branch for a proposal that is not known. -/
def park (view : BudgetView) (manager : CBudgetManager) (vote : CBudgetVote) : CBudgetManager :=
  { manager with
    mapOrphanMasternodeBudgetVotes :=
      manager.mapOrphanMasternodeBudgetVotes.insert vote.nProposalHash vote
    askedForSourceProposalOrBudget :=
      if (manager.askedForSourceProposalOrBudget.lookup vote.nProposalHash).isSome then
        manager.askedForSourceProposalOrBudget
      else manager.askedForSourceProposalOrBudget.insert vote.nProposalHash view.getTime }

/-- `UpdateProposal`. A vote that is replayed comes from no peer. -/
def updateProposal (services : BudgetServices) (view : BudgetView) (manager : CBudgetManager)
    (vote : CBudgetVote) (fromPeer : Bool) : Bool × CBudgetManager :=
  match manager.mapProposals.lookup vote.nProposalHash with
  | none =>
    if fromPeer && view.isSynced then (false, manager.park view vote) else (false, manager)
  | some proposal =>
    if vote.nVote = voteDelete then
      (true, { manager with mapProposals := manager.mapProposals.erase vote.nProposalHash })
    else match proposal.addOrUpdateVote services view vote with
      | none => (false, manager)
      | some updated =>
        (true, { manager with
          mapProposals := manager.mapProposals.insert vote.nProposalHash updated })

def checkOrphanVote (services : BudgetServices) (view : BudgetView) (manager : CBudgetManager)
    (entry : Sigma fun _ : Uint256 => CBudgetVote) : CBudgetManager :=
  let updated := manager.updateProposal services view entry.2 false
  if updated.1 then
    { updated.2 with
      mapOrphanMasternodeBudgetVotes := updated.2.mapOrphanMasternodeBudgetVotes.erase entry.1 }
  else updated.2

def checkOrphanVotes (services : BudgetServices) (view : BudgetView) (manager : CBudgetManager) :
    CBudgetManager :=
  manager.mapOrphanMasternodeBudgetVotes.entries.foldl (checkOrphanVote services view) manager

def addProposal (services : BudgetServices) (view : BudgetView) (manager : CBudgetManager)
    (proposal : CBudgetProposal) : CBudgetManager :=
  let valid := proposal.isValid services view
  if !valid.1 then manager
  else if (manager.mapProposals.lookup (proposal.getHash services)).isSome then manager
  else
    { manager with
      mapProposals := manager.mapProposals.insert (proposal.getHash services) valid.2 }

def receiveProposal (services : BudgetServices) (view : BudgetView) (manager : CBudgetManager)
    (broadcast : CBudgetProposalBroadcast) : CBudgetManager :=
  let seen :=
    { manager with
      mapSeenMasternodeBudgetProposals :=
        manager.mapSeenMasternodeBudgetProposals.insert (broadcast.getHash services) broadcast }
  let valid := (CBudgetProposal.ofBroadcast broadcast).isValid services view
  if !valid.1 then seen
  else (seen.addProposal services view valid.2).checkOrphanVotes services view

def processProposal (services : BudgetServices) (view : BudgetView) (manager : CBudgetManager)
    (broadcast : CBudgetProposalBroadcast) : CBudgetManager :=
  if !view.active then manager
  else if (manager.mapSeenMasternodeBudgetProposals.lookup (broadcast.getHash services)).isSome then
    manager
  else
    let checked := broadcast.checkCollateral services view
    if !checked.1 then
      if 1 ≤ checked.2.1 then
        { manager with
          vecImmatureBudgetProposals := manager.vecImmatureBudgetProposals ++ [checked.2.2] }
      else manager
    else manager.receiveProposal services view checked.2.2

/-- The masternode of a vote is known and has a pillar's collateral. -/
def knowsVoter (view : BudgetView) (vote : CBudgetVote) : Bool :=
  (view.mnodeman.find vote.vin).any fun pmn => view.mPillarCollaterals pmn.vin.prevout

def rememberVote (services : BudgetServices) (manager : CBudgetManager) (vote : CBudgetVote) :
    CBudgetManager :=
  { manager with
    mapSeenMasternodeBudgetVotes :=
      manager.mapSeenMasternodeBudgetVotes.insert (vote.getHash services) vote }

def processVote (services : BudgetServices) (view : BudgetView) (manager : CBudgetManager)
    (vote : CBudgetVote) : CBudgetManager :=
  if !view.active then manager
  else if (manager.mapSeenMasternodeBudgetVotes.lookup (vote.getHash services)).isSome then manager
  else if !knowsVoter view vote then manager
  else
    let seen := manager.rememberVote services { vote with fValid := true }
    if !vote.signatureValid services view true then seen
    else (seen.updateProposal services view { vote with fValid := true } true).2

end CBudgetManager

inductive Message
  | mvote (view : BudgetView) (vote : CBudgetVote)
  | mprop (view : BudgetView) (broadcast : CBudgetProposalBroadcast)

def step (services : BudgetServices) (manager : CBudgetManager) : Message → CBudgetManager
  | .mvote view vote => manager.processVote services view vote
  | .mprop view broadcast => manager.processProposal services view broadcast

section Maps

open CBudgetManager

variable (services : BudgetServices) (view : BudgetView) (manager : CBudgetManager)

theorem updateProposal_seen (seen : VoteMap) (vote : CBudgetVote) (fromPeer : Bool) :
    updateProposal services view { manager with mapSeenMasternodeBudgetVotes := seen } vote
        fromPeer =
      ((manager.updateProposal services view vote fromPeer).1,
        { (manager.updateProposal services view vote fromPeer).2 with
          mapSeenMasternodeBudgetVotes := seen }) := by
  unfold updateProposal
  dsimp only
  cases manager.mapProposals.lookup vote.nProposalHash with
  | none =>
    dsimp only
    split
    · rfl
    · rfl
  | some proposal =>
    dsimp only
    split
    · rfl
    · cases proposal.addOrUpdateVote services view vote with
      | none => rfl
      | some updated => rfl

theorem updateProposal_seen_kept (vote : CBudgetVote) (fromPeer : Bool) :
    (manager.updateProposal services view vote fromPeer).2.mapSeenMasternodeBudgetVotes =
      manager.mapSeenMasternodeBudgetVotes := by
  have same := updateProposal_seen services view manager manager.mapSeenMasternodeBudgetVotes vote
    fromPeer
  rw [show { manager with mapSeenMasternodeBudgetVotes := manager.mapSeenMasternodeBudgetVotes } =
    manager from rfl] at same
  rw [same]

end Maps

abbrev VoteMessage := BudgetView × CBudgetVote

/-- The yeas, nays and abstentions a proposal has, if it is known. -/
def tally (manager : CBudgetManager) (hash : Uint256) : Option (Nat × Nat × Nat) :=
  (manager.mapProposals.lookup hash).map fun proposal =>
    (proposal.getYeas, proposal.getNays, proposal.getAbstains)

section Messages

open CBudgetManager

variable (services : BudgetServices)

def receive (manager : CBudgetManager) (message : VoteMessage) : CBudgetManager :=
  manager.processVote services message.1 message.2

def signed (message : VoteMessage) : Bool := message.2.signatureValid services message.1 true

def hashOf (message : VoteMessage) : Uint256 := message.2.getHash services

/-- The handler comes to the point where it notes the vote as seen, unless it
has been seen. -/
def noted (message : VoteMessage) : Bool := message.1.active && knowsVoter message.1 message.2

end Messages

section Handler

open CBudgetManager

variable (services : BudgetServices) (manager : CBudgetManager) (message : VoteMessage)

theorem receive_not_noted (unnoted : noted message = false) :
    receive services manager message = manager := by
  unfold receive processVote
  unfold noted at unnoted
  obtain passive | unknown := (Bool.and_eq_false_iff).mp unnoted
  · simp [passive]
  · simp [unknown]

theorem receive_seen (seen : hashOf services message ∈ manager.mapSeenMasternodeBudgetVotes) :
    receive services manager message = manager := by
  have found : (manager.mapSeenMasternodeBudgetVotes.lookup
      (message.2.getHash services)).isSome = true := AList.lookup_isSome.mpr seen
  unfold receive processVote
  simp [found]

theorem receive_new (isNoted : noted message = true)
    (new : hashOf services message ∉ manager.mapSeenMasternodeBudgetVotes) :
    receive services manager message =
      if signed services message then
        ((manager.rememberVote services { message.2 with fValid := true }).updateProposal services
          message.1 { message.2 with fValid := true } true).2
      else manager.rememberVote services { message.2 with fValid := true } := by
  unfold noted at isNoted
  obtain ⟨active, known⟩ := (Bool.and_eq_true_iff).mp isNoted
  have missing : (manager.mapSeenMasternodeBudgetVotes.lookup
      (message.2.getHash services)).isSome = false := by
    rw [Bool.eq_false_iff]
    exact fun found => new (AList.lookup_isSome.mp found)
  unfold receive processVote signed
  simp only [active, known, missing]
  cases message.2.signatureValid services message.1 true with
  | false => rfl
  | true => rfl

theorem mem_receive_seen (isNoted : noted message = true) (hash : Uint256) :
    hash ∈ (receive services manager message).mapSeenMasternodeBudgetVotes ↔
      hash = hashOf services message ∨ hash ∈ manager.mapSeenMasternodeBudgetVotes := by
  by_cases seen : hashOf services message ∈ manager.mapSeenMasternodeBudgetVotes
  · rw [receive_seen services manager message seen]
    constructor
    · exact Or.inr
    · intro either
      obtain same | there := either
      · rw [same]
        exact seen
      · exact there
  · rw [receive_new services manager message isNoted seen]
    have remembered : hash ∈ (manager.rememberVote services
          { message.2 with fValid := true }).mapSeenMasternodeBudgetVotes ↔
        hash = hashOf services message ∨ hash ∈ manager.mapSeenMasternodeBudgetVotes :=
      AList.mem_insert _
    split
    · rw [updateProposal_seen_kept]
      exact remembered
    · exact remembered

end Handler

def exampleMasternode (hash : Uint256) (key : CPubKey) : CMasternode where
  vin := { prevout := { hash := hash, n := 0 }, scriptSig := [], nSequence := 0xffffffff }
  addr := { ip := [127, 0, 0, 1], port := 35993 }
  pubKeyCollateralAddress := key
  pubKeyMasternode := key
  sig := []
  sigTime := 1600000000
  protocolVersion := 70922
  lastPing := CMasternodePing.empty
  activeState := .enabled
  lastTimeChecked := 0
  isPillar := true

def exampleBudget : BudgetServices where
  signer :=
    { getID := fun key => ⟨(key ++ List.replicate 20 0).take 20, by
        simp only [List.length_take, List.length_append, List.length_replicate]
        omega⟩
      hashMessage := fun _ => 88
      recoverCompact := fun _ vchSig => some vchSig
      serviceToString := fun addr => addr.ip
      txInToString := fun _ => []
      keyIDToString := fun keyID => keyID.val
      hashToString := fun _ => []
      hashBroadcast := fun _ _ => 0
      hashPing := fun _ _ => 0 }
  sporkKey := [9]
  hashVote := fun vin _ nVote nTime => vin.prevout.hash * 4 + BitVec.ofInt 256 (nVote + 1024 * nTime)
  hashOutPoint := fun outpoint => outpoint.hash
  hashProposal := fun strProposalName _ _ _ => BitVec.ofNat 256 strProposalName.length

/-- A node that knows two masternodes with a pillar's collateral. -/
def exampleView : BudgetView where
  fLiteMode := false
  isBlockchainSynced := true
  isSynced := true
  getTime := 1600000600
  mnodeman :=
    { CMasternodeMan.empty with
      vMasternodes := [exampleMasternode 21 [1], exampleMasternode 22 [2]] }
  mPillarCollaterals := fun _ => true
  countEnabled := 2
  isBudgetCollateralValid := fun _ _ => { valid := true, nTime := none, nConf := 10 }

def exampleProposal : CBudgetProposalBroadcast where
  strProposalName := [112, 113]
  strURL := []
  nTime := 1600000000
  nBlockStart := 1000
  nBlockEnd := 2000
  vchSig := []
  nFeeTXHash := 5

def exampleVote (hash : Uint256) (vchSig : Bytes) : CBudgetVote where
  vin := { prevout := { hash := hash, n := 0 }, scriptSig := [], nSequence := 0xffffffff }
  nProposalHash := 2
  nVote := voteYes
  nTime := 1600000300
  vchSig := vchSig
  fValid := true

end ZenonCore.Budget
