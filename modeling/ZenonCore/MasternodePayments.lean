import ZenonCore.Budget

/-!
# Votes for the masternode to be paid

`CMasternodePayments`: winners, the votes for each height, and the last height each masternode
has voted on. A vote comes as a message (`mnw`) or from `ProcessBlock`.
-/

namespace ZenonCore.MasternodePayments

open Script Primitives Masternode MasternodeMan
open Budget

def mnPaymentsSignaturesRequired : Int := 6

structure CMasternodePayee where
  scriptPubKey : CScript
  nVotes : Int
deriving DecidableEq, Repr

structure CMasternodeBlockPayees where
  nBlockHeight : Int
  vecPayments : List CMasternodePayee
deriving DecidableEq, Repr

def addToPayments (payeeIn : CScript) (nIncrement : Int) :
    List CMasternodePayee → List CMasternodePayee
  | [] => [{ scriptPubKey := payeeIn, nVotes := nIncrement }]
  | payee :: rest =>
    if payee.scriptPubKey = payeeIn then
      { payee with nVotes := payee.nVotes + nIncrement } :: rest
    else payee :: addToPayments payeeIn nIncrement rest

namespace CMasternodeBlockPayees

def addPayee (payees : CMasternodeBlockPayees) (payeeIn : CScript) (nIncrement : Int) :
    CMasternodeBlockPayees :=
  { payees with vecPayments := addToPayments payeeIn nIncrement payees.vecPayments }

def votesFor (payees : CMasternodeBlockPayees) (script : CScript) : Int :=
  match payees.vecPayments.find? fun payee => payee.scriptPubKey == script with
  | none => 0
  | some payee => payee.nVotes

end CMasternodeBlockPayees

structure CMasternodePaymentWinner where
  vinMasternode : CTxIn
  nBlockHeight : Int
  payee : CScript
  vchSig : Bytes
deriving DecidableEq, Repr

structure PaymentServices where
  signer : Signer
  /-- `CScript::ToString`. -/
  scriptToString : CScript → Bytes
  /-- `CMasternodePaymentWinner::GetHash`, of `payee`, `nBlockHeight` and the outpoint. -/
  hashWinner : CScript → Int → COutPoint → Uint256

structure PaymentView where
  isBlockchainSynced : Bool
  fLiteMode : Bool
  /-- The version of the peer that sends a message. -/
  nVersion : Int
  activeProtocol : Int
  /-- The height of the tip, if there is one and `cs_main` is free. -/
  tipHeight : Option Int
  mnodeman : CMasternodeMan
  countEnabled : Int
  getMasternodeRank : CTxIn → Int → Int → Int
  /-- `IsSporkActive(SPORK_14_NEW_VOTING_ENFORCEMENT)`. -/
  sporkNewVotingEnforcement : Bool
  getBlockHash : Int → Option Uint256
  fMasterNode : Bool
  /-- `activeMasternode.vin`. -/
  activeVin : CTxIn
  getNextMasternodeInQueueForPayment : Int → Option CMasternode
  /-- `SetKey` of the node's key and `Sign` with it. -/
  sign : Bytes → Option Bytes

def getMnSignaturesTotal (view : PaymentView) : Int :=
  if view.sporkNewVotingEnforcement then 15 else 10

namespace CMasternodePaymentWinner

def getHash (services : PaymentServices) (winner : CMasternodePaymentWinner) : Uint256 :=
  services.hashWinner winner.payee winner.nBlockHeight winner.vinMasternode.prevout

def strMessage (services : PaymentServices) (winner : CMasternodePaymentWinner) : Bytes :=
  toStringShort services.signer winner.vinMasternode.prevout ++ decimal winner.nBlockHeight ++
    services.scriptToString winner.payee

def isValid (view : PaymentView) (winner : CMasternodePaymentWinner) : Bool :=
  match view.mnodeman.find winner.vinMasternode with
  | none => false
  | some pmn =>
    if pmn.protocolVersion < view.activeProtocol then false
    else decide (view.getMasternodeRank winner.vinMasternode (winner.nBlockHeight - 100)
      view.activeProtocol ≤ getMnSignaturesTotal view)

def signatureValid (services : PaymentServices) (view : PaymentView)
    (winner : CMasternodePaymentWinner) : Bool :=
  match view.mnodeman.find winner.vinMasternode with
  | none => false
  | some pmn =>
    verifyMessage services.signer pmn.pubKeyMasternode winner.vchSig (winner.strMessage services)

end CMasternodePaymentWinner

structure CMasternodePayments where
  nLastBlockHeight : Int
  mapMasternodePayeeVotes : AList fun _ : Uint256 => CMasternodePaymentWinner
  mapMasternodeBlocks : AList fun _ : Int => CMasternodeBlockPayees
  mapMasternodesLastVote : AList fun _ : Uint256 => Int

def lastVoteKey (outMasternode : COutPoint) : Uint256 :=
  outMasternode.hash + BitVec.ofNat 256 outMasternode.n.toNat

namespace CMasternodePayments

def empty : CMasternodePayments where
  nLastBlockHeight := 0
  mapMasternodePayeeVotes := ∅
  mapMasternodeBlocks := ∅
  mapMasternodesLastVote := ∅

def canVote (payments : CMasternodePayments) (outMasternode : COutPoint) (nBlockHeight : Int) :
    Bool :=
  decide (payments.mapMasternodesLastVote.lookup (lastVoteKey outMasternode) ≠ some nBlockHeight)

def recordVote (payments : CMasternodePayments) (outMasternode : COutPoint) (nBlockHeight : Int) :
    CMasternodePayments :=
  { payments with
    mapMasternodesLastVote :=
      payments.mapMasternodesLastVote.insert (lastVoteKey outMasternode) nBlockHeight }

def blockPayees (payments : CMasternodePayments) (nBlockHeight : Int) : CMasternodeBlockPayees :=
  (payments.mapMasternodeBlocks.lookup nBlockHeight).getD
    { nBlockHeight := nBlockHeight, vecPayments := [] }

def count (services : PaymentServices) (payments : CMasternodePayments)
    (winner : CMasternodePaymentWinner) : CMasternodePayments :=
  { payments with
    mapMasternodePayeeVotes :=
      payments.mapMasternodePayeeVotes.insert (winner.getHash services) winner
    mapMasternodeBlocks :=
      payments.mapMasternodeBlocks.insert winner.nBlockHeight
        ((payments.blockPayees winner.nBlockHeight).addPayee winner.payee 1) }

def addWinningMasternode (services : PaymentServices) (view : PaymentView)
    (payments : CMasternodePayments) (winnerIn : CMasternodePaymentWinner) :
    Option CMasternodePayments :=
  if (view.getBlockHash (winnerIn.nBlockHeight - 100)).isNone then none
  else if (payments.mapMasternodePayeeVotes.lookup (winnerIn.getHash services)).isSome then none
  else some (payments.count services winnerIn)

/-- The node takes votes for the height: `CountEnabled() * 1.25` blocks back, and twenty ahead. -/
def inRange (view : PaymentView) (nHeight nBlockHeight : Int) : Bool :=
  decide ((4 * nHeight - 5 * view.countEnabled).tdiv 4 ≤ nBlockHeight) &&
    decide (nBlockHeight ≤ nHeight + 20)

def admissible (services : PaymentServices) (view : PaymentView) (payments : CMasternodePayments)
    (winner : CMasternodePaymentWinner) : Bool :=
  view.isBlockchainSynced && !view.fLiteMode && decide (view.activeProtocol ≤ view.nVersion) &&
    match view.tipHeight with
    | none => false
    | some nHeight =>
      (payments.mapMasternodePayeeVotes.lookup (winner.getHash services)).isNone &&
        inRange view nHeight winner.nBlockHeight && winner.isValid view

def processWinner (services : PaymentServices) (view : PaymentView)
    (payments : CMasternodePayments) (winner : CMasternodePaymentWinner) : CMasternodePayments :=
  if !payments.admissible services view winner then payments
  else if !payments.canVote winner.vinMasternode.prevout winner.nBlockHeight then payments
  else
    let voted := payments.recordVote winner.vinMasternode.prevout winner.nBlockHeight
    if !winner.signatureValid services view then voted
    else (voted.addWinningMasternode services view winner).getD voted

/-- The winner `ProcessBlock` votes for, before it is signed; without a masternode to pay it stays a
new winner. -/
def newWinner (services : PaymentServices) (view : PaymentView) (nBlockHeight : Int) :
    CMasternodePaymentWinner :=
  match view.getNextMasternodeInQueueForPayment nBlockHeight with
  | none => { vinMasternode := view.activeVin, nBlockHeight := 0, payee := [], vchSig := [] }
  | some pmn =>
    { vinMasternode := view.activeVin
      nBlockHeight := nBlockHeight
      payee := getScriptForDestination (services.signer.getID pmn.pubKeyCollateralAddress)
      vchSig := [] }

/-- The signed winner that `ProcessBlock` adds, if it gets so far. -/
def ownWinner (services : PaymentServices) (view : PaymentView) (payments : CMasternodePayments)
    (nBlockHeight : Int) : Option CMasternodePaymentWinner :=
  let n := view.getMasternodeRank view.activeVin (nBlockHeight - 100) view.activeProtocol
  if !view.fMasterNode then none
  else if n = -1 then none
  else if getMnSignaturesTotal view < n then none
  else if nBlockHeight ≤ payments.nLastBlockHeight then none
  else
    let winner := newWinner services view nBlockHeight
    (view.sign (winner.strMessage services)).map fun vchSig => { winner with vchSig := vchSig }

def processBlock (services : PaymentServices) (view : PaymentView)
    (payments : CMasternodePayments) (nBlockHeight : Int) : CMasternodePayments :=
  match payments.ownWinner services view nBlockHeight with
  | none => payments
  | some winner =>
    match payments.addWinningMasternode services view winner with
    | none => payments
    | some added => { added with nLastBlockHeight := nBlockHeight }

end CMasternodePayments

abbrev WinnerMessage := PaymentView × CMasternodePaymentWinner

section Handler

open CMasternodePayments

variable (services : PaymentServices) (payments : CMasternodePayments) (message : WinnerMessage)

def receive : CMasternodePayments := payments.processWinner services message.1 message.2

def signed : Bool := message.2.signatureValid services message.1

def comesToVote : Bool := payments.admissible services message.1 message.2

def remembered : Option Int :=
  payments.mapMasternodesLastVote.lookup (lastVoteKey message.2.vinMasternode.prevout)

theorem receive_stopped
    (stopped : comesToVote services payments message = true →
      remembered payments message = some message.2.nBlockHeight) :
    receive services payments message = payments := by
  unfold receive processWinner
  cases comes : payments.admissible services message.1 message.2 with
  | false => rfl
  | true =>
    have known := stopped comes
    unfold remembered at known
    have refused : payments.canVote message.2.vinMasternode.prevout message.2.nBlockHeight =
        false := by
      unfold canVote
      simp [known]
    simp [refused]

/-- A message that may vote leaves its height behind, and counts if it is signed and taken. -/
theorem receive_voting (comes : comesToVote services payments message = true)
    (free : remembered payments message ≠ some message.2.nBlockHeight) :
    receive services payments message =
      if signed services message then
        ((payments.recordVote message.2.vinMasternode.prevout
          message.2.nBlockHeight).addWinningMasternode services message.1 message.2).getD
            (payments.recordVote message.2.vinMasternode.prevout message.2.nBlockHeight)
      else payments.recordVote message.2.vinMasternode.prevout message.2.nBlockHeight := by
  have allowed : payments.canVote message.2.vinMasternode.prevout message.2.nBlockHeight =
      true := by
    unfold canVote
    exact decide_eq_true free
  unfold comesToVote at comes
  unfold receive processWinner signed
  simp only [comes, allowed, Bool.not_true, Bool.false_eq_true, if_false]
  cases message.2.signatureValid services message.1 with
  | false => rfl
  | true => rfl

theorem addWinningMasternode_some (view : PaymentView) (winner : CMasternodePaymentWinner)
    (after : CMasternodePayments)
    (added : payments.addWinningMasternode services view winner = some after) :
    (view.getBlockHash (winner.nBlockHeight - 100)).isSome = true ∧
      winner.getHash services ∉ payments.mapMasternodePayeeVotes ∧
      after = payments.count services winner := by
  unfold addWinningMasternode at added
  split at added
  · cases added
  · rename_i known
    split at added
    · cases added
    · rename_i absent
      refine ⟨?_, fun there => absent (AList.lookup_isSome.mpr there), (Option.some.inj added).symm⟩
      cases found : view.getBlockHash (winner.nBlockHeight - 100) with
      | none => exact absurd (by rw [found]; rfl) known
      | some hash => rfl

end Handler

inductive Event
  | mnw (view : PaymentView) (winner : CMasternodePaymentWinner)
  | processBlock (view : PaymentView) (nBlockHeight : Int)

def step (services : PaymentServices) (payments : CMasternodePayments) :
    Event → CMasternodePayments
  | .mnw view winner => payments.processWinner services view winner
  | .processBlock view nBlockHeight => payments.processBlock services view nBlockHeight

section Specification

open CMasternodePayments

variable (services : PaymentServices) (payments : CMasternodePayments)

def offered : Event → Option CMasternodePaymentWinner
  | .mnw view winner =>
    if payments.admissible services view winner && winner.signatureValid services view then
      some winner
    else none
  | .processBlock view nBlockHeight => payments.ownWinner services view nBlockHeight

def Event.view : Event → PaymentView
  | .mnw view _ => view
  | .processBlock view _ => view

/-- A step leaves the votes, or counts the winner of the event, which `CanVote` let pass if it came
in. -/
theorem step_votes (event : Event) :
    ((step services payments event).mapMasternodePayeeVotes = payments.mapMasternodePayeeVotes ∧
      (step services payments event).mapMasternodeBlocks = payments.mapMasternodeBlocks) ∨
    ∃ winner, offered services payments event = some winner ∧
      (event.view.getBlockHash (winner.nBlockHeight - 100)).isSome = true ∧
      winner.getHash services ∉ payments.mapMasternodePayeeVotes ∧
      (∀ view own, event = .mnw view own →
        payments.mapMasternodesLastVote.lookup (lastVoteKey own.vinMasternode.prevout) ≠
          some own.nBlockHeight) ∧
      (step services payments event).mapMasternodePayeeVotes =
        (payments.count services winner).mapMasternodePayeeVotes ∧
      (step services payments event).mapMasternodeBlocks =
        (payments.count services winner).mapMasternodeBlocks := by
  cases event with
  | mnw view winner =>
    by_cases stopped : comesToVote services payments (view, winner) = true →
        remembered payments (view, winner) = some winner.nBlockHeight
    · left
      have same := receive_stopped services payments (view, winner) stopped
      unfold receive at same
      unfold step
      dsimp only at same ⊢
      rw [same]
      exact ⟨rfl, rfl⟩
    · rw [Classical.not_imp] at stopped
      obtain ⟨comes, free⟩ := stopped
      have voting := receive_voting services payments (view, winner) comes free
      unfold receive at voting
      unfold step
      dsimp only at voting ⊢
      rw [voting]
      cases isSigned : signed services (view, winner) with
      | false => exact Or.inl ⟨rfl, rfl⟩
      | true =>
        rw [if_pos rfl]
        cases added : (payments.recordVote winner.vinMasternode.prevout
            winner.nBlockHeight).addWinningMasternode services view winner with
        | none => exact Or.inl ⟨rfl, rfl⟩
        | some after =>
          right
          rcases addWinningMasternode_some services _ view winner after added with
            ⟨known, absent, result⟩
          refine ⟨winner, ?_, known, absent, ?_, ?_, ?_⟩
          · unfold offered
            unfold comesToVote at comes
            unfold signed at isSigned
            dsimp only at comes isSigned ⊢
            rw [comes, isSigned]
            rfl
          · intro other own same
            cases same
            exact free
          · rw [Option.getD_some, result]
            rfl
          · rw [Option.getD_some, result]
            rfl
  | processBlock view nBlockHeight =>
    unfold step processBlock
    dsimp only
    cases own : payments.ownWinner services view nBlockHeight with
    | none => exact Or.inl ⟨rfl, rfl⟩
    | some winner =>
      dsimp only
      cases added : payments.addWinningMasternode services view winner with
      | none => exact Or.inl ⟨rfl, rfl⟩
      | some after =>
        right
        rcases addWinningMasternode_some services _ view winner after added with
          ⟨known, absent, result⟩
        refine ⟨winner, own, known, absent, ?_, ?_, ?_⟩
        · intro other mine same
          cases same
        · rw [result]
        · rw [result]

end Specification

/-- Signatures give back the key that made them, and the texts are left out. -/
def examplePayments : PaymentServices where
  signer := exampleBudget.signer
  scriptToString := fun script => script
  hashWinner := fun payee nBlockHeight outpoint =>
    outpoint.hash * 65536 + BitVec.ofInt 256 nBlockHeight * 16 + BitVec.ofNat 256 payee.length

/-- A node at height 200 whose two masternodes both rank first. -/
def exampleNode : PaymentView where
  isBlockchainSynced := true
  fLiteMode := false
  nVersion := 70922
  activeProtocol := 70922
  tipHeight := some 200
  mnodeman := exampleView.mnodeman
  countEnabled := 2
  getMasternodeRank := fun _ _ _ => 1
  sporkNewVotingEnforcement := true
  getBlockHash := fun _ => some 7
  fMasterNode := false
  activeVin := emptyTxIn
  getNextMasternodeInQueueForPayment := fun _ => none
  sign := fun _ => none

def exampleWinner (nBlockHeight : Int) (payee : CScript) (vchSig : Bytes) :
    CMasternodePaymentWinner where
  vinMasternode := { prevout := { hash := 21, n := 0 }, scriptSig := [], nSequence := 0xffffffff }
  nBlockHeight := nBlockHeight
  payee := payee
  vchSig := vchSig

end ZenonCore.MasternodePayments
