import ZenonCore.TrackedConnect
import ZenonCore.ForkSerials

/-!
# Checking a block without connecting it

A check leaves the state as it is exactly where the supplies and accumulator values it writes
are there already.
-/

namespace ZenonCore.JustCheck

open Script Primitives ChainParams Coins Chain
open Validation Zerocoin Chainstate CheckBlock
open ConnectBlock AcceptBlock Effects MoneySupply
open TrackedConnect ValueGate ForkSerials ChainTip

section Frames

variable (services : SupplyServices)

/-- The recalculations write to the supplies and their records only. -/
def SameNode (first last : IndexedState) : Prop :=
  last.node = first.node ∧ last.mapRejectedBlocks = first.mapRejectedBlocks

theorem forActiveFrom_keeps (start : IndexedState) (nHeight : Int)
    (body : CBlockIndex → Tracked Unit)
    (keeps : ∀ pindex state, SameNode start state → SameNode start (after (body pindex) state))
    (state : IndexedState) (held : SameNode start state) :
    SameNode start (after (forActiveFrom nHeight body) state) := by
  unfold forActiveFrom
  rw [after_inspect]
  apply check_bind_keeps (SameNode start) _ _ _ state held
  intro _ later same
  exact forM_keeps (SameNode start) body _ (fun pindex _ => keeps pindex) later same

variable (start state : IndexedState)

theorem recalculateMinted_keeps (pindex : CBlockIndex)
    (held : SameNode start state) :
    SameNode start (after (recalculateMinted services pindex) state) := by
  unfold recalculateMinted
  apply check_bind_keeps (SameNode start) _ _ _ state held
  intro block afterRead same
  apply check_bind_keeps (SameNode start) _ _ _ afterRead same
  exact fun _ _ same => same

theorem recalculateSpent_keeps (pindex : CBlockIndex)
    (held : SameNode start state) :
    SameNode start (after (recalculateSpent services pindex) state) := by
  unfold recalculateSpent
  apply check_bind_keeps (SameNode start) _ _ _ state held
  intro block afterRead same
  apply check_bind_keeps (SameNode start) _ _ _ afterRead same
  intro listDenomsSpent afterList same
  apply check_bind_keeps (SameNode start) _ _ _ afterList same
  intro _ afterCheck same
  rw [after_inspect]
  dsimp only
  apply write_bind_keeps (SameNode start) _ _ _ _ afterCheck same
  · exact fun _ same => same
  intro _ afterWrite same
  apply check_bind_keeps (SameNode start) _ _ _ afterWrite same
  exact fun _ _ same => same

theorem recalculateMoneyFrom_keeps (start : IndexedState) (entries : List CBlockIndex)
    (nSupplyPrev : CAmount) (state : IndexedState) (held : SameNode start state) :
    SameNode start (after (recalculateMoneyFrom services entries nSupplyPrev) state) := by
  induction entries generalizing nSupplyPrev state with
  | nil => exact held
  | cons pindex rest ih =>
    unfold recalculateMoneyFrom
    apply check_bind_keeps (SameNode start) _ _ _ state held
    intro block afterRead same
    rw [after_inspect]
    apply check_bind_keeps (SameNode start) _ _ _ afterRead same
    intro created afterValues same
    dsimp only
    apply write_bind_keeps (SameNode start) _ _ _ _ afterValues same
    · exact fun _ same => same
    · exact fun _ afterWrite same => ih _ afterWrite same

theorem recalculateSupply_keeps (held : SameNode start state) :
    SameNode start (after (recalculateSupply services) state) := by
  unfold recalculateSupply
  apply bind_keeps (SameNode start) _ _ _ _ state held
  · intro before same
    exact forActiveFrom_keeps start _ _
      (fun pindex state => recalculateMinted_keeps services start state pindex) before same
  intro _ afterMinted same
  apply bind_keeps (SameNode start) _ _ _ _ afterMinted same
  · intro before same
    exact forActiveFrom_keeps start _ _
      (fun pindex state => recalculateSpent_keeps services start state pindex) before same
  intro _ afterSpent same
  unfold recalculateZNNSupply
  rw [after_inspect]
  split
  · exact same
  · apply check_bind_keeps (SameNode start) _ _ _ afterSpent same
    exact fun _ later same => recalculateMoneyFrom_keeps services start _ _ later same

theorem recalculateAt_keeps (nHeight : Int) (state : IndexedState) :
    SameNode state (after (recalculateAt services nHeight) state) := by
  unfold recalculateAt
  split
  · exact recalculateSupply_keeps services state state ⟨rfl, rfl⟩
  · exact ⟨rfl, rfl⟩

end Frames

section Checks

variable (services : SupplyServices) (here : LocalState)

/-- The entry an update leaves: with the money supply, if it succeeds. -/
def updatedEntry (block : CBlock) (pprev : CBlockIndex) (parent own : SupplyEntry)
    (acc : Connecting) : SupplyEntry :=
  match updateZZNNSupply services block pprev parent own with
  | (updated, .ok true) => trackMoney pprev parent updated acc
  | (updated, _) => updated

theorem writeSupply_twice (pointer : IndexPointer) (state : IndexedState)
    (first second : SupplyEntry) :
    pointer.writeSupply (pointer.writeSupply state first) second =
      pointer.writeSupply state second := by
  cases pointer with
  | dummy pprev => rfl
  | entry pindex =>
    apply IndexedState.ext
    · rfl
    · funext other
      simp only [IndexPointer.writeSupply, IndexedState.setSupply]
      split_ifs <;> rfl
    · rfl
    · rfl

variable (block : CBlock) (pointer : IndexPointer) (acc : Connecting) (state : IndexedState)

theorem after_updateEntry :
    after (updateEntry services block pointer acc) state =
      pointer.writeSupply state (updatedEntry services block pointer.pprev
        (state.supply pointer.pprev) (pointer.readSupply state) acc) := by
  unfold updateEntry updatedEntry
  rw [after_inspect]
  dsimp only
  generalize updateZZNNSupply services block pointer.pprev (state.supply pointer.pprev)
    (pointer.readSupply state) = updated
  rw [after_bind]
  simp only [outcome_write, after_write, after_check_bind]
  obtain ⟨entry, fault | success⟩ := updated
  · rfl
  · cases success with
    | false => rfl
    | true => exact writeSupply_twice pointer state entry _

theorem outcome_updateEntry (done : Unit) :
    outcome (updateEntry services block pointer acc) state = .ok done ↔
      (updateZZNNSupply services block pointer.pprev (state.supply pointer.pprev)
        (pointer.readSupply state)).2 = .ok true := by
  unfold updateEntry
  rw [outcome_inspect]
  dsimp only
  generalize updateZZNNSupply services block pointer.pprev (state.supply pointer.pprev)
    (pointer.readSupply state) = updated
  obtain ⟨entry, fault | success⟩ := updated
  · simp [outcome_bind, ofFault]
  · cases success <;> simp [outcome_bind, ofFault, require, dos]

def valueAccepted (node : NodeState) (block : CBlock) (nHeight : Int) (acc : Connecting) : Bool :=
  isBlockValueValid services.params here.masternodeSynced node block
    (getBlockValue services.params (nHeight - 1) + if block.isProofOfWork then acc.nFees else 0)
    (acc.nValueOut - acc.nValueIn + acc.nFees)

theorem after_checkValues (block : CBlock) (nHeight : Int) (acc : Connecting)
    (state : IndexedState) :
    after (checkValues services here block nHeight acc) state =
      if valueAccepted services here state.node block nHeight acc then
        { state with node := initializeAccumulators services state.node nHeight }
      else state := by
  unfold checkValues
  rw [after_bind, outcome_inspect, outcome_check, after_inspect, after_check]
  unfold valueAccepted
  cases isBlockValueValid services.params here.masternodeSynced state.node block
      (getBlockValue services.params (nHeight - 1) + if block.isProofOfWork then acc.nFees else 0)
      (acc.nValueOut - acc.nValueIn + acc.nFees) with
  | false => rfl
  | true =>
    simp only [require, if_true, after_bind, outcome_write, after_write, after_check,
      outcome_check]
    split
    · rfl
    · rfl

/-- The block has come to the tracking of the supply, with the locals of the
loop. -/
structure ComesToSupply (node : NodeState) (block : CBlock) (pointer : IndexPointer)
    (view : CCoinsView) (fAlreadyChecked : Bool) (acc : Connecting) : Prop where
  checked : fAlreadyChecked = false → checkBlock services.toServices here node block false = .ok ()
  atTip : pointer.pprev.getBlockHash = view.hashBlock
  other : block.hash ≠ services.params.hashGenesisBlock
  loop : connectLoop services here node block pointer view = .ok acc

/-- The supply the entry ends with: that of the recalculation, where it stops,
or that of the update behind it. -/
def trackedEntry (state : IndexedState) (block : CBlock) (pointer : IndexPointer)
    (acc : Connecting) : SupplyEntry :=
  let recalculated := after (recalculateAt services pointer.nHeight) state
  match outcome (recalculateAt services pointer.nHeight) state with
  | .error _ => pointer.readSupply recalculated
  | .ok () =>
    updatedEntry services block pointer.pprev (recalculated.supply pointer.pprev)
      (pointer.readSupply recalculated) acc

/-- What a check writes to the index is there: recalculations change nothing, entries have their
supply. -/
structure RecordedAlready (state : IndexedState) (block : CBlock) (pointer : IndexPointer)
    (acc : Connecting) : Prop where
  records : (after (recalculateAt services pointer.nHeight) state).blockTree = state.blockTree
  others : ∀ other, pointer ≠ .entry other →
    (after (recalculateAt services pointer.nHeight) state).supply other = state.supply other
  own : ∀ pindex, pointer = .entry pindex →
    trackedEntry services state block pointer acc = state.supply pindex

/-- At the height at which the accumulators are calculated anew, there is
nothing to erase. -/
def AccumulatorsKept (node : NodeState) (nHeight : Int) : Prop :=
  initializeAccumulators services node nHeight = node

/-- The update and the value of the block let the check come to the
accumulators. -/
structure ComesToAccumulators (state : IndexedState) (block : CBlock) (pointer : IndexPointer)
    (acc : Connecting) : Prop where
  updated : (updateZZNNSupply services block pointer.pprev (state.supply pointer.pprev)
    (pointer.readSupply state)).2 = .ok true
  value : valueAccepted services here state.node block pointer.nHeight acc = true

theorem initializeAccumulators_recalculated (node : NodeState) (nHeight : Int)
    (recalculates : nHeight = nBlockRecalculateAccumulators services.params + 1) :
    initializeAccumulators services node nHeight = node := by
  have never : forcesRecalculation services node nHeight = false := by
    simp only [forcesRecalculation, Bool.and_eq_false_iff, decide_eq_false_iff_not]
    left
    right
    omega
  simp [initializeAccumulators, never]

theorem writeSupply_node (pointer : IndexPointer) (state : IndexedState) (entry : SupplyEntry) :
    (pointer.writeSupply state entry).node = state.node := by
  cases pointer <;> rfl

theorem writeSupply_self (pointer : IndexPointer) (state : IndexedState) :
    pointer.writeSupply state (pointer.readSupply state) = state := by
  cases pointer with
  | dummy pprev => rfl
  | entry pindex =>
    apply IndexedState.ext
    · rfl
    · funext other
      simp only [IndexPointer.writeSupply, IndexPointer.readSupply, IndexedState.setSupply]
      split_ifs with here
      · rw [here]
      · rfl
    · rfl
    · rfl

/-- Whether the check comes to the accumulators, behind the recalculations. -/
def PassesValues (state : IndexedState) (block : CBlock) (pointer : IndexPointer)
    (acc : Connecting) : Prop :=
  outcome (recalculateAt services pointer.nHeight) state = .ok () ∧
    (updateZZNNSupply services block pointer.pprev
      ((after (recalculateAt services pointer.nHeight) state).supply pointer.pprev)
      (pointer.readSupply (after (recalculateAt services pointer.nHeight) state))).2 = .ok true ∧
    valueAccepted services here state.node block pointer.nHeight acc = true

theorem after_connectBehindLoop (block : CBlock) (pointer : IndexPointer) (acc : Connecting)
    (state : IndexedState) :
    let written := pointer.writeSupply (after (recalculateAt services pointer.nHeight) state)
      (trackedEntry services state block pointer acc)
    PassesValues services here state block pointer acc ∧
        after (connectBehindLoop services here block pointer true acc) state =
          { written with
            node := initializeAccumulators services state.node pointer.nHeight } ∨
      ¬ PassesValues services here state block pointer acc ∧
        after (connectBehindLoop services here block pointer true acc) state = written := by
  have sameNode := (recalculateAt_keeps services pointer.nHeight state).1
  unfold connectBehindLoop PassesValues trackedEntry
  dsimp only
  rw [after_bind]
  cases recalculated : outcome (recalculateAt services pointer.nHeight) state with
  | error failure =>
    right
    constructor
    · intro passes
      cases passes.1
    · exact (writeSupply_self pointer _).symm
  | ok done =>
    dsimp only
    generalize leaves : after (recalculateAt services pointer.nHeight) state = reached
    rw [leaves] at sameNode
    have updates := outcome_updateEntry services block pointer acc reached
    rw [after_bind, after_updateEntry]
    cases success : outcome (updateEntry services block pointer acc) reached with
    | error failure =>
      right
      constructor
      · intro passes
        rw [(updates ()).mpr passes.2.1] at success
        cases success
      · rfl
    | ok _ =>
      have updated := (updates ()).mp success
      dsimp only
      rw [after_bind, after_checkValues, writeSupply_node, sameNode]
      cases value : valueAccepted services here state.node block pointer.nHeight acc with
      | false =>
        right
        constructor
        · intro passes
          cases passes.2.2
        · split
          · rfl
          · rfl
      | true =>
        left
        refine ⟨⟨rfl, updated, rfl⟩, ?_⟩
        split
        · rfl
        · rfl

theorem written_eq_iff (state : IndexedState) (block : CBlock) (pointer : IndexPointer)
    (acc : Connecting) :
    pointer.writeSupply (after (recalculateAt services pointer.nHeight) state)
        (trackedEntry services state block pointer acc) = state ↔
      RecordedAlready services state block pointer acc := by
  have same := recalculateAt_keeps services pointer.nHeight state
  constructor
  · intro unchanged
    constructor
    · have records := congrArg IndexedState.blockTree unchanged
      cases pointer <;> exact records
    · intro other notOwn
      have supplies := congrFun (congrArg IndexedState.supply unchanged) other
      cases pointer with
      | dummy pprev => exact supplies
      | entry pindex =>
        have differs : other ≠ pindex := fun here => notOwn (by rw [here])
        simpa [IndexPointer.writeSupply, IndexedState.setSupply, differs] using supplies
    · intro pindex own
      have supplies := congrFun (congrArg IndexedState.supply unchanged) pindex
      subst own
      simpa [IndexPointer.writeSupply, IndexedState.setSupply] using supplies
  · intro recorded
    apply IndexedState.ext
    · rw [writeSupply_node]
      exact same.1
    · funext other
      cases pointer with
      | dummy pprev => exact recorded.others other (by simp)
      | entry pindex =>
        simp only [IndexPointer.writeSupply, IndexedState.setSupply]
        split_ifs with here
        · rw [here]
          exact recorded.own pindex rfl
        · exact recorded.others other (by simpa [eq_comm] using here)
    · cases pointer <;> exact recorded.records
    · cases pointer <;> exact same.2

theorem passesValues_iff (state : IndexedState) (block : CBlock) (pointer : IndexPointer)
    (acc : Connecting)
    (elsewhere : pointer.nHeight ≠ nBlockRecalculateAccumulators services.params + 1) :
    PassesValues services here state block pointer acc ↔
      ComesToAccumulators services here state block pointer acc := by
  unfold PassesValues recalculateAt
  rw [if_neg elsewhere]
  simp only [outcome_pure, after_pure, true_and]
  constructor
  · exact fun passes => ⟨passes.1, passes.2⟩
  · exact fun comes => ⟨comes.updated, comes.value⟩

theorem withNode_eq_iff (written state : IndexedState) (node : NodeState)
    (sameNode : written.node = state.node) :
    { written with node := node } = state ↔ written = state ∧ node = state.node := by
  cases written
  cases state
  simp only [IndexedState.mk.injEq] at sameNode ⊢
  simp only [sameNode, true_and]
  rw [and_comm]

theorem connectBehindLoop_unchanged :
    after (connectBehindLoop services here block pointer true acc) state = state ↔
      RecordedAlready services state block pointer acc ∧
        (ComesToAccumulators services here state block pointer acc →
          AccumulatorsKept services state.node pointer.nHeight) := by
  have sameNode : (pointer.writeSupply (after (recalculateAt services pointer.nHeight) state)
      (trackedEntry services state block pointer acc)).node = state.node := by
    rw [writeSupply_node]
    exact (recalculateAt_keeps services pointer.nHeight state).1
  have kept : (PassesValues services here state block pointer acc →
      AccumulatorsKept services state.node pointer.nHeight) ↔
        (ComesToAccumulators services here state block pointer acc →
          AccumulatorsKept services state.node pointer.nHeight) := by
    by_cases recalculates : pointer.nHeight = nBlockRecalculateAccumulators services.params + 1
    · have same : AccumulatorsKept services state.node pointer.nHeight :=
        initializeAccumulators_recalculated services state.node pointer.nHeight recalculates
      exact ⟨fun _ _ => same, fun _ _ => same⟩
    · rw [passesValues_iff services here state block pointer acc recalculates]
  rw [← kept, ← written_eq_iff]
  rcases after_connectBehindLoop services here block pointer acc state with
    ⟨passes, left⟩ | ⟨stops, left⟩
  · rw [left, withNode_eq_iff _ state _ sameNode]
    apply and_congr_right
    intro _
    exact ⟨fun same _ => same, fun same => same passes⟩
  · rw [left]
    constructor
    · exact fun unchanged => ⟨unchanged, fun passes => absurd passes stops⟩
    · exact fun unchanged => unchanged.1

theorem connectOther_unchanged (block : CBlock) (pointer : IndexPointer) (view : CCoinsView)
    (state : IndexedState) :
    after (connectOther services here block pointer view true) state = state ↔
      ∀ acc, connectLoop services here state.node block pointer view = .ok acc →
        RecordedAlready services state block pointer acc ∧
          (ComesToAccumulators services here state block pointer acc →
            AccumulatorsKept services state.node pointer.nHeight) := by
  unfold connectOther
  rw [after_inspect, check_bind_unchanged]
  apply forall_congr'
  intro acc
  rw [connectBehindLoop_unchanged]

theorem noteRejected_unchanged (block : CBlock) (state : IndexedState) :
    noteRejected here state block = state ↔ (state.mapRejectedBlocks block.hash).isSome = true := by
  constructor
  · intro unchanged
    have noted := congrFun (congrArg IndexedState.mapRejectedBlocks unchanged) block.hash
    cases known : state.mapRejectedBlocks block.hash with
    | some time => rfl
    | none =>
      simp only [noteRejected, known, Option.isNone_none, and_self, if_true] at noted
      cases noted
  · intro known
    apply IndexedState.ext
    · rfl
    · rfl
    · rfl
    · funext hash
      simp only [noteRejected]
      split_ifs with fresh
      · rw [fresh.1] at fresh
        simp [Option.isNone_iff_eq_none.mp fresh.2] at known
      · rfl

theorem notesRejected_of_checkBlock (services : Services) (node : NodeState) (block : CBlock)
    (fCheckMerkleRoot : Bool)
    (checked : checkBlock services here node block fCheckMerkleRoot = .ok ()) :
    notesRejected services here node block fCheckMerkleRoot = false := by
  unfold checkBlock at checked
  simp only [bind_eq_ok] at checked
  obtain ⟨_, _, _, _, _, _, _, _, _, passed, _⟩ := checked
  simp [notesRejected, passed, Except.isOk, Except.toBool]

theorem after_checkBlockTracked (services : Services) (block : CBlock) (fCheckMerkleRoot : Bool)
    (state : IndexedState) :
    after (checkBlockTracked services here block fCheckMerkleRoot) state =
      if notesRejected services here state.node block fCheckMerkleRoot then
        noteRejected here state block
      else state := by
  unfold checkBlockTracked
  rw [after_bind]
  rfl

theorem outcome_checkBlockTracked (services : Services) (block : CBlock)
    (fCheckMerkleRoot : Bool) (state : IndexedState) :
    outcome (checkBlockTracked services here block fCheckMerkleRoot) state =
      checkBlock services here state.node block fCheckMerkleRoot := by
  have sameNode : (if notesRejected services here state.node block fCheckMerkleRoot then
      noteRejected here state block else state).node = state.node := by
    split_ifs <;> rfl
  unfold checkBlockTracked
  rw [outcome_bind, outcome_write, after_write, outcome_inspect, outcome_check, sameNode]

def NotedAlready (services : Services) (state : IndexedState) (block : CBlock)
    (fCheckMerkleRoot : Bool) : Prop :=
  notesRejected services here state.node block fCheckMerkleRoot = true →
    (state.mapRejectedBlocks block.hash).isSome = true

theorem checkBlockTracked_unchanged (services : Services) (block : CBlock)
    (fCheckMerkleRoot : Bool) (state : IndexedState) :
    after (checkBlockTracked services here block fCheckMerkleRoot) state = state ↔
      NotedAlready here services state block fCheckMerkleRoot := by
  rw [after_checkBlockTracked]
  unfold NotedAlready
  split_ifs with notes
  · simp [noteRejected_unchanged, notes]
  · simp [notes]

theorem checkBlockTracked_kept (services : Services) (block : CBlock) (fCheckMerkleRoot : Bool)
    (state : IndexedState) (done : Unit)
    (checked : outcome (checkBlockTracked services here block fCheckMerkleRoot) state = .ok done) :
    after (checkBlockTracked services here block fCheckMerkleRoot) state = state := by
  rw [outcome_checkBlockTracked] at checked
  rw [after_checkBlockTracked, notesRejected_of_checkBlock here services state.node block
    fCheckMerkleRoot checked]
  rfl

/-- What a call of `ConnectBlock` that only checks finds there already. -/
structure ChecksOnly (state : IndexedState) (block : CBlock) (pointer : IndexPointer)
    (view : CCoinsView) (fAlreadyChecked : Bool) : Prop where
  noted : fAlreadyChecked = false → NotedAlready here services.toServices state block false
  recorded : ∀ acc,
    ComesToSupply services here state.node block pointer view fAlreadyChecked acc →
      RecordedAlready services state block pointer acc
  accumulators : ∀ acc,
    ComesToSupply services here state.node block pointer view fAlreadyChecked acc →
      ComesToAccumulators services here state block pointer acc →
        AccumulatorsKept services state.node pointer.nHeight

theorem checkUnlessChecked_kept (block : CBlock) (fAlreadyChecked : Bool) (state : IndexedState)
    (done : Unit)
    (checked : outcome (checkUnlessChecked services here block true fAlreadyChecked) state =
      .ok done) :
    after (checkUnlessChecked services here block true fAlreadyChecked) state = state := by
  cases fAlreadyChecked with
  | true => rfl
  | false => exact checkBlockTracked_kept here services.toServices block false state done checked

theorem checkUnlessChecked_unchanged (block : CBlock) (fAlreadyChecked : Bool)
    (state : IndexedState) :
    after (checkUnlessChecked services here block true fAlreadyChecked) state = state ↔
      (fAlreadyChecked = false → NotedAlready here services.toServices state block false) := by
  cases fAlreadyChecked with
  | true => simp [checkUnlessChecked]
  | false => simp [checkUnlessChecked, checkBlockTracked_unchanged]

theorem checkUnlessChecked_ok (block : CBlock) (fAlreadyChecked : Bool) (state : IndexedState) :
    outcome (checkUnlessChecked services here block true fAlreadyChecked) state = .ok () ↔
      (fAlreadyChecked = false →
        checkBlock services.toServices here state.node block false = .ok ()) := by
  cases fAlreadyChecked with
  | true => simp [checkUnlessChecked]
  | false => simp [checkUnlessChecked, outcome_checkBlockTracked]

theorem connectBlockTracked_unchanged (state : IndexedState) (block : CBlock)
    (pointer : IndexPointer) (view : CCoinsView) (fAlreadyChecked : Bool) :
    after (connectBlockTracked services here block pointer view true fAlreadyChecked) state =
        state ↔
      ChecksOnly services here state block pointer view fAlreadyChecked := by
  unfold connectBlockTracked
  rw [bind_unchanged _ _ state
    (checkUnlessChecked_kept services here block fAlreadyChecked state),
    checkUnlessChecked_unchanged]
  simp only [Unique.forall_iff, PUnit.default_eq_unit, checkUnlessChecked_ok,
    check_bind_unchanged, require_eq_ok, beq_iff_eq]
  constructor
  · intro unchanged
    have behind : ∀ acc,
        ComesToSupply services here state.node block pointer view fAlreadyChecked acc →
          RecordedAlready services state block pointer acc ∧
            (ComesToAccumulators services here state block pointer acc →
              AccumulatorsKept services state.node pointer.nHeight) := by
      intro acc comes
      have other := unchanged.2 comes.checked comes.atTip
      rw [if_neg comes.other] at other
      exact (connectOther_unchanged services here block pointer view state).mp other acc comes.loop
    exact ⟨unchanged.1, fun acc comes => (behind acc comes).1, fun acc comes => (behind acc comes).2⟩
  · intro checksOnly
    refine ⟨checksOnly.noted, fun checked atTip => ?_⟩
    split_ifs with genesis
    · rfl
    · apply (connectOther_unchanged services here block pointer view state).mpr
      intro acc loop
      have comes : ComesToSupply services here state.node block pointer view fAlreadyChecked acc :=
        ⟨checked, atTip, genesis, loop⟩
      exact ⟨checksOnly.recorded acc comes, checksOnly.accumulators acc comes⟩

structure ComesToCheckBlock (node : NodeState) (block : CBlock) (pindexPrev : CBlockIndex) :
    Prop where
  present : pindexPrev ≠ []
  tip : pindexPrev = node.chainActive
  header : contextualCheckBlockHeader services.toAcceptServices here node block pindexPrev = .ok ()

/-- And has passed it, together with `ContextualCheckBlock`. -/
structure ComesToConnectBlock (node : NodeState) (block : CBlock) (pindexPrev : CBlockIndex)
    (fCheckMerkleRoot : Bool) : Prop extends
    ComesToCheckBlock services here node block pindexPrev where
  checked : checkBlock services.toServices here node block fCheckMerkleRoot = .ok ()
  contextual : ofReading (contextualCheckBlock services.toAcceptServices here node block
    pindexPrev) = .ok ()

structure TestsOnly (state : IndexedState) (block : CBlock) (pindexPrev : CBlockIndex)
    (fCheckMerkleRoot : Bool) : Prop where
  noted : ComesToCheckBlock services here state.node block pindexPrev →
    NotedAlready here services.toServices state block fCheckMerkleRoot
  connects : ComesToConnectBlock services here state.node block pindexPrev fCheckMerkleRoot →
    ChecksOnly services here state block (.dummy pindexPrev) state.node.pcoinsTip false

theorem testBlockValidity_unchanged (state : IndexedState) (block : CBlock)
    (pindexPrev : CBlockIndex) (fCheckMerkleRoot : Bool) :
    after (testBlockValidity services here block pindexPrev fCheckMerkleRoot) state = state ↔
      TestsOnly services here state block pindexPrev fCheckMerkleRoot := by
  have connects : ∀ view, after (do
      let _ ← connectBlockTracked services here block (.dummy pindexPrev) view true false
      (pure () : Tracked Unit)) state = state ↔
        ChecksOnly services here state block (.dummy pindexPrev) view false := by
    intro view
    rw [← connectBlockTracked_unchanged, after_bind]
    split <;> rfl
  unfold testBlockValidity
  rw [after_inspect]
  simp only [check_bind_unchanged, require_eq_ok, refuse, Unique.forall_iff,
    PUnit.default_eq_unit, bind_unchanged _ _ state
      (checkBlockTracked_kept here services.toServices block fCheckMerkleRoot state),
    checkBlockTracked_unchanged, outcome_checkBlockTracked, connects, Bool.not_eq_true',
    List.isEmpty_eq_false_iff, decide_eq_true_eq]
  constructor
  · intro unchanged
    constructor
    · exact fun comes => (unchanged comes.present comes.tip comes.header).1
    · exact fun comes => (unchanged comes.present comes.tip comes.header).2 comes.checked
        comes.contextual
  · intro testsOnly present tip header
    exact ⟨testsOnly.noted ⟨present, tip, header⟩, fun checked contextual =>
      testsOnly.connects ⟨⟨present, tip, header⟩, checked, contextual⟩⟩

end Checks

def mainnetSupply : SupplyServices where
  toAcceptServices := mainnetAccepting
  containsSerial := fun _ => false
  setInvalidOutPoints := []

/-- A node at the genesis block that has the header of a block behind it. -/
def headerState : IndexedState where
  node :=
    { forkedStore.node with
      chainActive := [genesisBlock]
      pcoinsTip := { hashBlock := genesisBlock.hash, coins := fun _ => none } }
  supply := fun _ => SupplyEntry.null
  blockTree := fun _ => none
  mapRejectedBlocks := fun _ => none

end ZenonCore.JustCheck
