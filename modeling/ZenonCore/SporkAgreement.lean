import ZenonCore.Library.LatestWins
import ZenonCore.Library.Runs
import ZenonCore.Spork

/-!
# Two nodes with the same sporks

`ProcessSpork` writes the database, `UpdateSpork` neither does nor compares signing times.
-/

namespace ZenonCore.SporkAgreement

open Script Primitives Masternode Spork Library.Runs List Option
open Library.LatestWins

/-- The signed message an event brings to the node, if it does. -/
def messageOf (services : SporkServices) : Event → Option CSporkMessage
  | .processSpork _ _ spork =>
    if checkSignature services.signer services.sporkKey spork then some spork else none
  | .updateSpork getTime vchSig nSporkID nValue =>
    vchSig.map fun sig =>
      { vchSig := sig, nSporkID := nSporkID, nValue := nValue, nTimeSigned := getTime }
  | .restart => none

def received (services : SporkServices) (events : List Event) : List CSporkMessage :=
  events.filterMap (messageOf services)

def about (id : Int) (history : List CSporkMessage) : List CSporkMessage :=
  history.filter fun spork => spork.nSporkID == id

/-- Messages arrive at a full node with a chain and tie with no other active spork; a spork is
issued behind the active one; restarts find the active sporks. -/
def Retained (state : SporkState) : Event → Prop
  | .processSpork fLiteMode hasTip spork =>
    fLiteMode = false ∧ hasTip = true ∧
      ∀ active, state.mapSporksActive spork.nSporkID = some active →
        active.nTimeSigned = spork.nTimeSigned → active.nValue = spork.nValue
  | .updateSpork getTime _ nSporkID _ =>
    ∀ active, state.mapSporksActive nSporkID = some active → active.nTimeSigned < getTime
  | .restart => ∀ id, isKnown id = true → state.sporkDB id = state.mapSporksActive id

/-- The active sporks are the latest of the messages, and the database files
its sporks under their ids. -/
structure Current (history : List CSporkMessage) (state : SporkState) : Prop where
  active : ∀ id, isKnown id = true →
    Follows CSporkMessage.nTimeSigned CSporkMessage.nValue (about id history)
      (state.mapSporksActive id)
  filed : ∀ id spork, state.sporkDB id = some spork → spork.nSporkID = id

section Restart

variable (services : SporkServices)

variable (state : SporkState)

theorem loadSpork_active (filed : ∀ id spork, state.sporkDB id = some spork → spork.nSporkID = id) (id other : Int) :
    (loadSpork services state id).mapSporksActive other =
      if other = id ∧ isKnown id = true then (state.sporkDB id).or (state.mapSporksActive other)
      else state.mapSporksActive other := by
  unfold loadSpork
  by_cases known : isKnown id = true
  · cases record : state.sporkDB id with
    | none => simp [known]
    | some spork =>
      have same : spork.nSporkID = id := filed id spork record
      by_cases here : other = id
      · simp [known, SporkState.activate, same, here]
      · simp [known, SporkState.activate, same, here]
  · simp [known]

theorem loadSpork_sporkDB (id : Int) :
    (loadSpork services state id).sporkDB = state.sporkDB := by
  unfold loadSpork
  split
  · rfl
  · split
    · rfl
    · rfl

theorem loadSporks_active (ids : List Int) (state : SporkState)
    (filed : ∀ id spork, state.sporkDB id = some spork → spork.nSporkID = id) (other : Int)
    (known : isKnown other = true) :
    (ids.foldl (loadSpork services) state).sporkDB = state.sporkDB ∧
    (ids.foldl (loadSpork services) state).mapSporksActive other =
      if other ∈ ids then (state.sporkDB other).or (state.mapSporksActive other)
      else state.mapSporksActive other := by
  induction ids generalizing state with
  | nil => simp
  | cons id rest ih =>
    have kept := loadSpork_sporkDB services state id
    have next := ih (loadSpork services state id) (by rw [kept]; exact filed)
    rw [foldl_cons]
    refine ⟨next.1.trans kept, ?_⟩
    rw [next.2, kept, loadSpork_active services state filed id other]
    by_cases here : other = id
    · subst here
      cases record : state.sporkDB other with
      | none => simp
      | some spork => simp [known]
    · simp [here]

theorem restart_active (filed : ∀ id spork, state.sporkDB id = some spork → spork.nSporkID = id) (id : Int)
    (known : isKnown id = true) :
    (loadSporksFromDB services state).mapSporksActive id = state.sporkDB id ∧
      (loadSporksFromDB services state).sporkDB = state.sporkDB := by
  have loaded := loadSporks_active services sporkIDs
    { SporkState.empty with sporkDB := state.sporkDB } filed id known
  refine ⟨?_, loaded.1⟩
  unfold loadSporksFromDB
  rw [loaded.2, if_pos (known_mem_sporkIDs id known)]
  exact or_none

end Restart

section Steps

variable (services : SporkServices) (history : List CSporkMessage) (state : SporkState)

theorem about_snoc_same (spork : CSporkMessage) :
    about spork.nSporkID (history ++ [spork]) = about spork.nSporkID history ++ [spork] := by
  simp [about]

theorem about_snoc_other (spork : CSporkMessage) (id : Int) (different : spork.nSporkID ≠ id) :
    about id (history ++ [spork]) = about id history := by
  simp [about, different]

theorem Current.activate {history : List CSporkMessage} {state : SporkState}
    (current : Current history state) (hash : Uint256) (spork : CSporkMessage)
    (supersedes : ∀ active, state.mapSporksActive spork.nSporkID = some active →
      Superseded CSporkMessage.nTimeSigned CSporkMessage.nValue active spork) :
    Current (history ++ [spork]) (state.activate hash spork.nSporkID spork) := by
  refine ⟨fun id known => ?_, current.filed⟩
  by_cases same : spork.nSporkID = id
  · subst same
    have now : (state.activate hash spork.nSporkID spork).mapSporksActive spork.nSporkID =
        some spork := by simp [SporkState.activate]
    rw [now, about_snoc_same]
    exact (current.active _ known).take _ _ supersedes
  · have kept : (state.activate hash spork.nSporkID spork).mapSporksActive id =
        state.mapSporksActive id := by simp [SporkState.activate, Ne.symm same]
    rw [kept, about_snoc_other history spork id same]
    exact current.active id known

theorem Current.pass {history : List CSporkMessage} {state : SporkState}
    (current : Current history state) (spork active : CSporkMessage)
    (present : state.mapSporksActive spork.nSporkID = some active)
    (superseded : Superseded CSporkMessage.nTimeSigned CSporkMessage.nValue spork active) :
    Current (history ++ [spork]) state := by
  refine ⟨fun id known => ?_, current.filed⟩
  by_cases same : spork.nSporkID = id
  · subst same
    have follows := current.active _ known
    rw [present] at follows ⊢
    rw [about_snoc_same]
    exact follows.keep _ _ superseded
  · rw [about_snoc_other history spork id same]
    exact current.active id known

theorem Current.unknown {history : List CSporkMessage} {state : SporkState}
    (current : Current history state) (spork : CSporkMessage)
    (unknown : isKnown spork.nSporkID = false) : Current (history ++ [spork]) state := by
  refine ⟨fun id known => ?_, current.filed⟩
  have different : spork.nSporkID ≠ id := by
    intro same
    rw [same, known] at unknown
    cases unknown
  rw [about_snoc_other history spork id different]
  exact current.active id known

theorem Current.writeSpork {history : List CSporkMessage} {state : SporkState}
    (current : Current history state) (spork : CSporkMessage) :
    Current history (state.writeSpork spork.nSporkID spork) := by
  refine ⟨current.active, fun id other record => ?_⟩
  unfold SporkState.writeSpork at record
  dsimp only at record
  split at record
  · rename_i here
    cases record
    exact here.symm
  · exact current.filed id other record

theorem Current.verified {history : List CSporkMessage} {state : SporkState}
    (current : Current history state) (hash : Uint256) (spork : CSporkMessage) (valid : Bool)
    (supersedes : ∀ active, state.mapSporksActive spork.nSporkID = some active →
      Superseded CSporkMessage.nTimeSigned CSporkMessage.nValue active spork) :
    Current (history ++ (if valid then some spork else none).toList)
      (if !valid then state
        else (state.activate hash spork.nSporkID spork).writeSpork spork.nSporkID spork) := by
  cases valid with
  | false =>
    simp only [Bool.not_false, if_true, Bool.false_eq_true, if_false, toList_none,
      append_nil]
    exact current
  | true =>
    simp only [Bool.not_true, Bool.false_eq_true, if_false, if_true]
    apply Current.writeSpork
    exact current.activate hash spork supersedes

theorem step_current (event : Event) (after : SporkState) (current : Current history state)
    (retained : Retained state event) (taken : step services state event = some after) :
    Current (history ++ (messageOf services event).toList) after := by
  cases event with
  | processSpork fLiteMode hasTip spork =>
    obtain ⟨notLite, tip, noTie⟩ := retained
    cases taken
    subst notLite tip
    simp only [processSpork, messageOf, Bool.false_eq_true, if_false, Bool.not_true]
    cases known : isKnown spork.nSporkID with
    | false =>
      simp only [Bool.not_false, if_true]
      split
      · exact current.unknown spork known
      · rw [toList_none, append_nil]
        exact current
    | true =>
      simp only [Bool.not_true, Bool.false_eq_true, if_false]
      cases active : state.mapSporksActive spork.nSporkID with
      | none =>
        rw [if_neg Bool.false_ne_true]
        apply current.verified
        intro other present
        rw [active] at present
        cases present
      | some now =>
        simp only [decide_eq_true_eq]
        by_cases seen : spork.nTimeSigned ≤ now.nTimeSigned
        · rw [if_pos seen]
          split
          · apply current.pass spork now active
            obtain older | tie := lt_or_eq_of_le seen
            · exact Or.inl older
            · exact Or.inr ⟨tie, (noTie now active tie.symm).symm⟩
          · rw [toList_none, append_nil]
            exact current
        · rw [if_neg seen]
          apply current.verified
          intro other present
          rw [active] at present
          cases present
          exact Or.inl (not_le.mp seen)
  | updateSpork getTime vchSig nSporkID nValue =>
    cases taken
    cases vchSig with
    | none =>
      simp only [updateSpork, messageOf, map_none, toList_none, append_nil]
      exact current
    | some sig =>
      simp only [updateSpork, messageOf, map_some]
      apply current.activate _
        { vchSig := sig, nSporkID := nSporkID, nValue := nValue, nTimeSigned := getTime }
      intro active present
      exact Or.inl (retained active present)
  | restart =>
    cases taken
    simp only [messageOf, toList_none, append_nil]
    refine ⟨fun id known => ?_, ?_⟩
    · rw [(restart_active services state current.filed id known).1, retained id known]
      exact current.active id known
    · rw [(restart_active services state current.filed 10001 (by decide)).2]
      exact current.filed

theorem run_current (events : List Event) (last : SporkState) (current : Current history state)
    (retained : AllSteps (step services) Retained state events)
    (reached : run (step services) state events = some last) :
    Current (history ++ received services events) last := by
  induction events generalizing history state with
  | nil =>
    cases reached
    unfold received
    rw [filterMap_nil, append_nil]
    exact current
  | cons event events ih =>
    rcases (run_cons_some (step services) state last event events).mp reached with
      ⟨next, taken, rest⟩
    have after := step_current services history state event next current retained.1 taken
    have ended := ih _ next after (retained.2 next taken) rest
    have joined : history ++ (messageOf services event).toList ++ received services events =
        history ++ received services (event :: events) := by
      unfold received
      rw [append_assoc, filterMap_cons]
      cases messageOf services event with
      | none => rfl
      | some spork => rfl
    rw [← joined]
    exact ended

end Steps

theorem empty_current : Current [] .empty :=
  ⟨fun _ _ => rfl, fun _ _ record => by cases record⟩

theorem getSporkValue_eq (first second : SporkState) (id : Int)
    (same : (first.mapSporksActive id).map CSporkMessage.nValue =
      (second.mapSporksActive id).map CSporkMessage.nValue) :
    getSporkValue first id = getSporkValue second id := by
  unfold getSporkValue
  cases left : first.mapSporksActive id with
  | none =>
    cases right : second.mapSporksActive id with
    | none => rfl
    | some active => rw [left, right] at same; cases same
  | some active =>
    cases right : second.mapSporksActive id with
    | none => rw [left, right] at same; cases same
    | some other =>
      rw [left, right] at same
      exact some.inj same

/-- Two nodes that get the same messages, in any order and with restarts, end with the value of the
message signed last. -/
theorem sporks_agree_while_retained (services : SporkServices) (first second : List Event)
    (left right : SporkState)
    (leftRun : run (step services) .empty first = some left)
    (rightRun : run (step services) .empty second = some right)
    (leftRetained : AllSteps (step services) Retained .empty first)
    (rightRetained : AllSteps (step services) Retained .empty second)
    (sameMessages : ∀ spork, spork ∈ received services first ↔ spork ∈ received services second)
    (id : Int) (known : isKnown id = true) :
    getSporkValue left id = getSporkValue right id ∧
      ∀ spork ∈ received services first, spork.nSporkID = id →
        ∃ latest ∈ received services first, latest.nSporkID = id ∧
          (∀ other ∈ received services first, other.nSporkID = id →
            other.nTimeSigned ≤ latest.nTimeSigned) ∧
          getSporkValue left id = latest.nValue := by
  have leftCurrent := (run_current services [] .empty first left empty_current leftRetained
    leftRun).active id known
  have rightCurrent := (run_current services [] .empty second right empty_current rightRetained
    rightRun).active id known
  rw [nil_append] at leftCurrent rightCurrent
  have mem_about : ∀ history (spork : CSporkMessage),
      spork ∈ about id history ↔ spork ∈ history ∧ spork.nSporkID = id := by
    intro history spork
    simp [about]
  refine ⟨?_, fun spork member same => ?_⟩
  · apply getSporkValue_eq
    apply leftCurrent.agree _ _ rightCurrent
    intro spork
    rw [mem_about, mem_about, sameMessages spork]
  · cases active : left.mapSporksActive id with
    | none =>
      rw [active] at leftCurrent
      have there := (mem_about _ spork).mpr ⟨member, same⟩
      rw [leftCurrent] at there
      exact absurd there not_mem_nil
    | some latest =>
      rw [active] at leftCurrent
      have there := (mem_about _ latest).mp leftCurrent.1
      refine ⟨latest, there.1, there.2, fun other inList concerns => ?_, ?_⟩
      · obtain older | tie := leftCurrent.2 other ((mem_about _ other).mpr ⟨inList, concerns⟩)
        · exact le_of_lt older
        · exact le_of_eq tie.1
      · unfold getSporkValue
        rw [active]

theorem padded_length (key : Script.Bytes) : ((key ++ replicate 20 0).take 20).length = 20 := by
  simp only [length_take, length_append, length_replicate]
  omega

/-- A network whose signatures give back the key that made them. -/
def exampleSporks : SporkServices where
  signer :=
    { getID := fun key => ⟨(key ++ List.replicate 20 0).take 20, padded_length key⟩
      hashMessage := fun _ => 88
      recoverCompact := fun _ vchSig => some vchSig
      serviceToString := fun addr => addr.ip
      txInToString := fun _ => []
      keyIDToString := fun keyID => keyID.val
      hashToString := fun _ => []
      hashBroadcast := fun _ _ => 0
      hashPing := fun _ _ => 0 }
  sporkKey := [2, 2]
  getHash := fun spork => BitVec.ofInt 256 spork.nTimeSigned

def exampleSpork (nTimeSigned : Int) : CSporkMessage where
  vchSig := [2, 2]
  nSporkID := 10001
  nValue := nTimeSigned + 5
  nTimeSigned := nTimeSigned

def issues (nTimeSigned : Int) : Event :=
  .updateSpork nTimeSigned (some [2, 2]) 10001 (nTimeSigned + 5)

def receives (nTimeSigned : Int) : Event := .processSpork false true (exampleSpork nTimeSigned)

/-- The node that issues a spork and starts again is back at the default. -/
theorem restart_loses_an_issued_spork :
    ∃ left right, run (step exampleSporks) .empty [issues 1600000000, .restart] = some left ∧
      run (step exampleSporks) .empty [receives 1600000000] = some right ∧
      received exampleSporks [issues 1600000000, .restart] =
        received exampleSporks [receives 1600000000] ∧
      getSporkValue left 10001 = 978307200 ∧ getSporkValue right 10001 = 1600000005 := by
  refine ⟨_, _, rfl, rfl, ?_, ?_, ?_⟩
  · decide +kernel
  · decide +kernel
  · decide +kernel

def retainedCheck (state : SporkState) : Event → Bool
  | .processSpork fLiteMode hasTip spork =>
    !fLiteMode && hasTip && (state.mapSporksActive spork.nSporkID).all fun active =>
      active.nTimeSigned != spork.nTimeSigned || active.nValue == spork.nValue
  | .updateSpork getTime _ nSporkID _ =>
    (state.mapSporksActive nSporkID).all fun active => decide (active.nTimeSigned < getTime)
  | .restart => sporkIDs.all fun id => state.sporkDB id == state.mapSporksActive id

theorem retained_of_check (state : SporkState) (event : Event)
    (checked : retainedCheck state event = true) : Retained state event := by
  cases event with
  | processSpork fLiteMode hasTip spork =>
    simp only [retainedCheck, Bool.and_eq_true, Bool.not_eq_true', Option.all_eq_true,
      Bool.or_eq_true, bne_iff_ne, beq_iff_eq] at checked
    refine ⟨checked.1.1, checked.1.2, fun active present tie => ?_⟩
    exact (checked.2 active present).resolve_left fun different => different tie
  | updateSpork getTime vchSig nSporkID nValue =>
    simp only [retainedCheck, Option.all_eq_true, decide_eq_true_eq] at checked
    exact checked
  | restart =>
    simp only [retainedCheck, List.all_eq_true, beq_iff_eq] at checked
    exact fun id known => checked id (known_mem_sporkIDs id known)

theorem orders_and_restart_agree :
    ∃ left right,
      run (step exampleSporks) .empty [receives 1600000000, .restart, issues 1600000060] =
        some left ∧
      run (step exampleSporks) .empty [receives 1600000060, receives 1600000000, .restart] =
        some right ∧
      getSporkValue left 10001 = getSporkValue right 10001 := by
  refine ⟨_, _, rfl, rfl, ?_⟩
  apply And.left (sporks_agree_while_retained exampleSporks
    [receives 1600000000, .restart, issues 1600000060]
    [receives 1600000060, receives 1600000000, .restart] _ _ rfl rfl ?_ ?_ ?_ 10001 (by decide))
  · exact AllSteps.mono retained_of_check (by decide +kernel)
  · exact AllSteps.mono retained_of_check (by decide +kernel)
  · have left : received exampleSporks [receives 1600000000, .restart, issues 1600000060] =
        [exampleSpork 1600000000, exampleSpork 1600000060] := by decide +kernel
    have right : received exampleSporks [receives 1600000060, receives 1600000000, .restart] =
        [exampleSpork 1600000060, exampleSpork 1600000000] := by decide +kernel
    intro spork
    rw [left, right]
    simp only [mem_cons, not_mem_nil, or_false]
    exact or_comm

end ZenonCore.SporkAgreement
