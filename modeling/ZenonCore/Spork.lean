import ZenonCore.Masternode

/-!
# Sporks

`ProcessSpork`, `UpdateSpork` and `LoadSporksFromDB` with the maps of sporks
and the spork database.
-/

namespace ZenonCore.Spork

open Script Primitives Masternode

def sporkTable : List (Int × String × Int) :=
  [(10001, "SPORK_2_SWIFTTX", 978307200),
   (10002, "SPORK_3_SWIFTTX_BLOCK_FILTERING", 1424217600),
   (10004, "SPORK_5_MAX_VALUE", 1000),
   (10006, "SPORK_7_MASTERNODE_SCANNING", 978307200),
   (10007, "SPORK_8_MASTERNODE_PAYMENT_ENFORCEMENT", 4070908800),
   (10008, "SPORK_9_MASTERNODE_BUDGET_ENFORCEMENT", 4070908800),
   (10009, "SPORK_10_MASTERNODE_PAY_UPDATED_NODES", 4070908800),
   (10012, "SPORK_13_ENABLE_SUPERBLOCKS", 4070908800),
   (10013, "SPORK_14_NEW_PROTOCOL_ENFORCEMENT", 4070908800),
   (10016, "SPORK_14_NEW_VOTING_ENFORCEMENT", 4070908800),
   (10014, "SPORK_15_NEW_PROTOCOL_ENFORCEMENT_2", 4070908800),
   (10015, "SPORK_16_ZEROCOIN_MAINTENANCE_MODE", 4070908800),
   (10020, "SPORK_21_NEW_PROTOCOL_ENFORCEMENT_3", 1424217600),
   (10021, "SPORK_22_NEW_PROTOCOL_ENFORCEMENT_4", 4070908800),
   (10022, "SPORK_23_NEW_PROTOCOL_ENFORCEMENT_5", 4070908800),
   (10023, "SPORK_24_NEW_PROTOCOL_ENFORCEMENT_6", 4070908800)]

def getSporkNameByID (id : Int) : String :=
  ((sporkTable.find? fun entry => entry.1 == id).map fun entry => entry.2.1).getD "Unknown"

def isKnown (id : Int) : Bool := getSporkNameByID id != "Unknown"

def sporkIDs : List Int := (List.range 23).map fun i => 10001 + (i : Int)

structure CSporkMessage where
  vchSig : Bytes
  nSporkID : Int
  nValue : Int
  nTimeSigned : Int
deriving DecidableEq, Repr

/-- `CSporkManager::CheckSignature` with the key of the network. -/
def checkSignature (signer : Signer) (sporkKey : CPubKey) (spork : CSporkMessage) : Bool :=
  verifyMessage signer sporkKey spork.vchSig
    (decimal spork.nSporkID ++ decimal spork.nValue ++ decimal spork.nTimeSigned)

structure SporkState where
  mapSporks : Uint256 → Option CSporkMessage
  mapSporksActive : Int → Option CSporkMessage
  sporkDB : Int → Option CSporkMessage

namespace SporkState

def empty : SporkState :=
  { mapSporks := fun _ => none, mapSporksActive := fun _ => none, sporkDB := fun _ => none }

/-- A message goes into the two maps; `hash` is its `GetHash`. -/
def activate (state : SporkState) (hash : Uint256) (id : Int) (spork : CSporkMessage) :
    SporkState :=
  { state with
    mapSporks := fun other => if other = hash then some spork else state.mapSporks other
    mapSporksActive := fun other => if other = id then some spork else state.mapSporksActive other }

def writeSpork (state : SporkState) (id : Int) (spork : CSporkMessage) : SporkState :=
  { state with sporkDB := fun other => if other = id then some spork else state.sporkDB other }

end SporkState

/-- What the spork code takes from the rest: signatures, the key of the
network and the hash of a message. -/
structure SporkServices where
  signer : Signer
  sporkKey : CPubKey
  getHash : CSporkMessage → Uint256

def processSpork (services : SporkServices) (fLiteMode hasTip : Bool) (state : SporkState)
    (spork : CSporkMessage) : SporkState :=
  if fLiteMode then state
  else if !hasTip then state
  else if !isKnown spork.nSporkID then state
  else
    let seen :=
      match state.mapSporksActive spork.nSporkID with
      | none => false
      | some active => decide (spork.nTimeSigned ≤ active.nTimeSigned)
    if seen then state
    else if !checkSignature services.signer services.sporkKey spork then state
    else (state.activate (services.getHash spork) spork.nSporkID spork).writeSpork
      spork.nSporkID spork

/-- `CSporkManager::UpdateSpork`; `vchSig` is what `Sign` gives, if it succeeds. -/
def updateSpork (services : SporkServices) (getTime : Int) (vchSig : Option Bytes)
    (state : SporkState) (nSporkID nValue : Int) : SporkState :=
  match vchSig with
  | none => state
  | some vchSig =>
    let msg :=
      { vchSig := vchSig, nSporkID := nSporkID, nValue := nValue, nTimeSigned := getTime }
    state.activate (services.getHash msg) nSporkID msg

def loadSpork (services : SporkServices) (state : SporkState) (id : Int) : SporkState :=
  if !isKnown id then state
  else match state.sporkDB id with
    | none => state
    | some spork => state.activate (services.getHash spork) spork.nSporkID spork

def loadSporksFromDB (services : SporkServices) (state : SporkState) : SporkState :=
  sporkIDs.foldl (loadSpork services) { SporkState.empty with sporkDB := state.sporkDB }

def getSporkValue (state : SporkState) (nSporkID : Int) : Int :=
  match state.mapSporksActive nSporkID with
  | some active => active.nValue
  | none =>
    ((sporkTable.find? fun entry => entry.1 == nSporkID).map fun entry => entry.2.2).getD (-1)

inductive Event
  | processSpork (fLiteMode hasTip : Bool) (spork : CSporkMessage)
  | updateSpork (getTime : Int) (vchSig : Option Bytes) (nSporkID nValue : Int)
  | restart
deriving DecidableEq, Repr

def step (services : SporkServices) (state : SporkState) : Event → Option SporkState
  | .processSpork fLiteMode hasTip spork =>
    some (processSpork services fLiteMode hasTip state spork)
  | .updateSpork getTime vchSig nSporkID nValue =>
    some (updateSpork services getTime vchSig state nSporkID nValue)
  | .restart => some (loadSporksFromDB services state)

theorem known_mem_sporkIDs (id : Int) (known : isKnown id = true) : id ∈ sporkIDs := by
  have every : ∀ entry ∈ sporkTable, entry.1 ∈ sporkIDs := by decide
  unfold isKnown getSporkNameByID at known
  cases found : sporkTable.find? (fun entry => entry.1 == id) with
  | none =>
    rw [found] at known
    simp at known
  | some entry =>
    have same : entry.1 = id := by simpa using List.find?_some found
    rw [← same]
    exact every entry (List.mem_of_find?_eq_some found)

end ZenonCore.Spork
