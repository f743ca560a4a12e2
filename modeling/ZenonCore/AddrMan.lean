import Mathlib.Data.List.ProdSigma
import Mathlib.Logic.Function.Basic
import ZenonCore.Library.OrderedStores
import ZenonCore.Primitives

/-!
# The address manager

`CAddrMan` keeps addresses in buckets, under ids that are never given twice. There is no
result where an assertion fails, an id has no entry, or the counter of the ids overflows.
-/

namespace ZenonCore.AddrMan

open Library.OrderedStores Primitives

section Addresses

abbrev CNetAddr := BitVec 128

structure CService where
  ip : CNetAddr
  port : UInt16
deriving DecidableEq, Repr

structure CAddress extends CService where
  nServices : UInt64
  nTime : UInt32
deriving DecidableEq, Repr

structure CAddrInfo extends CAddress where
  nLastTry : Int
  source : CNetAddr
  nLastSuccess : Int
  nAttempts : Int
  nRefCount : Int
  fInTried : Bool
  nRandomPos : Int
deriving DecidableEq, Repr

def newInfo (addrIn : CAddress) (addrSource : CNetAddr) : CAddrInfo :=
  { addrIn with
    nLastTry := 0
    source := addrSource
    nLastSuccess := 0
    nAttempts := 0
    nRefCount := 0
    fInTried := false
    nRandomPos := -1 }

def emptyInfo : CAddrInfo := newInfo { ip := 0, port := 0, nServices := 1, nTime := 100000000 } 0

inductive Written where
  | key (nKey : Uint256)
  | service (addr : CService)
  | group (vchGroup : List UInt8)
  | number (value : Nat)
  | letter (value : Char)
deriving DecidableEq

/-- The parts of `CNetAddr` that the manager asks for, and the hash: any functions. -/
structure Network where
  isRoutable : CNetAddr → Bool
  getGroup : CNetAddr → List UInt8
  /-- The low 64 bits of the hash; `GetKey` spells the service. -/
  getLow64 : List Written → Nat

def triedBucketCount : Nat := 256
def newBucketCount : Nat := 1024
def bucketSize : Nat := 64
def triedBucketsPerGroup : Nat := 8
def newBucketsPerSourceGroup : Nat := 64
def newBucketsPerAddress : Int := 8

variable (net : Network) (nKey : Uint256)

def getTriedBucket (info : CService) : Nat :=
  let hash1 := net.getLow64 [.key nKey, .service info]
  let hash2 := net.getLow64
    [.key nKey, .group (net.getGroup info.ip), .number (hash1 % triedBucketsPerGroup)]
  hash2 % triedBucketCount

def getNewBucket (info : CService) (src : CNetAddr) : Nat :=
  let vchSourceGroupKey := net.getGroup src
  let hash1 := net.getLow64
    [.key nKey, .group (net.getGroup info.ip), .group vchSourceGroupKey]
  let hash2 := net.getLow64
    [.key nKey, .group vchSourceGroupKey, .number (hash1 % newBucketsPerSourceGroup)]
  hash2 % newBucketCount

def getBucketPosition (info : CService) (fNew : Bool) (nBucket : Nat) : Nat :=
  let hash1 := net.getLow64
    [.key nKey, .letter (if fNew then 'N' else 'K'), .number nBucket, .service info]
  hash1 % bucketSize

/-- The slot of a service in a new bucket, and its only one in the tried table. -/
def newSlot (info : CService) (bucket : Nat) : Nat × Nat :=
  (bucket, getBucketPosition net nKey info true bucket)

def triedSlot (info : CService) : Nat × Nat :=
  let nKBucket := getTriedBucket net nKey info
  (nKBucket, getBucketPosition net nKey info false nKBucket)

def isTerrible (info : CAddrInfo) (nNow : Int) : Bool :=
  -- never remove things tried in the last minute
  if info.nLastTry ≠ 0 ∧ info.nLastTry ≥ nNow - 60 then false
  -- came in a flying DeLorean
  else if (info.nTime.toNat : Int) > nNow + 10 * 60 then true
  -- not seen in recent history
  else if info.nTime = 0 ∨ nNow - info.nTime.toNat > 30 * 24 * 60 * 60 then true
  -- tried several times and never a success
  else if info.nLastSuccess = 0 ∧ info.nAttempts ≥ 3 then true
  -- successive failures in the last week
  else if nNow - info.nLastSuccess > 7 * 24 * 60 * 60 ∧ info.nAttempts ≥ 10 then true
  else false

end Addresses

/-- A table of buckets, by bucket and position; `-1` is an empty slot. -/
abbrev Table := Nat × Nat → Int

structure CAddrMan where
  nIdCount : Int
  mapInfo : OrderedStore Int CAddrInfo
  mapAddr : CNetAddr → Option Int
  vRandom : List Int
  nTried : Int
  vvTried : Table
  nNew : Int
  vvNew : Table
  nKey : Uint256

namespace CAddrMan

def empty (nKey : Uint256) : CAddrMan :=
  { nIdCount := 0
    mapInfo := OrderedStore.empty
    mapAddr := fun _ => none
    vRandom := []
    nTried := 0
    vvTried := fun _ => -1
    nNew := 0
    vvNew := fun _ => -1
    nKey := nKey }

def modify (man : CAddrMan) (nId : Int) (change : CAddrInfo → CAddrInfo) : Option CAddrMan :=
  (man.mapInfo.read nId).map fun info =>
    { man with mapInfo := man.mapInfo.write nId (change info) }

end CAddrMan

def newSlots : List (Nat × Nat) := (List.range newBucketCount).product (List.range bucketSize)

def triedSlots : List (Nat × Nat) := (List.range triedBucketCount).product (List.range bucketSize)

def randomInt (draw nMax : Nat) : Nat := draw % nMax

def find (man : CAddrMan) (addr : CNetAddr) : Option (Int × CAddrInfo) :=
  (man.mapAddr addr).bind fun nId => (man.mapInfo.read nId).map fun info => (nId, info)

/-- The id and the state; the largest `int` has no successor. -/
def create (man : CAddrMan) (addr : CAddress) (addrSource : CNetAddr) : Option (Int × CAddrMan) :=
  let nId := man.nIdCount
  if nId + 1 < 2 ^ 31 then
    some (nId,
      { man with
        nIdCount := nId + 1
        mapInfo := man.mapInfo.write nId
          { newInfo addr addrSource with nRandomPos := man.vRandom.length }
        mapAddr := Function.update man.mapAddr addr.ip (some nId)
        vRandom := man.vRandom ++ [nId] })
  else none

/-- The positions are `unsigned int`s; a negative number is above every size. -/
def swapRandom (man : CAddrMan) (nRndPos1 nRndPos2 : Int) : Option CAddrMan :=
  if nRndPos1 = nRndPos2 then some man
  else if nRndPos1 < 0 ∨ nRndPos2 < 0 then none
  else
    (man.vRandom[nRndPos1.toNat]?).bind fun nId1 =>
      (man.vRandom[nRndPos2.toNat]?).bind fun nId2 =>
        (man.modify nId1 fun info => { info with nRandomPos := nRndPos2 }).bind fun man =>
          (man.modify nId2 fun info => { info with nRandomPos := nRndPos1 }).map fun man =>
            { man with
              vRandom := (man.vRandom.set nRndPos1.toNat nId2).set nRndPos2.toNat nId1 }

def delete (man : CAddrMan) (nId : Int) : Option CAddrMan :=
  (man.mapInfo.read nId).bind fun info =>
    if info.fInTried ∨ info.nRefCount ≠ 0 then none
    else
      (swapRandom man info.nRandomPos ((man.vRandom.length : Int) - 1)).map fun man =>
        { man with
          vRandom := man.vRandom.dropLast
          mapAddr := Function.update man.mapAddr info.ip none
          mapInfo := man.mapInfo.erase nId
          nNew := man.nNew - 1 }

/-- Deletes the reference in a slot, and the entry with its last reference. -/
def clearNew (man : CAddrMan) (slot : Nat × Nat) : Option CAddrMan :=
  let nIdDelete := man.vvNew slot
  if nIdDelete = -1 then some man
  else
    (man.mapInfo.read nIdDelete).bind fun infoDelete =>
      if infoDelete.nRefCount ≤ 0 then none
      else
        let nRefCount := infoDelete.nRefCount - 1
        let cleared :=
          { man with
            mapInfo := man.mapInfo.write nIdDelete { infoDelete with nRefCount := nRefCount }
            vvNew := Function.update man.vvNew slot (-1) }
        if nRefCount = 0 then delete cleared nIdDelete else some cleared

def clearReferences (net : Network) (nId : Int) : List Nat → CAddrMan → Option CAddrMan
  | [], man => some man
  | bucket :: rest, man =>
    (man.mapInfo.read nId).bind fun info =>
      let slot := newSlot net man.nKey info.toCService bucket
      if man.vvNew slot = nId then
        clearReferences net nId rest
          { man with
            mapInfo := man.mapInfo.write nId { info with nRefCount := info.nRefCount - 1 }
            vvNew := Function.update man.vvNew slot (-1) }
      else clearReferences net nId rest man

def evict (net : Network) (man : CAddrMan) (slot : Nat × Nat) : Option CAddrMan :=
  let nIdEvict := man.vvTried slot
  (man.mapInfo.read nIdEvict).bind fun infoOld =>
    let removed :=
      { man with
        mapInfo := man.mapInfo.write nIdEvict { infoOld with fInTried := false }
        vvTried := Function.update man.vvTried slot (-1)
        nTried := man.nTried - 1 }
    -- find which new bucket it belongs to
    let uSlot := newSlot net man.nKey infoOld.toCService
      (getNewBucket net man.nKey infoOld.toCService infoOld.source)
    (clearNew removed uSlot).bind fun man =>
      if man.vvNew uSlot ≠ -1 then none
      else
        (man.modify nIdEvict fun info => { info with nRefCount := 1 }).map fun man =>
          { man with
            vvNew := Function.update man.vvNew uSlot nIdEvict
            nNew := man.nNew + 1 }

def makeTried (net : Network) (man : CAddrMan) (nId : Int) : Option CAddrMan :=
  (clearReferences net nId (List.range newBucketCount) man).bind fun man =>
    (man.mapInfo.read nId).bind fun info =>
      if info.nRefCount ≠ 0 then none
      else
        let man := { man with nNew := man.nNew - 1 }
        let kSlot := triedSlot net man.nKey info.toCService
        -- first make space to add it
        let spaced := if man.vvTried kSlot ≠ -1 then evict net man kSlot else some man
        spaced.bind fun man =>
          if man.vvTried kSlot ≠ -1 then none
          else
            (man.modify nId fun info => { info with fInTried := true }).map fun man =>
              { man with
                vvTried := Function.update man.vvTried kSlot nId
                nTried := man.nTried + 1 }

def good (net : Network) (man : CAddrMan) (addr : CService) (nTime : Int) (draw : Nat) :
    Option CAddrMan :=
  match find man addr.ip with
  -- if not found, bail out
  | none => some man
  | some (nId, info) =>
    if info.toCService ≠ addr then some man
    else
      let updated :=
        { man with
          mapInfo := man.mapInfo.write nId
            { info with
              nLastSuccess := nTime
              nLastTry := nTime
              nAttempts := 0 } }
      if info.fInTried then some updated
      else
        -- find a bucket it is in now
        let nRnd := randomInt draw newBucketCount
        let buckets := (List.range newBucketCount).map fun n => (n + nRnd) % newBucketCount
        let inBucket := buckets.any fun nB => man.vvNew (newSlot net man.nKey info.toCService nB) = nId
        if inBucket then makeTried net updated nId else some updated

/-- What `Add_` does with the entry it found, and whether it returns at once. -/
def addSeen (info : CAddrInfo) (addr : CAddress) (nTimePenalty nNow : Int) (draw : Nat) :
    CAddrInfo × Bool :=
  let addrTime : Int := addr.nTime.toNat
  let nUpdateInterval : Int := if nNow - addrTime < 24 * 60 * 60 then 60 * 60 else 24 * 60 * 60
  let nTime :=
    if addr.nTime ≠ 0 ∧ (info.nTime = 0 ∨
        (info.nTime.toNat : Int) < addrTime - nUpdateInterval - nTimePenalty) then
      UInt32.ofInt (max 0 (addrTime - nTimePenalty))
    else info.nTime
  let seen := { info with nTime := nTime, nServices := info.nServices ||| addr.nServices }
  (seen,
    -- no new information is present
    (addr.nTime = 0 ∨ nTime ≠ 0 ∧ addr.nTime ≤ nTime) ∨ info.fInTried ∨
      info.nRefCount = newBucketsPerAddress ∨
      -- stochastic test
      info.nRefCount > 0 ∧ randomInt draw (2 ^ info.nRefCount.toNat) ≠ 0)

/-- The end of `Add_`: a further reference to an entry, or its removal. -/
def addReference (net : Network) (man : CAddrMan) (nId : Int) (source : CNetAddr) (nNow : Int) :
    Option CAddrMan :=
  (man.mapInfo.read nId).bind fun info =>
    let slot := newSlot net man.nKey info.toCService
      (getNewBucket net man.nKey info.toCService source)
    if man.vvNew slot = nId then some man
    else
      let fInsert :=
        if man.vvNew slot = -1 then some true
        else
          (man.mapInfo.read (man.vvNew slot)).map fun infoExisting =>
            isTerrible infoExisting nNow || infoExisting.nRefCount > 1 && info.nRefCount = 0
      fInsert.bind fun fInsert =>
        if fInsert then
          (clearNew man slot).bind fun man =>
            (man.modify nId fun info => { info with nRefCount := info.nRefCount + 1 }).map
              fun man => { man with vvNew := Function.update man.vvNew slot nId }
        else if info.nRefCount = 0 then delete man nId
        else some man

def add (net : Network) (man : CAddrMan) (addr : CAddress) (source : CNetAddr)
    (nTimePenalty nNow : Int) (draw : Nat) : Option CAddrMan :=
  if net.isRoutable addr.ip = false then some man
  else
    match find man addr.ip with
    | some (nId, info) =>
      let (seen, done) := addSeen info addr nTimePenalty nNow draw
      let man := { man with mapInfo := man.mapInfo.write nId seen }
      if done then some man else addReference net man nId source nNow
    | none =>
      (create man addr source).bind fun (nId, man) =>
        (man.modify nId fun info =>
          { info with
            nTime := UInt32.ofInt (max 0 ((info.nTime.toNat : Int) - nTimePenalty)) }).bind
          fun man => addReference net { man with nNew := man.nNew + 1 } nId source nNow

/-- `Attempt_` and `Connected_` change the entry of a service. -/
def changeService (man : CAddrMan) (addr : CService) (change : CAddrInfo → CAddrInfo) : CAddrMan :=
  match find man addr.ip with
  | none => man
  | some (nId, info) =>
    if info.toCService ≠ addr then man
    else { man with mapInfo := man.mapInfo.write nId (change info) }

def attempt (man : CAddrMan) (addr : CService) (nTime : Int) : CAddrMan :=
  changeService man addr fun info =>
    { info with
      nLastTry := nTime
      nAttempts := info.nAttempts + 1 }

def connected (man : CAddrMan) (addr : CService) (nTime : Int) : CAddrMan :=
  changeService man addr fun info =>
    if nTime - info.nTime.toNat > 20 * 60 then { info with nTime := UInt32.ofInt nTime } else info

/-- The loop of `GetAddr_` from a position on, with the addresses it has gathered. -/
def gather (nNodes : Nat) (draws : Nat → Nat) (nNow : Nat → Int) :
    Nat → Nat → CAddrMan × List CAddress → Option (CAddrMan × List CAddress)
  | 0, _, state => some state
  | left + 1, n, (man, vAddr) =>
    if vAddr.length ≥ nNodes then some (man, vAddr)
    else
      let nRndPos := randomInt (draws n) (left + 1) + n
      (swapRandom man n nRndPos).bind fun man =>
        (man.vRandom[n]?).bind fun nId =>
          (man.mapInfo.read nId).bind fun ai =>
            gather nNodes draws nNow left (n + 1)
              (man, if isTerrible ai (nNow n) then vAddr else vAddr ++ [ai.toCAddress])

def getAddr (man : CAddrMan) (vAddr : List CAddress) (draws : Nat → Nat) (nNow : Nat → Int) :
    Option (CAddrMan × List CAddress) :=
  gather (min (23 * man.vRandom.length / 100) 2500) draws nNow man.vRandom.length 0 (man, vAddr)

/-- The draws of one round of `Select_`: a slot, the ways to the next one, and the chance compared.
-/
structure Round where
  slot : Nat × Nat
  ways : List (Nat × Nat)
  isChosen : Bool

/-- The inner loop of `Select_`; it has not come to its end with the ways that are drawn
where there is no slot. -/
def walk (table : Table) (buckets : Nat) : List (Nat × Nat) → Nat × Nat → Option (Nat × Nat)
  | [], slot => if table slot = -1 then none else some slot
  | way :: ways, slot =>
    if table slot = -1 then
      walk table buckets ways ((slot.1 + way.1) % buckets, (slot.2 + way.2) % bucketSize)
    else some slot

/-- The outer loop: the entry that is selected, or nothing yet. -/
def selectFrom (man : CAddrMan) (table : Table) (buckets : Nat) :
    List Round → Option (Option CAddrInfo)
  | [] => some none
  | round :: rounds =>
    match walk table buckets round.ways
      (randomInt round.slot.1 buckets, randomInt round.slot.2 bucketSize) with
    | none => some none
    | some slot =>
      (man.mapInfo.read (table slot)).bind fun info =>
        if round.isChosen then some (some info) else selectFrom man table buckets rounds

def select (man : CAddrMan) (newOnly : Bool) (coin : Nat) (rounds : List Round) :
    Option (Option CAddrInfo) :=
  if man.vRandom = [] ∨ newOnly ∧ man.nNew = 0 then some (some emptyInfo)
  else if ¬ newOnly ∧ man.nTried > 0 ∧ (man.nNew = 0 ∨ randomInt coin 2 = 0) then
    selectFrom man man.vvTried triedBucketCount rounds
  else selectFrom man man.vvNew newBucketCount rounds

section Check

def checkEntry (man : CAddrMan) (n : Int) (info : CAddrInfo) : Option Int :=
  if info.fInTried ∧ info.nLastSuccess = 0 then some (-1)
  else if info.fInTried ∧ info.nRefCount ≠ 0 then some (-2)
  else if ¬ info.fInTried ∧ (info.nRefCount < 0 ∨ info.nRefCount > newBucketsPerAddress) then
    some (-3)
  else if ¬ info.fInTried ∧ info.nRefCount = 0 then some (-4)
  -- `operator[]` reads 0 where there is no id
  else if (man.mapAddr info.ip).getD 0 ≠ n then some (-5)
  else if info.nRandomPos < 0 ∨ man.vRandom[info.nRandomPos.toNat]? ≠ some n then some (-14)
  else if info.nLastTry < 0 then some (-6)
  else if info.nLastSuccess < 0 then some (-8)
  else none

variable (net : Network) (man : CAddrMan)

/-- The loop over the tried table, with the ids that it has not met. -/
def checkTried : List (Nat × Nat) → List Int → Except Int (List Int)
  | [], setTried => .ok setTried
  | slot :: slots, setTried =>
    if man.vvTried slot = -1 then checkTried slots setTried
    else if man.vvTried slot ∉ setTried then .error (-11)
    else
      match man.mapInfo.read (man.vvTried slot) with
      | none => .error (-11)
      | some info =>
        if getTriedBucket net man.nKey info.toCService ≠ slot.1 then .error (-17)
        else if getBucketPosition net man.nKey info.toCService false slot.1 ≠ slot.2 then
          .error (-18)
        else checkTried slots (setTried.erase (man.vvTried slot))

/-- The loop over the new table, with the references that it has not met. -/
def checkNew : List (Nat × Nat) → OrderedStore Int Int → Except Int (OrderedStore Int Int)
  | [], mapNew => .ok mapNew
  | slot :: slots, mapNew =>
    if man.vvNew slot = -1 then checkNew slots mapNew
    else
      match mapNew.read (man.vvNew slot), man.mapInfo.read (man.vvNew slot) with
      | some left, some info =>
        if getBucketPosition net man.nKey info.toCService true slot.1 ≠ slot.2 then .error (-19)
        else if left - 1 = 0 then checkNew slots (mapNew.erase (man.vvNew slot))
        else checkNew slots (mapNew.write (man.vvNew slot) (left - 1))
      | _, _ => .error (-12)

def check : Int :=
  if (man.vRandom.length : Int) ≠ man.nTried + man.nNew then -7
  else
    match man.mapInfo.records.findSome? fun record => checkEntry man record.1 record.2 with
    | some code => code
    | none =>
      let setTried := (man.mapInfo.records.filter fun record => record.2.fInTried).map Prod.fst
      let mapNew := man.mapInfo.choose (fun record => !record.2.fInTried) CAddrInfo.nRefCount
      if (setTried.length : Int) ≠ man.nTried then -9
      else if (mapNew.records.length : Int) ≠ man.nNew then -10
      else
        match checkTried net man triedSlots setTried, checkNew net man newSlots mapNew with
        | .error code, _ => code
        | .ok _, .error code => code
        | .ok setTried, .ok mapNew =>
          if setTried ≠ [] then -13
          else if mapNew.records ≠ [] then -15
          else if man.nKey = 0 then -16
          else 0

end Check

/-- A call of the manager, with what it reads of the clock and what it draws. -/
inductive Event where
  | add (addr : CAddress) (source : CNetAddr) (nTimePenalty nNow : Int) (draw : Nat)
  | good (addr : CService) (nTime : Int) (draw : Nat)
  | attempt (addr : CService) (nTime : Int)
  | connected (addr : CService) (nTime : Int)
  | getAddr (vAddr : List CAddress) (draws : Nat → Nat) (nNow : Nat → Int)
  | select (newOnly : Bool) (coin : Nat) (rounds : List Round)

def step (net : Network) (man : CAddrMan) : Event → Option CAddrMan
  | .add addr source nTimePenalty nNow draw => add net man addr source nTimePenalty nNow draw
  | .good addr nTime draw => good net man addr nTime draw
  | .attempt addr nTime => some (attempt man addr nTime)
  | .connected addr nTime => some (connected man addr nTime)
  | .getAddr vAddr draws nNow => (getAddr man vAddr draws nNow).map Prod.fst
  | .select newOnly coin rounds => (select man newOnly coin rounds).map fun _ => man

end ZenonCore.AddrMan
