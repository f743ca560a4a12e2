import Mathlib.Data.List.AList
import Mathlib.Data.Set.Card
import ZenonCore.Library.SpendLog
import ZenonCore.Masternode

/-!
# The register of pillar collaterals

From `PLI_START` on `AcceptBlock` registers the outputs of fifteen thousand coins that a block
creates and deletes those it spends; until `PLI_END` it counts them.
-/

namespace ZenonCore.Pillars

open Primitives Chain Masternode Library.SpendLog List

def pliStart : Int := 365760

def pliEnd : Int := 385920

/-- The fields of `CMasternodeMan` for collaterals, each with the height and the position of its
transaction. -/
structure PillarRegister where
  maxPillarsAllowed : UInt32
  vPillarCollaterals : List (COutPoint × (Int × Nat))
  mPillarCollaterals : AList fun _ : COutPoint => Int × Nat
  lastBlockScanned : UInt32

namespace PillarRegister

def empty : PillarRegister where
  maxPillarsAllowed := 0
  vPillarCollaterals := []
  mPillarCollaterals := ∅
  lastBlockScanned := 0

def isPillar (register : PillarRegister) (utxo : COutPoint) : Bool :=
  (register.mPillarCollaterals.lookup utxo).isSome

def incrementMaxPillarsAllowed (register : PillarRegister) : PillarRegister :=
  { register with maxPillarsAllowed := register.maxPillarsAllowed + 1 }

def decrementMaxPillarsAllowed (register : PillarRegister) : PillarRegister :=
  { register with maxPillarsAllowed := register.maxPillarsAllowed - 1 }

def addPillarUtxo (register : PillarRegister) (first : COutPoint) (second : Int × Nat) :
    PillarRegister :=
  { register with
    vPillarCollaterals := register.vPillarCollaterals ++ [(first, second)]
    mPillarCollaterals :=
      if register.isPillar first then register.mPillarCollaterals
      else register.mPillarCollaterals.insert first second }

def deletePillarUtxo (register : PillarRegister) (outpoint : COutPoint) : PillarRegister :=
  { register with
    mPillarCollaterals := register.mPillarCollaterals.erase outpoint
    vPillarCollaterals :=
      register.vPillarCollaterals.eraseP fun pillar => pillar.1 == outpoint }

def updateLastScannedBlock (register : PillarRegister) (nHeight : Int) : PillarRegister :=
  { register with lastBlockScanned := UInt32.ofNat nHeight.toNat }

end PillarRegister

/-- The outputs of a transaction that can be collaterals of pillars. -/
def pillarOutPoints (tx : CTransaction) : List COutPoint :=
  tx.vout.zipIdx.filterMap fun (out, j) =>
    if out.nValue = pillarAmount then some (tx.outPoint j) else none

/-- A collateral that the `i`-th transaction of a block creates. -/
def registerOutput (nHeight : Int) (i : Nat) (register : PillarRegister) (outpoint : COutPoint) :
    PillarRegister :=
  (if nHeight ≤ pliEnd then register.incrementMaxPillarsAllowed else register).addPillarUtxo
    outpoint (nHeight, i)

def releaseInput (nHeight : Int) (register : PillarRegister) (txin : CTxIn) : PillarRegister :=
  if register.isPillar txin.prevout then
    (if nHeight ≤ pliEnd then register.decrementMaxPillarsAllowed else register).deletePillarUtxo
      txin.prevout
  else register

def registerTransaction (nHeight : Int) (register : PillarRegister) (numbered : CTransaction × Nat) :
    PillarRegister :=
  numbered.1.vin.foldl (releaseInput nHeight)
    ((pillarOutPoints numbered.1).foldl (registerOutput nHeight numbered.2) register)

/-- What `AcceptBlock` does at its end, of a block and its ancestors. -/
def registerBlock (register : PillarRegister) (block : CBlock) (pprev : CBlockIndex) :
    PillarRegister :=
  let nHeight := CBlockIndex.nHeight (block :: pprev)
  if pliStart ≤ nHeight then
    (block.vtx.zipIdx.foldl (registerTransaction nHeight) register).updateLastScannedBlock nHeight
  else register

/-- The node: the blocks it has accepted, each with its ancestors, and the
active one of them. -/
structure PillarState where
  register : PillarRegister
  accepted : List CBlockIndex
  chainActive : CBlockIndex

/-- A node that has reached the height of a chain, and no other block. -/
def PillarState.start (chain : CBlockIndex) : PillarState where
  register := .empty
  accepted := chain.tails
  chainActive := chain

/-- A block is accepted behind another one, and the active chain may become any chain. -/
inductive Event
  | acceptBlock (block : CBlock) (pprev chainActive : CBlockIndex)
  | activateChain (chainActive : CBlockIndex)

def step (state : PillarState) : Event → Option PillarState
  | .acceptBlock block pprev chainActive =>
    if pprev ∈ state.accepted ∧ block :: pprev ∉ state.accepted ∧
        chainActive ∈ (block :: pprev) :: state.accepted then
      some
        { register := registerBlock state.register block pprev
          accepted := (block :: pprev) :: state.accepted
          chainActive := chainActive }
    else none
  | .activateChain chainActive =>
    if chainActive ∈ state.accepted then some { state with chainActive := chainActive }
    else none

abbrev Entry := Int × CTransaction

def Creates (entry : Entry) (outpoint : COutPoint) : Prop :=
  outpoint ∈ pillarOutPoints entry.2

def Spends (entry : Entry) (outpoint : COutPoint) : Prop :=
  ∃ txin ∈ entry.2.vin, txin.prevout = outpoint

def entriesOf : CBlockIndex → List Entry
  | [] => []
  | block :: pprev =>
    entriesOf pprev ++
      if pliStart ≤ CBlockIndex.nHeight (block :: pprev) then
        block.vtx.map fun tx => (CBlockIndex.nHeight (block :: pprev), tx)
      else []

/-- The unspent outputs of the size of a pillar that a chain has created since
`PLI_START`. -/
def unspentPillars (chain : CBlockIndex) : Set COutPoint :=
  { outpoint | Live Creates Spends (entriesOf chain) outpoint }

/-- Those of them that were created up to `PLI_END`, less those that were spent
again by then. -/
def stagePillars (chain : CBlockIndex) : Set COutPoint :=
  { outpoint |
    Live Creates Spends ((entriesOf chain).filter fun entry => entry.1 ≤ pliEnd) outpoint }

noncomputable def pillarsAllowed (chain : CBlockIndex) : UInt32 :=
  UInt32.ofNat (stagePillars chain).ncard

/-- Map and list have the unspent collaterals of the chain, and the number allowed is the chain's.
-/
structure Follows (register : PillarRegister) (chain : CBlockIndex) : Prop where
  mapped : ∀ outpoint, register.isPillar outpoint = true ↔ outpoint ∈ unspentPillars chain
  listed : ∀ outpoint, outpoint ∈ register.vPillarCollaterals.map Prod.fst ↔
    outpoint ∈ unspentPillars chain
  once : (register.vPillarCollaterals.map Prod.fst).Nodup
  allowed : register.maxPillarsAllowed = pillarsAllowed chain

/-- While a block is registered: the collaterals, and the number allowed, which follows the list
until `PLI_END`. -/
structure Registers (nHeight : Int) (start : UInt32) (register : PillarRegister)
    (pillars : COutPoint → Prop) : Prop where
  mapped : ∀ outpoint, register.isPillar outpoint = true ↔ pillars outpoint
  listed : ∀ outpoint, outpoint ∈ register.vPillarCollaterals.map Prod.fst ↔ pillars outpoint
  once : (register.vPillarCollaterals.map Prod.fst).Nodup
  counted : register.maxPillarsAllowed =
    if nHeight ≤ pliEnd then UInt32.ofNat register.vPillarCollaterals.length else start

section Registering

variable (nHeight : Int) (start : UInt32)

theorem Registers.congr {register : PillarRegister} {pillars others : COutPoint → Prop}
    (registers : Registers nHeight start register pillars)
    (same : ∀ outpoint, pillars outpoint ↔ others outpoint) :
    Registers nHeight start register others where
  mapped := fun outpoint => (registers.mapped outpoint).trans (same outpoint)
  listed := fun outpoint => (registers.listed outpoint).trans (same outpoint)
  once := registers.once
  counted := registers.counted

variable (register : PillarRegister)

theorem isPillar_iff (outpoint : COutPoint) :
    register.isPillar outpoint = true ↔ outpoint ∈ register.mPillarCollaterals :=
  AList.lookup_isSome

theorem registerOutput_new (i : Nat) (register : PillarRegister) (outpoint : COutPoint)
    (absent : register.isPillar outpoint = false) :
    (registerOutput nHeight i register outpoint).vPillarCollaterals =
        register.vPillarCollaterals ++ [(outpoint, (nHeight, i))] ∧
      (registerOutput nHeight i register outpoint).mPillarCollaterals =
        register.mPillarCollaterals.insert outpoint (nHeight, i) ∧
      (registerOutput nHeight i register outpoint).maxPillarsAllowed =
        if nHeight ≤ pliEnd then register.maxPillarsAllowed + 1 else register.maxPillarsAllowed := by
  unfold registerOutput PillarRegister.addPillarUtxo
  have same : (if nHeight ≤ pliEnd then register.incrementMaxPillarsAllowed
      else register).isPillar outpoint = false := by
    split
    · exact absent
    · exact absent
  rw [same]
  split
  · exact ⟨rfl, rfl, rfl⟩
  · exact ⟨rfl, rfl, rfl⟩

theorem releaseInput_pillar (txin : CTxIn)
    (present : register.isPillar txin.prevout = true) :
    (releaseInput nHeight register txin).vPillarCollaterals =
        (register.vPillarCollaterals.eraseP fun pillar => pillar.1 == txin.prevout) ∧
      (releaseInput nHeight register txin).mPillarCollaterals =
        register.mPillarCollaterals.erase txin.prevout ∧
      (releaseInput nHeight register txin).maxPillarsAllowed =
        if nHeight ≤ pliEnd then register.maxPillarsAllowed - 1
        else register.maxPillarsAllowed := by
  unfold releaseInput PillarRegister.deletePillarUtxo
  rw [if_pos present]
  split
  · exact ⟨rfl, rfl, rfl⟩
  · exact ⟨rfl, rfl, rfl⟩

theorem releaseInput_other (txin : CTxIn)
    (absent : ¬register.isPillar txin.prevout = true) :
    releaseInput nHeight register txin = register :=
  if_neg absent

theorem registerOutput_registers (i : Nat) (register : PillarRegister) (outpoint : COutPoint)
    (pillars : COutPoint → Prop) (registers : Registers nHeight start register pillars)
    (new : ¬ pillars outpoint) :
    Registers nHeight start (registerOutput nHeight i register outpoint)
      (fun other => pillars other ∨ other = outpoint) := by
  have absent : register.isPillar outpoint = false := by
    rw [Bool.eq_false_iff]
    intro present
    exact new ((registers.mapped outpoint).mp present)
  obtain ⟨list, map, allowed⟩ := registerOutput_new nHeight i register outpoint absent
  constructor
  · intro other
    rw [isPillar_iff, map, AList.mem_insert, ← isPillar_iff, registers.mapped]
    exact or_comm
  · intro other
    rw [list, map_append, mem_append, registers.listed]
    simp
  · rw [list, map_append, map_cons, map_nil]
    apply nodup_append'.mpr
    refine ⟨registers.once, nodup_singleton _, ?_⟩
    intro other inList same
    rw [mem_singleton.mp same] at inList
    exact new ((registers.listed outpoint).mp inList)
  · rw [allowed, registers.counted, list, length_append, length_singleton]
    split
    · rw [UInt32.ofNat_add]
      rfl
    · rfl

theorem registerOutputs_registers (i : Nat) (outpoints : List COutPoint)
    (register : PillarRegister) (pillars : COutPoint → Prop)
    (registers : Registers nHeight start register pillars) (distinct : outpoints.Nodup)
    (new : ∀ outpoint ∈ outpoints, ¬ pillars outpoint) :
    Registers nHeight start (outpoints.foldl (registerOutput nHeight i) register)
      (fun other => pillars other ∨ other ∈ outpoints) := by
  induction outpoints generalizing register pillars with
  | nil => exact registers.congr nHeight start (by simp)
  | cons outpoint rest ih =>
    obtain ⟨notLater, distinctRest⟩ := nodup_cons.mp distinct
    have first := registerOutput_registers nHeight start i register outpoint pillars registers
      (new outpoint mem_cons_self)
    have later := ih _ _ first distinctRest (by
      intro other member either
      obtain old | same := either
      · exact new other (mem_cons_of_mem _ member) old
      · rw [same] at member
        exact notLater member)
    apply later.congr nHeight start
    intro other
    rw [mem_cons, or_assoc]

theorem keys_eraseP (list : List (COutPoint × (Int × Nat))) (outpoint : COutPoint) :
    (list.eraseP fun pillar => pillar.1 == outpoint).map Prod.fst =
      (list.map Prod.fst).erase outpoint := by
  rw [erase_eq_eraseP', eraseP_map]
  rfl

theorem releaseInput_registers (txin : CTxIn)
    (pillars : COutPoint → Prop) (registers : Registers nHeight start register pillars) :
    Registers nHeight start (releaseInput nHeight register txin)
      (fun other => pillars other ∧ other ≠ txin.prevout) := by
  by_cases present : register.isPillar txin.prevout = true
  · have isPillar := (registers.mapped txin.prevout).mp present
    have shorter : (register.vPillarCollaterals.eraseP
        fun pillar => pillar.1 == txin.prevout).length + 1 = register.vPillarCollaterals.length := by
      rcases mem_map.mp ((registers.listed txin.prevout).mpr isPillar) with
        ⟨entry, member, same⟩
      exact length_eraseP_add_one member (by simpa using same)
    obtain ⟨list, map, allowed⟩ := releaseInput_pillar nHeight register txin present
    constructor
    · intro other
      rw [isPillar_iff, map, AList.mem_erase, ← isPillar_iff, registers.mapped]
      exact and_comm
    · intro other
      rw [list, keys_eraseP, registers.once.mem_erase_iff, registers.listed]
      exact and_comm
    · rw [list, keys_eraseP]
      exact registers.once.erase _
    · rw [allowed, registers.counted, list]
      split
      · rw [← shorter, UInt32.ofNat_add]
        exact UInt32.add_sub_cancel _ _
      · rfl
  · rw [releaseInput_other nHeight register txin present]
    apply registers.congr nHeight start
    intro other
    constructor
    · intro isPillar
      refine ⟨isPillar, fun same => present ?_⟩
      rw [same] at isPillar
      exact (registers.mapped txin.prevout).mpr isPillar
    · exact And.left

theorem releaseInputs_registers (vin : List CTxIn) (register : PillarRegister)
    (pillars : COutPoint → Prop) (registers : Registers nHeight start register pillars) :
    Registers nHeight start (vin.foldl (releaseInput nHeight) register)
      (fun other => pillars other ∧ ¬ ∃ txin ∈ vin, txin.prevout = other) := by
  induction vin generalizing register pillars with
  | nil => exact registers.congr nHeight start (by simp)
  | cons txin rest ih =>
    apply (ih _ _ (releaseInput_registers nHeight start register txin pillars
      registers)).congr nHeight start
    intro other
    rw [exists_mem_cons_iff, not_or, and_assoc]
    apply and_congr_right
    intro _
    apply and_congr_left
    intro _
    exact ne_comm

/-- A transaction whose outputs are not in the register goes through it as it
goes through the log. -/
theorem registerTransaction_registers (tx : CTransaction) (i : Nat)
    (log : List Entry) (registers : Registers nHeight start register (Live Creates Spends log))
    (distinct : (pillarOutPoints tx).Nodup)
    (new : ∀ outpoint ∈ pillarOutPoints tx, ¬ Live Creates Spends log outpoint) :
    Registers nHeight start (registerTransaction nHeight register (tx, i))
      (Live Creates Spends (log ++ [(nHeight, tx)])) := by
  have created := registerOutputs_registers nHeight start i (pillarOutPoints tx) register _
    registers distinct new
  apply (releaseInputs_registers nHeight start tx.vin _ _ created).congr nHeight start
  intro outpoint
  rw [live_snoc]
  rfl

theorem registerTransactions_registers (vtx : List CTransaction) (i : Nat)
    (register : PillarRegister) (log : List Entry)
    (registers : Registers nHeight start register (Live Creates Spends log))
    (distinct : (vtx.flatMap pillarOutPoints).Nodup)
    (new : ∀ outpoint ∈ vtx.flatMap pillarOutPoints, ¬ Live Creates Spends log outpoint) :
    Registers nHeight start ((vtx.zipIdx i).foldl (registerTransaction nHeight) register)
      (Live Creates Spends (log ++ vtx.map fun tx => (nHeight, tx))) := by
  induction vtx generalizing i register log with
  | nil =>
    rw [map_nil, append_nil]
    exact registers
  | cons tx rest ih =>
    rw [flatMap_cons] at distinct new
    obtain ⟨distinctHere, distinctLater, apart⟩ := nodup_append'.mp distinct
    have first := registerTransaction_registers nHeight start register tx i log registers
      distinctHere fun outpoint member => new outpoint (mem_append_left _ member)
    have later := ih (i + 1) _ (log ++ [(nHeight, tx)]) first distinctLater (by
      intro outpoint member live
      obtain ⟨either, _⟩ := (live_snoc Creates Spends log (nHeight, tx) outpoint).mp live
      obtain old | made := either
      · exact new outpoint (mem_append_right _ member) old
      · exact apart made member)
    rw [map_cons, append_cons]
    exact later

end Registering

end ZenonCore.Pillars
