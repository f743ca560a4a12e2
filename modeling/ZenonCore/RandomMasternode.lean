import ZenonCore.Budget
import ZenonCore.CollateralOwnership

/-!
# A random masternode

`FindRandomNotInVec` lowers its draw before comparing it, so that zero and one stop at the
same entry, and subtracts the excluded inputs as an unsigned number.
-/

namespace ZenonCore.RandomMasternode

open Primitives Chainstate Masternode List
open Budget (exampleMasternode)
open CollateralOwnership (syncedNode)
open ValueGate (mainnetServices)

/-- `GetRand`, by the last number of the random source that is below its range. -/
def getRand (nMax nRand : UInt64) : UInt64 := if nMax = 0 then 0 else nRand % nMax

/-- `GetRandInt`: an `int` becomes a `uint64_t` and comes back. -/
def getRandInt (nMax : Int) (nRand : UInt64) : Int :=
  Int.bmod (getRand (UInt64.ofNat (nMax % 2 ^ 64).toNat) nRand).toNat (2 ^ 32)

/-- The loop over the list from the `i`-th entry on, and the position of the entry
that is returned. -/
def walk (skips : CMasternode → Bool) : Nat → Int → List CMasternode → Option Nat
  | _, _, [] => none
  | i, rand, mn :: rest =>
    if skips mn then walk skips (i + 1) rand rest
    else if rand - 1 < 1 then some i
    else walk skips (i + 1) (rand - 1) rest

structure RandomCall where
  services : Services
  env : Environment
  vMasternodes : List CMasternode
  vecToExclude : List CTxIn
  protocolVersion : Int

namespace RandomCall

variable (call : RandomCall)

def minProtocol : Int :=
  if call.protocolVersion = -1 then call.env.getMinMasternodePaymentsProto
  else call.protocolVersion

def checked : List CMasternode :=
  call.vMasternodes.map fun mn => mn.check call.services call.env (.list mn.vin) false

def isCounted (mn : CMasternode) : Bool :=
  !(decide (mn.protocolVersion < call.minProtocol) || !mn.isEnabled)

def nCountEnabled : Nat := call.checked.countP call.isCounted

def isExcluded (mn : CMasternode) : Bool :=
  call.vecToExclude.any fun usedVin => mn.vin.prevout == usedVin.prevout

def skips (mn : CMasternode) : Bool := !call.isCounted mn || call.isExcluded mn

def range : Nat := (((call.nCountEnabled : Int) - call.vecToExclude.length) % 2 ^ 64).toNat

def nMax : Int := Int.bmod call.range (2 ^ 32)

/-- `FindRandomNotInVec`, by what comes from the random source. -/
def findRandomNotInVec (nRand : UInt64) : Option Nat :=
  if call.range < 1 then none
  else walk call.skips 0 (getRandInt call.nMax nRand) call.checked

/-- An enabled masternode of the protocol is at this place, and is not excluded. -/
def EligibleAt (i : Nat) : Prop :=
  ∃ mn, call.checked[i]? = some mn ∧ call.isCounted mn = true ∧ call.isExcluded mn = false

def Drawn (rand : Int) : Prop := ∃ nRand, getRandInt call.nMax nRand = rand

/-- Every draw returns an eligible masternode, each for one number, and the subtraction does not go
below zero. -/
structure CoversEveryone : Prop where
  notWrapped : call.vecToExclude.length ≤ call.nCountEnabled
  returns : ∀ nRand, ∃ i, call.findRandomNotInVec nRand = some i ∧ call.EligibleAt i
  once : ∀ i, call.EligibleAt i →
    ∃! rand, call.Drawn rand ∧
      ∀ nRand, getRandInt call.nMax nRand = rand → call.findRandomNotInVec nRand = some i

/-- The excluded inputs are fewer than the enabled masternodes, by so many that only zero can be
drawn. -/
structure OneDraw : Prop where
  notWrapped : call.vecToExclude.length ≤ call.nCountEnabled
  positive : 1 ≤ call.range
  single : call.nMax = 0 ∨ call.nMax = 1

end RandomCall

section Walking

def places (skips : CMasternode → Bool) (i : Nat) (list : List CMasternode) : List Nat :=
  (list.zipIdx i).filterMap fun numbered => if skips numbered.1 then none else some numbered.2

variable (skips : CMasternode → Bool) (list : List CMasternode) (i : Nat)

/-- The walk stops at the first of these places for a number up to one, and one
place later for each number more. -/
theorem walk_places (rand : Int) :
    walk skips i rand list = (places skips i list)[(rand - 1).toNat]? := by
  induction list generalizing i rand with
  | nil => rfl
  | cons mn rest ih =>
    unfold walk places
    rw [zipIdx_cons, filterMap_cons]
    cases skips mn with
    | true => exact ih (i + 1) rand
    | false =>
      dsimp only
      rw [if_neg Bool.false_ne_true, if_neg Bool.false_ne_true]
      by_cases stops : rand - 1 < 1
      · have zero : (rand - 1).toNat = 0 := by omega
        rw [if_pos stops, zero]
        rfl
      · have later : (rand - 1).toNat = (rand - 1 - 1).toNat + 1 := by omega
        rw [if_neg stops, ih (i + 1) (rand - 1), later]
        rfl

theorem mem_places :
    i ∈ places skips 0 list ↔ ∃ mn, list[i]? = some mn ∧ skips mn = false := by
  unfold places
  rw [mem_filterMap]
  constructor
  · intro member
    obtain ⟨⟨mn, j⟩, inList, isPlace⟩ := member
    dsimp only at isPlace
    cases skipped : skips mn with
    | true =>
      rw [skipped] at isPlace
      cases isPlace
    | false =>
      rw [skipped] at isPlace
      cases isPlace
      exact ⟨mn, mem_zipIdx_iff_getElem?.mp inList, skipped⟩
  · intro found
    obtain ⟨mn, here, taken⟩ := found
    refine ⟨(mn, i), mem_zipIdx_iff_getElem?.mpr here, ?_⟩
    dsimp only
    rw [taken]
    rfl

end Walking

section Draws

theorem getRandInt_zero (nMax : Int) : getRandInt nMax 0 = 0 := by
  unfold getRandInt getRand
  split <;> simp

theorem getRandInt_single (nMax : Int) (single : nMax = 0 ∨ nMax = 1) (nRand : UInt64) :
    getRandInt nMax nRand = 0 := by
  unfold getRandInt getRand
  obtain zero | one := single
  · have bound : UInt64.ofNat ((0 : Int) % 2 ^ 64).toNat = 0 := by decide
    rw [zero, bound, if_pos rfl]
    decide
  · have bound : UInt64.ofNat ((1 : Int) % 2 ^ 64).toNat = 1 := by decide
    rw [one, bound, if_neg (by decide), UInt64.mod_one]
    decide

theorem getRandInt_one (nMax : Int) (range : -2 ^ 31 ≤ nMax ∧ nMax < 2 ^ 31)
    (several : ¬ (nMax = 0 ∨ nMax = 1)) : getRandInt nMax 1 = 1 := by
  unfold getRandInt getRand
  have fits : (nMax % 2 ^ 64).toNat < 2 ^ 64 := by omega
  have number : 1 < (nMax % 2 ^ 64).toNat := by omega
  have bound : (UInt64.ofNat (nMax % 2 ^ 64).toNat).toNat = (nMax % 2 ^ 64).toNat :=
    UInt64.toNat_ofNat_of_lt' fits
  have nonzero : UInt64.ofNat (nMax % 2 ^ 64).toNat ≠ 0 := by
    intro zero
    rw [← bound, zero] at number
    exact absurd number (by decide)
  have one : (1 : UInt64).toNat = 1 := rfl
  rw [if_neg nonzero, UInt64.toNat_mod, bound, one, Nat.mod_eq_of_lt number]
  decide

variable (call : RandomCall)

theorem nMax_range : -2 ^ 31 ≤ call.nMax ∧ call.nMax < 2 ^ 31 := by
  unfold RandomCall.nMax
  have above := Int.le_bmod (x := call.range) (m := 2 ^ 32) (by decide)
  have below := Int.bmod_lt (x := call.range) (m := 2 ^ 32) (by decide)
  omega

theorem eligibleAt_iff (i : Nat) : call.EligibleAt i ↔ i ∈ places call.skips 0 call.checked := by
  rw [mem_places]
  unfold RandomCall.EligibleAt RandomCall.skips
  simp

theorem findRandomNotInVec_places (positive : 1 ≤ call.range) (nRand : UInt64) :
    call.findRandomNotInVec nRand =
      (places call.skips 0 call.checked)[(getRandInt call.nMax nRand - 1).toNat]? := by
  unfold RandomCall.findRandomNotInVec
  rw [if_neg (by omega), walk_places]

theorem single_of_covers (positive : 1 ≤ call.range) (covers : call.CoversEveryone) :
    call.nMax = 0 ∨ call.nMax = 1 := by
  by_contra several
  have found := findRandomNotInVec_places call positive
  have one := getRandInt_one call.nMax (nMax_range call) several
  have zero := getRandInt_zero call.nMax
  obtain ⟨first, isFirst, eligible⟩ := covers.returns 0
  rw [found, zero] at isFirst
  obtain ⟨rand, _, unique⟩ := covers.once first eligible
  have isZero := unique 0 ⟨⟨0, zero⟩, fun nRand drawn => by
    rw [found, drawn]
    exact isFirst⟩
  have isOne := unique 1 ⟨⟨1, one⟩, fun nRand drawn => by
    rw [found, drawn]
    exact isFirst⟩
  omega

theorem oneDraw_of_covers (covers : call.CoversEveryone) : call.OneDraw := by
  have positive : 1 ≤ call.range := by
    by_contra none
    obtain ⟨i, isFound, _⟩ := covers.returns 0
    unfold RandomCall.findRandomNotInVec at isFound
    rw [if_pos (by omega)] at isFound
    cases isFound
  exact ⟨covers.notWrapped, positive, single_of_covers call positive covers⟩

theorem oneDraw_stops (one : call.OneDraw) (only : Nat) (eligible : call.EligibleAt only)
    (unique : ∀ i, call.EligibleAt i → i = only) (nRand : UInt64) :
    call.findRandomNotInVec nRand = some only := by
  rw [findRandomNotInVec_places call one.positive, getRandInt_single call.nMax one.single nRand]
  cases first : (places call.skips 0 call.checked)[((0 : Int) - 1).toNat]? with
  | none =>
    have empty : places call.skips 0 call.checked = [] := by
      rw [getElem?_eq_none_iff] at first
      exact length_eq_zero_iff.mp (Nat.le_zero.mp first)
    have member := (eligibleAt_iff call only).mp eligible
    rw [empty] at member
    cases member
  | some i =>
    have isEligible := (eligibleAt_iff call i).mpr (mem_of_getElem? first)
    rw [unique i isEligible]

end Draws

/-- The draws cover everyone if and only if zero is the only number that can be
drawn and there is only one to cover. -/
theorem draws_cover_everyone_iff (call : RandomCall) :
    call.CoversEveryone ↔ call.OneDraw ∧ ∃! i, call.EligibleAt i := by
  constructor
  · intro covers
    have one := oneDraw_of_covers call covers
    have found := findRandomNotInVec_places call one.positive
    obtain ⟨first, isFirst, eligible⟩ := covers.returns 0
    refine ⟨one, first, eligible, ?_⟩
    intro other alsoEligible
    obtain ⟨rand, ⟨⟨nRand, drawn⟩, stops⟩, _⟩ := covers.once other alsoEligible
    have atOther := stops nRand drawn
    rw [found, getRandInt_single call.nMax one.single nRand] at atOther
    rw [found, getRandInt_zero] at isFirst
    rw [atOther] at isFirst
    exact Option.some.inj isFirst
  · intro condition
    obtain ⟨one, only, eligible, unique⟩ := condition
    have stops := oneDraw_stops call one only eligible unique
    refine ⟨one.notWrapped, fun nRand => ⟨only, stops nRand, eligible⟩, ?_⟩
    intro i isEligible
    rw [unique i isEligible]
    refine ⟨0, ⟨⟨0, getRandInt_zero call.nMax⟩, fun nRand _ => stops nRand⟩, ?_⟩
    intro rand also
    obtain ⟨nRand, drawn⟩ := also.1
    rw [← drawn]
    exact getRandInt_single call.nMax one.single nRand

def enabledNodes (count : Nat) : List CMasternode :=
  (List.range count).map fun i =>
    { exampleMasternode (BitVec.ofNat 256 (30 + i)) [1] with
      protocolVersion := 70928
      lastTimeChecked := syncedNode.here.getTime }

def callFor (vMasternodes : List CMasternode) : RandomCall where
  services := mainnetServices
  env := syncedNode
  vMasternodes := vMasternodes
  vecToExclude := []
  protocolVersion := -1

/-- Of three nodes none of the draws returns the last. -/
theorem last_is_never_drawn :
    ¬ ∀ call : RandomCall, (∃ i, call.EligibleAt i) → call.CoversEveryone := by
  intro covers
  have eligible : (callFor (enabledNodes 3)).EligibleAt 0 := by
    refine ⟨{ exampleMasternode 30 [1] with
      protocolVersion := 70928
      lastTimeChecked := syncedNode.here.getTime }, ?_, ?_, ?_⟩ <;> decide +kernel
  have max : (callFor (enabledNodes 3)).nMax = 3 := by decide +kernel
  have condition := (draws_cover_everyone_iff (callFor (enabledNodes 3))).mp
    (covers (callFor (enabledNodes 3)) ⟨0, eligible⟩)
  obtain zero | one := condition.1.single
  · rw [max] at zero
    exact absurd zero (by decide)
  · rw [max] at one
    exact absurd one (by decide)

end ZenonCore.RandomMasternode
