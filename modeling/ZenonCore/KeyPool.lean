import Mathlib.Data.Finset.Max
import Mathlib.Data.Int.Order.Basic
import Mathlib.Logic.Function.Basic
import ZenonCore.Library.Runs

/-!
# The key pool

The indices of the pool are in memory, the keys under them in the wallet database. A refill goes on
from the last index in memory, where the reserved indices are missing.
-/

namespace ZenonCore.KeyPool

open Library.Runs Function

/-- Keys are numbered as they are generated; `reserved` is what `CReserveKey` objects hold. -/
structure CWallet where
  setKeyPool : Finset Int
  pool : Int → Option Nat
  fLocked : Bool
  nKeys : Nat
  reserved : Nat → Option (Int × Nat)
  kept : List Nat

/-- `WritePool` of a generated key, and the index in memory. -/
def CWallet.writeKey (wallet : CWallet) (nIndex : Int) : CWallet :=
  { wallet with
    setKeyPool := insert nIndex wallet.setKeyPool
    pool := Function.update wallet.pool nIndex (some wallet.nKeys)
    nKeys := wallet.nKeys + 1 }

def CWallet.nEnd (wallet : CWallet) : Int :=
  if nonempty : wallet.setKeyPool.Nonempty then wallet.setKeyPool.max' nonempty + 1 else 1

/-- The loop of `TopUpKeyPool`, whose rounds add an index each. -/
def topUp : Nat → CWallet → CWallet
  | 0, wallet => wallet
  | rounds + 1, wallet => topUp rounds (wallet.writeKey wallet.nEnd)

/-- The loop of `NewKeyPool` from `nIndex` on. -/
def writeKeys : Nat → Int → CWallet → CWallet
  | 0, _, wallet => wallet
  | keys + 1, nIndex, wallet => writeKeys keys (nIndex + 1) (wallet.writeKey nIndex)

section Operations

variable (keypool : Int) (wallet : CWallet)

/-- The keys that are missing; `nTargetSize` is an `unsigned int`. -/
def missing (kpSize : UInt32) : Nat :=
  let nTargetSize := if 0 < kpSize then kpSize else UInt32.ofNat keypool.toNat
  (nTargetSize + 1).toNat - wallet.setKeyPool.card

def topUpKeyPool (kpSize : UInt32) : CWallet :=
  if wallet.fLocked then wallet else topUp (missing keypool wallet kpSize) wallet

def CWallet.erasePools : CWallet :=
  { wallet with
    setKeyPool := ∅
    pool := fun nIndex => if nIndex ∈ wallet.setKeyPool then none else wallet.pool nIndex }

def newKeyPool : CWallet :=
  if wallet.fLocked then wallet.erasePools else writeKeys keypool.toNat 1 wallet.erasePools

/-- `GetReservedKey` of an object that holds no key; no result where `ReserveKeyFromKeyPool`
throws. -/
def reserveKeyFromKeyPool (object : Nat) : Option CWallet :=
  let wallet := topUpKeyPool keypool wallet 0
  if nonempty : wallet.setKeyPool.Nonempty then
    let nIndex := wallet.setKeyPool.min' nonempty
    (wallet.pool nIndex).bind fun key =>
      if key < wallet.nKeys then some { wallet with
        setKeyPool := wallet.setKeyPool.erase nIndex
        reserved := Function.update wallet.reserved object (some (nIndex, key)) }
      else none
  else some wallet

def keepKey (object : Nat) : CWallet :=
  match wallet.reserved object with
  | none => wallet
  | some (nIndex, key) => { wallet with
      pool := Function.update wallet.pool nIndex none
      reserved := Function.update wallet.reserved object none
      kept := key :: wallet.kept }

def returnKey (object : Nat) : CWallet :=
  match wallet.reserved object with
  | none => wallet
  | some (nIndex, _) => { wallet with
      setKeyPool := insert nIndex wallet.setKeyPool
      reserved := Function.update wallet.reserved object none }

inductive Step
  | topUp (kpSize : UInt32)
  | newKeyPool
  | reserve (object : Nat)
  | keep (object : Nat)
  | giveBack (object : Nat)
  | setLocked (fLocked : Bool)

def step : Step → Option CWallet
  | .topUp kpSize => some (topUpKeyPool keypool wallet kpSize)
  | .newKeyPool => some (newKeyPool keypool wallet)
  | .reserve object =>
    match wallet.reserved object with
    | some _ => some wallet
    | none => reserveKeyFromKeyPool keypool wallet object
  | .keep object => some (keepKey wallet object)
  | .giveBack object => some (returnKey wallet object)
  | .setLocked fLocked => some { wallet with fLocked := fLocked }

/-- No reserved index is among some indices in turn. -/
def Spares (first : Int) (count : Nat) : Prop :=
  ∀ object nIndex key, wallet.reserved object = some (nIndex, key) →
    ¬ (first ≤ nIndex ∧ nIndex < first + count)

/-- A refill does not write a reserved index. -/
def RefillsBeside (event : Step) : Prop :=
  wallet.fLocked = false →
    (∀ kpSize, event = .topUp kpSize → Spares wallet wallet.nEnd (missing keypool wallet kpSize)) ∧
    (event = .newKeyPool → Spares wallet 1 keypool.toNat) ∧
    ∀ object, event = .reserve object → wallet.reserved object = none →
      Spares wallet wallet.nEnd (missing keypool wallet 0)

/-- The entries in memory can be read, the step does not throw, and a key that it hands out was not
kept before. -/
def Consistent (event : Step) : Prop :=
  (∀ nIndex ∈ wallet.setKeyPool, (wallet.pool nIndex).isSome) ∧
    ∃ next, step keypool wallet event = some next ∧
      ∀ object nIndex key, wallet.reserved object = none →
        next.reserved object = some (nIndex, key) → key ∉ wallet.kept

end Operations

/-- The entries of the pool are those in memory and the reserved ones, under different keys, of
which none was kept. -/
structure Sound (wallet : CWallet) : Prop where
  readable : ∀ nIndex ∈ wallet.setKeyPool, (wallet.pool nIndex).isSome
  held : ∀ object nIndex key, wallet.reserved object = some (nIndex, key) →
    nIndex ∉ wallet.setKeyPool ∧ wallet.pool nIndex = some key
  apart : ∀ object other nIndex key otherKey, wallet.reserved object = some (nIndex, key) →
    wallet.reserved other = some (nIndex, otherKey) → object = other
  distinct : ∀ nIndex other key, wallet.pool nIndex = some key → wallet.pool other = some key →
    nIndex = other
  known : ∀ nIndex key, wallet.pool nIndex = some key → key < wallet.nKeys
  kept : ∀ key ∈ wallet.kept, key < wallet.nKeys ∧ ∀ nIndex, wallet.pool nIndex ≠ some key

section Steps

variable (keypool : Int) (wallet : CWallet) (sound : Sound wallet)

theorem nEnd_writeKey : (wallet.writeKey wallet.nEnd).nEnd = wallet.nEnd + 1 := by
  have above (nIndex : Int) (member : nIndex ∈ wallet.setKeyPool) : nIndex ≤ wallet.nEnd := by
    rw [CWallet.nEnd, dif_pos ⟨nIndex, member⟩]
    exact (wallet.setKeyPool.le_max' nIndex member).trans (Int.le_add_one le_rfl)
  have nonempty : (wallet.writeKey wallet.nEnd).setKeyPool.Nonempty :=
    ⟨_, Finset.mem_insert_self ..⟩
  rw [CWallet.nEnd, dif_pos nonempty]
  congr 1
  refine le_antisymm (Finset.max'_le _ nonempty _ ?_) (Finset.le_max' _ _ (Finset.mem_insert_self ..))
  intro nIndex member
  obtain rfl | member := Finset.mem_insert.mp member
  · exact le_rfl
  · exact above nIndex member

include sound

theorem sound_writeKey (nIndex : Int) (spares : Spares wallet nIndex 1) :
    Sound (wallet.writeKey nIndex) := by
  have other (object : Nat) (index : Int) (key : Nat)
      (holds : wallet.reserved object = some (index, key)) : index ≠ nIndex := by
    have := spares object index key holds
    omega
  obtain ⟨readable, held, apart, distinct, known, kept⟩ := sound
  constructor <;> simp only [CWallet.writeKey, update_apply]
  · grind
  · grind
  · exact apart
  · grind
  · grind
  · intro key member
    have := kept key member
    grind

theorem sound_writeKeys (count : Nat) (first : Int) (spares : Spares wallet first count) :
    Sound (writeKeys count first wallet) := by
  induction count generalizing wallet first with
  | zero => exact sound
  | succ count ih =>
    refine ih _ (sound_writeKey wallet sound first ?_) (first + 1) ?_
    · exact fun object nIndex key holds => by have := spares object nIndex key holds; omega
    · exact fun object nIndex key holds => by have := spares object nIndex key holds; omega

theorem sound_topUp (rounds : Nat) (spares : Spares wallet wallet.nEnd rounds) :
    Sound (topUp rounds wallet) := by
  have same (rounds : Nat) (wallet : CWallet) :
      topUp rounds wallet = writeKeys rounds wallet.nEnd wallet := by
    induction rounds generalizing wallet with
    | zero => rfl
    | succ rounds ih => rw [topUp, writeKeys, ih, nEnd_writeKey]
  rw [same]
  exact sound_writeKeys wallet sound rounds _ spares

theorem sound_topUpKeyPool (kpSize : UInt32) (spares : wallet.fLocked = false →
      Spares wallet wallet.nEnd (missing keypool wallet kpSize)) :
    Sound (topUpKeyPool keypool wallet kpSize) := by
  unfold topUpKeyPool
  split
  · exact sound
  · exact sound_topUp wallet sound _ (spares (by simpa using ‹¬ wallet.fLocked = true›))

theorem sound_erasePools : Sound wallet.erasePools := by
  obtain ⟨readable, held, apart, distinct, known, kept⟩ := sound
  constructor <;> simp only [CWallet.erasePools]
  · simp
  · grind
  · exact apart
  · grind
  · grind
  · intro key member
    have := kept key member
    grind

theorem sound_newKeyPool (spares : wallet.fLocked = false → Spares wallet 1 keypool.toNat) :
    Sound (newKeyPool keypool wallet) := by
  have erased := sound_erasePools wallet sound
  unfold newKeyPool
  split
  · exact erased
  · exact sound_writeKeys _ erased _ _ (spares (by simpa using ‹¬ wallet.fLocked = true›))

theorem sound_keepKey (object : Nat) : Sound (keepKey wallet object) := by
  unfold keepKey
  split
  · exact sound
  · rename_i nIndex key holds
    obtain ⟨readable, held, apart, distinct, known, kept⟩ := sound
    obtain ⟨outside, filed⟩ := held object nIndex key holds
    constructor <;> simp only [update_apply]
    · grind
    · grind
    · grind
    · grind
    · grind
    · intro other member
      obtain rfl | member := List.mem_cons.mp member
      · exact ⟨known nIndex other filed, by grind⟩
      · have := kept other member
        grind

theorem sound_returnKey (object : Nat) : Sound (returnKey wallet object) := by
  unfold returnKey
  split
  · exact sound
  · rename_i nIndex key holds
    obtain ⟨readable, held, apart, distinct, known, kept⟩ := sound
    obtain ⟨outside, filed⟩ := held object nIndex key holds
    constructor <;> simp only [update_apply]
    · grind
    · grind
    · grind
    · exact distinct
    · exact known
    · exact kept

omit sound in
theorem topUpKeyPool_same (kpSize : UInt32) :
    (topUpKeyPool keypool wallet kpSize).reserved = wallet.reserved ∧
      (topUpKeyPool keypool wallet kpSize).kept = wallet.kept := by
  have loop (rounds : Nat) (wallet : CWallet) :
      (topUp rounds wallet).reserved = wallet.reserved ∧
        (topUp rounds wallet).kept = wallet.kept := by
    induction rounds generalizing wallet with
    | zero => exact ⟨rfl, rfl⟩
    | succ rounds ih => exact ih _
  unfold topUpKeyPool
  split
  · exact ⟨rfl, rfl⟩
  · exact loop _ wallet

/-- A reservation takes the key of an entry of the pool. -/
theorem reserve_spec (object : Nat) (spares : wallet.fLocked = false →
      Spares wallet wallet.nEnd (missing keypool wallet 0)) :
    ∃ next, reserveKeyFromKeyPool keypool wallet object = some next ∧ Sound next ∧
      ∀ other nIndex key, wallet.reserved other = none →
        next.reserved other = some (nIndex, key) → key ∉ wallet.kept := by
  have filled := sound_topUpKeyPool keypool wallet sound 0 spares
  obtain ⟨reserved, keeps⟩ := topUpKeyPool_same keypool wallet 0
  rw [← reserved, ← keeps, reserveKeyFromKeyPool]
  generalize topUpKeyPool keypool wallet 0 = full at filled
  dsimp only
  split
  · rename_i nonempty
    have first := full.setKeyPool.min'_mem nonempty
    generalize full.setKeyPool.min' nonempty = nIndex at first
    obtain ⟨readable, held, apart, distinct, known, kept⟩ := filled
    obtain ⟨key, filed⟩ := Option.isSome_iff_exists.mp (readable nIndex first)
    rw [filed, Option.bind_some, if_pos (known nIndex key filed)]
    refine ⟨_, rfl, ?_, ?_⟩
    · constructor <;> simp only [update_apply]
      · grind
      · grind
      · grind
      · exact distinct
      · exact known
      · exact kept
    · intro other index otherKey free holds member
      simp only [update_apply] at holds
      have := kept otherKey member
      grind
  · refine ⟨full, rfl, filled, ?_⟩
    intro other index key free holds
    rw [free] at holds
    cases holds

theorem step_spec (event : Step) (beside : RefillsBeside keypool wallet event) :
    ∃ next, step keypool wallet event = some next ∧ Sound next ∧
      ∀ object nIndex key, wallet.reserved object = none →
        next.reserved object = some (nIndex, key) → key ∉ wallet.kept := by
  have unchanged (next : CWallet) (after : Sound next)
      (fewer : ∀ object, next.reserved object = wallet.reserved object ∨
        next.reserved object = none) :
      ∃ last, some next = some last ∧ Sound last ∧
        ∀ object nIndex key, wallet.reserved object = none →
          last.reserved object = some (nIndex, key) → key ∉ wallet.kept :=
    ⟨next, rfl, after, fun object nIndex key free holds => by grind⟩
  cases event with
  | topUp kpSize =>
    refine unchanged _ (sound_topUpKeyPool keypool wallet sound kpSize
      fun unlocked => (beside unlocked).1 kpSize rfl) fun object => .inl ?_
    rw [(topUpKeyPool_same keypool wallet kpSize).1]
  | newKeyPool =>
    have same (count : Nat) (first : Int) (wallet : CWallet) :
        (writeKeys count first wallet).reserved = wallet.reserved := by
      induction count generalizing first wallet with
      | zero => rfl
      | succ count ih => exact ih _ _
    refine unchanged _ (sound_newKeyPool keypool wallet sound
      fun unlocked => (beside unlocked).2.1 rfl) fun object => .inl ?_
    unfold newKeyPool
    split
    · rfl
    · rw [same]
      rfl
  | reserve object =>
    rw [step]
    cases holds : wallet.reserved object with
    | some held => exact unchanged wallet sound fun _ => .inl rfl
    | none =>
      exact reserve_spec keypool wallet sound object fun unlocked =>
        (beside unlocked).2.2 object rfl holds
  | keep object =>
    refine unchanged _ (sound_keepKey wallet sound object) fun other => ?_
    unfold keepKey
    split
    · exact .inl rfl
    · simp only [update_apply]
      grind
  | giveBack object =>
    refine unchanged _ (sound_returnKey wallet sound object) fun other => ?_
    unfold returnKey
    split
    · exact .inl rfl
    · simp only [update_apply]
      grind
  | setLocked fLocked =>
    exact unchanged { wallet with fLocked := fLocked } ⟨sound.readable, sound.held, sound.apart,
      sound.distinct, sound.known, sound.kept⟩ fun _ => .inl rfl

end Steps

def emptyWallet (fLocked : Bool) : CWallet := ⟨∅, fun _ => none, fLocked, 0, fun _ => none, []⟩

end ZenonCore.KeyPool
