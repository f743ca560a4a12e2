import ZenonCore.Library.Lookups
import ZenonCore.Masternode
import ZenonCore.ProofOfWork
import ZenonCore.ValueGate

/-!
# Block hashes by height

`GetBlockHash` of `masternode.cpp` walks back from the tip and remembers its answers by
height; nothing forgets one when another chain becomes active.
-/

namespace ZenonCore.BlockHashCache

open Primitives Chain Masternode ProofOfWork Option
open ChainParams ValueGate Library.Lookups

structure HashState where
  chainActive : CBlockIndex
  mapCacheBlockHashes : Int → Option Uint256

/-- The walk back from the tip, with the number `n` of blocks it has passed. -/
def readBack (nBlocksAgo : Int) : Nat → CBlockIndex → Option Uint256
  | _, [] => none
  | n, block :: pprev =>
    if 0 < CBlockIndex.nHeight (block :: pprev) then
      if nBlocksAgo ≤ n then some (CBlockIndex.getBlockHash (block :: pprev))
      else readBack nBlocksAgo (n + 1) pprev
    else none

/-- The key of a height: 0 stands for the height of the tip. -/
def cacheKey (chainActive : CBlockIndex) (nBlockHeight : Int) : Int :=
  if nBlockHeight = 0 then chainActive.nHeight else nBlockHeight

def readBlockHash (chainActive : CBlockIndex) (key : Int) : Option Uint256 :=
  if chainActive.nHeight = 0 ∨ chainActive.nHeight + 1 < key then none
  else readBack (if 0 < key then chainActive.nHeight + 1 - key else 0) 0 chainActive

def getBlockHash (state : HashState) (nBlockHeight : Int) : Option Uint256 × HashState :=
  if state.chainActive = [] then (none, state)
  else
    let key := cacheKey state.chainActive nBlockHeight
    match state.mapCacheBlockHashes key with
    | some hash => (some hash, state)
    | none =>
      match readBlockHash state.chainActive key with
      | none => (none, state)
      | some hash =>
        (some hash,
          { state with mapCacheBlockHashes := Function.update state.mapCacheBlockHashes key (some hash) })

abbrev Decision := Query Int (Option Uint256)

def toInt (nBlockHeight : Int) : Int := nBlockHeight.bmod (2 ^ 32)

/-- `CMasternode::CalculateScore`; `hashOf` hashes what is written to a
`CHashWriter`. Without a tip there is no hash. -/
def calculateScore (hashOf : List Uint256 → Uint256) (vin : CTxIn) (nBlockHeight : Int) :
    Decision Uint256 :=
  .ask (toInt nBlockHeight) fun
    | none => .done 0
    | some hash =>
      let aux := vin.prevout.hash + BitVec.ofNat 256 vin.prevout.n.toNat
      let hash2 := hashOf [hash]
      let hash3 := hashOf [hash, aux]
      .done (if hash2 < hash3 then hash3 - hash2 else hash2 - hash3)

structure RankView where
  hashOf : List Uint256 → Uint256
  vMasternodes : List CMasternode
  isPaymentEnforced : Bool
  adjustedTime : Int
  check : CMasternode → CMasternode
  /-- `sort` by score from high to low; the order of equal scores is open. -/
  sortScores : List (UInt32 × CTxIn) → List (UInt32 × CTxIn)

def minimumAge : Int := 8000

/-- Whether the loop of `GetMasternodeRank` passes an entry over. -/
def RankView.skips (view : RankView) (minProtocol : Int) (fOnlyActive : Bool) (mn : CMasternode) :
    Bool :=
  decide (mn.protocolVersion < minProtocol) ||
    (view.isPaymentEnforced && decide (view.adjustedTime - mn.sigTime < minimumAge)) ||
    (fOnlyActive && !(view.check mn).isEnabled)

def masternodeScores (view : RankView) (nBlockHeight minProtocol : Int) (fOnlyActive : Bool) :
    List CMasternode → Decision (List (UInt32 × CTxIn))
  | [] => .done []
  | mn :: rest =>
    if view.skips minProtocol fOnlyActive mn then
      masternodeScores view nBlockHeight minProtocol fOnlyActive rest
    else
      (calculateScore view.hashOf mn.vin nBlockHeight).bind fun n =>
        (masternodeScores view nBlockHeight minProtocol fOnlyActive rest).bind fun scores =>
          .done ((getCompact n, mn.vin) :: scores)

def getMasternodeRank (view : RankView) (vin : CTxIn) (nBlockHeight minProtocol : Int)
    (fOnlyActive : Bool) : Decision Int :=
  .ask (toInt nBlockHeight) fun
    | none => .done (-1)
    | some _ =>
      (masternodeScores view nBlockHeight minProtocol fOnlyActive view.vMasternodes).bind
        fun vecMasternodeScores =>
          match (view.sortScores vecMasternodeScores).findIdx? fun score =>
            score.2.prevout == vin.prevout with
          | none => .done (-1)
          | some position => .done (position + 1)

inductive Event
  | activateChain (chainActive : CBlockIndex)
  | lookUp (nBlockHeight : Int)

def step (state : HashState) : Event → HashState
  | .activateChain chainActive => { state with chainActive := chainActive }
  | .lookUp nBlockHeight => (getBlockHash state nBlockHeight).2

def started : HashState where
  chainActive := []
  mapCacheBlockHashes := fun _ => none

/-- The block that is meant by a height: the one below it, for 0 the one below the tip, for a
negative height the tip. -/
def blockAt (chainActive : CBlockIndex) (nBlockHeight : Int) : Option Uint256 :=
  let key := cacheKey chainActive nBlockHeight
  let position := if 0 < key then key - 1 else chainActive.nHeight
  if 0 < position ∧ position ≤ chainActive.nHeight then
    some (CBlockIndex.getBlockHash (chainActive.atHeight position))
  else none

/-- The chain that was active when a key was first looked up with an answer. -/
def firstAnswered (key : Int) : CBlockIndex → List Event → Option CBlockIndex
  | _, [] => none
  | _, .activateChain chainActive :: rest => firstAnswered key chainActive rest
  | chain, .lookUp nBlockHeight :: rest =>
    if cacheKey chain nBlockHeight = key ∧ (blockAt chain nBlockHeight).isSome then some chain
    else firstAnswered key chain rest

/-- If the height has been answered before, the chain of that time means the
same block by it as the active one. -/
def AnsweredAlike (history : List Event) (chainActive : CBlockIndex) (nBlockHeight : Int) : Prop :=
  chainActive = [] ∨ ∀ first,
    firstAnswered (cacheKey chainActive nBlockHeight) [] history = some first →
      blockAt first (cacheKey chainActive nBlockHeight) = blockAt chainActive nBlockHeight

/-- An answer for the height is of the active chain, and so is whatever is
computed from such answers. -/
structure ReorgSafe (state : HashState) (nBlockHeight : Int) : Prop where
  lookup : ∀ hash, (getBlockHash state nBlockHeight).1 = some hash →
    blockAt state.chainActive nBlockHeight = some hash
  score : ∀ hashOf vin height, toInt height = nBlockHeight →
    ((calculateScore hashOf vin height).run getBlockHash state).1 =
      (calculateScore hashOf vin height).eval (blockAt state.chainActive)
  rank : ∀ view vin height minProtocol fOnlyActive, toInt height = nBlockHeight →
    ((getMasternodeRank view vin height minProtocol fOnlyActive).run getBlockHash state).1 =
      (getMasternodeRank view vin height minProtocol fOnlyActive).eval (blockAt state.chainActive)
  decision : ∀ (α : Type) (decision : Decision α), decision.AsksOnly (fun key => key = nBlockHeight) →
    (decision.run getBlockHash state).1 = decision.eval (blockAt state.chainActive)

section Reading

/-- The walk passes as many blocks as it is told to, if it does not come to the
first block of the chain. -/
theorem readBack_eq (nBlocksAgo : Int) (n left : Nat) (chain : CBlockIndex)
    (distance : nBlocksAgo = n + left) :
    readBack nBlocksAgo n chain =
      if 0 < CBlockIndex.nHeight chain - left then
        some (CBlockIndex.getBlockHash (chain.drop left))
      else none := by
  induction chain generalizing n left with
  | nil =>
    rw [if_neg (by simp [CBlockIndex.nHeight])]
    rfl
  | cons block pprev ih =>
    unfold readBack
    by_cases above : 0 < CBlockIndex.nHeight (block :: pprev)
    · rw [if_pos above]
      cases left with
      | zero =>
        rw [if_pos (by omega), if_pos (by omega), List.drop_zero]
      | succ left =>
        rw [if_neg (by omega), ih (n + 1) left (by omega), List.drop_succ_cons,
          CBlockIndex.nHeight_cons]
        congr 2
        omega
    · rw [if_neg above, if_neg (by omega)]

variable (chain : CBlockIndex)

theorem atHeight_drop (back : Nat)
    (inside : 0 < CBlockIndex.nHeight chain - back) :
    CBlockIndex.atHeight chain (CBlockIndex.nHeight chain - back) = chain.drop back := by
  unfold CBlockIndex.nHeight at inside ⊢
  have position : chain.length - 1 - ((chain.length : Int) - 1 - back).toNat = back := by omega
  unfold CBlockIndex.atHeight
  rw [if_pos (by omega), position]

theorem readBlockHash_eq (nBlockHeight : Int) (present : chain ≠ []) :
    readBlockHash chain (cacheKey chain nBlockHeight) = blockAt chain nBlockHeight := by
  have height : 0 ≤ CBlockIndex.nHeight chain := by
    have positive := List.length_pos_iff.mpr present
    unfold CBlockIndex.nHeight
    omega
  unfold readBlockHash blockAt
  dsimp only
  generalize cacheKey chain nBlockHeight = key
  split
  · rename_i outside
    rw [if_neg]
    split <;> omega
  · rename_i inside
    by_cases counted : 0 < key
    · rw [if_pos counted, if_pos counted]
      rw [readBack_eq _ 0 (CBlockIndex.nHeight chain + 1 - key).toNat chain (by omega)]
      have position : key - 1 =
          CBlockIndex.nHeight chain - (CBlockIndex.nHeight chain + 1 - key).toNat := by omega
      by_cases above : 0 < key - 1
      · rw [if_pos (by omega), if_pos ⟨above, by omega⟩, position, atHeight_drop _ _ (by omega)]
      · rw [if_neg (by omega), if_neg (by omega)]
    · rw [if_neg counted, if_neg counted, readBack_eq 0 0 0 chain rfl]
      by_cases above : 0 < CBlockIndex.nHeight chain
      · have tip := atHeight_drop chain 0 (by omega)
        rw [Nat.cast_zero, Int.sub_zero] at tip
        rw [if_pos (by omega), if_pos ⟨above, le_refl _⟩, tip]
      · rw [if_neg (by omega), if_neg (by omega)]

theorem blockAt_nil (nBlockHeight : Int) : blockAt [] nBlockHeight = none := by
  unfold blockAt
  dsimp only
  rw [if_neg]
  have height : CBlockIndex.nHeight [] = -1 := rfl
  split <;> omega

theorem blockAt_cacheKey (nBlockHeight : Int) :
    blockAt chain (cacheKey chain nBlockHeight) = blockAt chain nBlockHeight := by
  have twice : cacheKey chain (cacheKey chain nBlockHeight) = cacheKey chain nBlockHeight := by
    unfold cacheKey
    split_ifs with zero same
    · exact same.symm ▸ rfl
    · rfl
    · rfl
  unfold blockAt
  rw [twice]

variable (state : HashState) (nBlockHeight : Int)

theorem getBlockHash_fst (present : state.chainActive ≠ []) :
    (getBlockHash state nBlockHeight).1 =
      (state.mapCacheBlockHashes (cacheKey state.chainActive nBlockHeight)).or
        (blockAt state.chainActive nBlockHeight) := by
  unfold getBlockHash
  rw [if_neg present]
  dsimp only
  split
  · rename_i hash cached
    rw [cached]
    rfl
  · rename_i cached
    rw [cached, none_or, ← readBlockHash_eq _ _ present]
    split
    · rename_i missing
      exact missing.symm
    · rename_i hash read
      exact read.symm

theorem getBlockHash_chain :
    (getBlockHash state nBlockHeight).2.chainActive = state.chainActive := by
  unfold getBlockHash
  dsimp only
  split
  · rfl
  · split
    · rfl
    · split <;> rfl

theorem getBlockHash_cache (state : HashState) (nBlockHeight key : Int) :
    (getBlockHash state nBlockHeight).2.mapCacheBlockHashes key =
      if key = cacheKey state.chainActive nBlockHeight then
        (state.mapCacheBlockHashes key).or (blockAt state.chainActive nBlockHeight)
      else state.mapCacheBlockHashes key := by
  unfold getBlockHash
  dsimp only
  split
  · rename_i absent
    rw [absent, blockAt_nil, or_none, ite_self]
  · rename_i present
    split
    · rename_i hash cached
      split
      · rename_i same
        rw [same, cached]
        rfl
      · rfl
    · rename_i cached
      rw [← readBlockHash_eq _ _ present]
      split
      · rename_i missing
        rw [missing, or_none, ite_self]
      · rename_i hash read
        by_cases same : key = cacheKey state.chainActive nBlockHeight
        · rw [if_pos same, same, cached, read]
          exact Function.update_self _ _ _
        · rw [if_neg same]
          exact Function.update_of_ne same _ _

end Reading

theorem cache_of_history (history : List Event) (state : HashState) (key : Int) :
    (history.foldl step state).mapCacheBlockHashes key =
      (state.mapCacheBlockHashes key).or
        ((firstAnswered key state.chainActive history).bind fun first => blockAt first key) := by
  induction history generalizing state with
  | nil => exact (or_none).symm
  | cons event rest ih =>
    rw [List.foldl_cons, ih]
    cases event with
    | activateChain chainActive => rfl
    | lookUp nBlockHeight =>
      rw [step, getBlockHash_cache, getBlockHash_chain, firstAnswered]
      by_cases same : key = cacheKey state.chainActive nBlockHeight
      · rw [if_pos same]
        cases found : blockAt state.chainActive nBlockHeight with
        | none => rw [or_none, if_neg (by simp)]
        | some hash =>
          have atKey : blockAt state.chainActive key = some hash := by
            rw [same, blockAt_cacheKey, found]
          rw [if_pos ⟨same.symm, rfl⟩, Option.bind_some, atKey, Option.or_assoc]
          rfl
      · rw [if_neg same, if_neg fun both => same both.1.symm]

theorem firstAnswered_isSome (key : Int) (chain first : CBlockIndex) (history : List Event)
    (found : firstAnswered key chain history = some first) : (blockAt first key).isSome := by
  induction history generalizing chain with
  | nil => cases found
  | cons event rest ih =>
    cases event with
    | activateChain chainActive => exact ih _ found
    | lookUp nBlockHeight =>
      rw [firstAnswered] at found
      split at found
      · rename_i answered
        cases found
        rw [← answered.1, blockAt_cacheKey]
        exact answered.2
      · exact ih _ found

theorem getBlockHash_of_history (history : List Event) (nBlockHeight : Int)
    (present : (history.foldl step started).chainActive ≠ []) :
    (getBlockHash (history.foldl step started) nBlockHeight).1 =
      ((firstAnswered (cacheKey (history.foldl step started).chainActive nBlockHeight) [] history).bind
        fun first =>
          blockAt first (cacheKey (history.foldl step started).chainActive nBlockHeight)).or
        (blockAt (history.foldl step started).chainActive nBlockHeight) := by
  rw [getBlockHash_fst _ _ present, cache_of_history]
  rfl

theorem calculateScore_asksOnly (hashOf : List Uint256 → Uint256) (vin : CTxIn)
    (nBlockHeight : Int) :
    (calculateScore hashOf vin nBlockHeight).AsksOnly fun key => key = toInt nBlockHeight := by
  refine ⟨rfl, ?_⟩
  intro answer
  cases answer with
  | none => trivial
  | some hash => trivial

theorem masternodeScores_asksOnly (view : RankView) (nBlockHeight minProtocol : Int)
    (fOnlyActive : Bool) (vMasternodes : List CMasternode) :
    (masternodeScores view nBlockHeight minProtocol fOnlyActive vMasternodes).AsksOnly
      fun key => key = toInt nBlockHeight := by
  induction vMasternodes with
  | nil => trivial
  | cons mn rest ih =>
    unfold masternodeScores
    split
    · exact ih
    · apply Query.asksOnly_bind
      · exact calculateScore_asksOnly _ _ _
      · intro n
        exact Query.asksOnly_bind _ _ _ ih fun _ => trivial

theorem getMasternodeRank_asksOnly (view : RankView) (vin : CTxIn)
    (nBlockHeight minProtocol : Int) (fOnlyActive : Bool) :
    (getMasternodeRank view vin nBlockHeight minProtocol fOnlyActive).AsksOnly
      fun key => key = toInt nBlockHeight := by
  refine ⟨rfl, ?_⟩
  intro answer
  cases answer with
  | none => trivial
  | some hash =>
    apply Query.asksOnly_bind
    · exact masternodeScores_asksOnly _ _ _ _ _
    · intro scores
      split <;> trivial

/-- A node that answers for a height as its chain does goes on doing so. -/
theorem run_eq_chain {α : Type} (state : HashState) (nBlockHeight : Int) (decision : Decision α)
    (right : (getBlockHash state nBlockHeight).1 = blockAt state.chainActive nBlockHeight)
    (asks : decision.AsksOnly fun key => key = nBlockHeight) :
    (decision.run getBlockHash state).1 = decision.eval (blockAt state.chainActive) := by
  apply Query.run_eq_eval getBlockHash (blockAt state.chainActive) (fun key => key = nBlockHeight)
    (fun other => other.chainActive = state.chainActive ∧
      (getBlockHash other nBlockHeight).1 = blockAt state.chainActive nBlockHeight)
  · intro other key answers same
    rw [same]
    exact answers.2
  · intro other key answers same
    have chain := getBlockHash_chain other key
    refine ⟨chain.trans answers.1, ?_⟩
    rw [same] at chain ⊢
    by_cases present : other.chainActive = []
    · unfold getBlockHash
      rw [if_pos present, if_pos present]
      rw [← answers.1, present, blockAt_nil]
    · have before := getBlockHash_fst other nBlockHeight present
      rw [getBlockHash_fst _ _ (by rw [chain]; exact present), chain, getBlockHash_cache, if_pos rfl,
        ← before, answers.2, answers.1, Option.or_self]
  · exact ⟨rfl, right⟩
  · exact asks

/-- The answers for a height are of the active chain if and only if the chain that was active when
it was first answered means the same block by it. -/
theorem reorg_safe_iff (history : List Event) (nBlockHeight : Int) :
    ReorgSafe (history.foldl step started) nBlockHeight ↔
      AnsweredAlike history (history.foldl step started).chainActive nBlockHeight := by
  constructor
  · intro safe
    by_cases present : (history.foldl step started).chainActive = []
    · exact Or.inl present
    · right
      intro first found
      obtain ⟨hash, meant⟩ := isSome_iff_exists.mp (firstAnswered_isSome _ _ _ _ found)
      have answer := getBlockHash_of_history history nBlockHeight present
      rw [found, bind_some, meant, some_or] at answer
      rw [meant, safe.lookup hash answer]
  · intro alike
    have right : (getBlockHash (history.foldl step started) nBlockHeight).1 =
        blockAt (history.foldl step started).chainActive nBlockHeight := by
      by_cases present : (history.foldl step started).chainActive = []
      · rw [present, blockAt_nil, getBlockHash, if_pos present]
      · obtain empty | same := alike
        · exact absurd empty present
        · rw [getBlockHash_of_history history nBlockHeight present]
          cases found : firstAnswered
              (cacheKey (history.foldl step started).chainActive nBlockHeight) [] history with
          | none => rfl
          | some first => rw [Option.bind_some, same first found, Option.or_self]
    constructor
    · intro hash answer
      rw [← right, answer]
    · intro hashOf vin height same
      apply run_eq_chain _ nBlockHeight _ right
      rw [← same]
      exact calculateScore_asksOnly hashOf vin height
    · intro view vin height minProtocol fOnlyActive same
      apply run_eq_chain _ nBlockHeight _ right
      rw [← same]
      exact getMasternodeRank_asksOnly view vin height minProtocol fOnlyActive
    · intro α decision asks
      exact run_eq_chain _ nBlockHeight decision right asks

def replacedChain : CBlockIndex :=
  [exampleBlock 202 201 1600000120 [], exampleBlock 201 mainParams.hashGenesisBlock 1600000060 [],
    genesisBlock]

def replacingChain : CBlockIndex :=
  [exampleBlock 212 211 1600000121 [], exampleBlock 211 mainParams.hashGenesisBlock 1600000061 [],
    genesisBlock]

/-- The hash of a block that has left the active chain is given for its height. -/
theorem replaced_hash_is_given :
    ¬ ∀ (history : List Event) (nBlockHeight : Int),
      ReorgSafe (history.foldl step started) nBlockHeight := by
  intro safe
  have lookup := (safe
    [.activateChain replacedChain, .lookUp 2, .activateChain replacingChain] 2).lookup 201 (by
      decide +kernel)
  exact absurd lookup (by decide +kernel)

end ZenonCore.BlockHashCache
