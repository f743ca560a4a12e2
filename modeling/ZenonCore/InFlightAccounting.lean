import Mathlib.Data.Finset.Card
import ZenonCore.Library.Runs
import ZenonCore.PeerState

/-!
# The blocks in flight

The map and the lists of the peers lead to one another. The counter of validated headers
follows unless a peer is finalised with such an entry.
-/

namespace ZenonCore.InFlightAccounting

open Library.LinkedList Library.Maps Library.Runs Option
open OrphanPool PeerState Primitives

def hashesInFlight (state : CNodeState) : List Uint256 :=
  state.vBlocksInFlight.values.map QueuedBlock.hash

/-- The blocks in flight whose entry has `fValidatedHeaders`. -/
def validatedInFlight (peers : PeerStates) : Finset Uint256 :=
  peers.mapBlocksInFlight.keys.toFinset.filter fun hash =>
    ((peers.mapBlocksInFlight.lookup hash).bind peers.listed).any QueuedBlock.fValidatedHeaders

structure Accounted (peers : PeerStates) : Prop where
  sameBlocks : ∀ hash, hash ∈ peers.mapBlocksInFlight ↔
    ∃ node state, peers.state node = some state ∧ hash ∈ hashesInFlight state
  onePeer : ∀ first second firstState secondState hash, peers.state first = some firstState →
    peers.state second = some secondState → hash ∈ hashesInFlight firstState →
    hash ∈ hashesInFlight secondState → first = second
  once : ∀ node state, peers.state node = some state → (hashesInFlight state).Nodup
  counted : ∀ node state, peers.state node = some state →
    state.nBlocksInFlight = state.vBlocksInFlight.length
  queued : peers.nQueuedValidatedHeaders = (validatedInFlight peers).card

/-- The places that the map leads to are those of the entries, by their hashes. -/
structure Wired (peers : PeerStates) : Prop where
  crossed : ∀ hash place, peers.mapBlocksInFlight.lookup hash = some place ↔
    ∃ block, peers.listed place = some block ∧ block.hash = hash
  counted : ∀ node state, peers.state node = some state →
    state.nBlocksInFlight = state.vBlocksInFlight.length

def Queued (peers : PeerStates) : Prop :=
  peers.nQueuedValidatedHeaders = (validatedInFlight peers).card

/-- A peer that is finalised has no entry with `fValidatedHeaders`. -/
def leavesNoValidated (peers : PeerStates) : PeerEvent → Bool
  | .finalizeNode nodeid =>
    (peers.state nodeid).all fun state =>
      state.vBlocksInFlight.values.all fun block => !block.fValidatedHeaders
  | _ => true

theorem mem_validatedInFlight (peers : PeerStates) (hash : Uint256) :
    hash ∈ validatedInFlight peers ↔ ∃ place block,
      peers.mapBlocksInFlight.lookup hash = some place ∧ peers.listed place = some block ∧
        block.fValidatedHeaders = true := by
  unfold validatedInFlight
  rw [Finset.mem_filter, List.mem_toFinset, ← AList.mem_keys, ← AList.lookup_isSome]
  cases peers.mapBlocksInFlight.lookup hash with
  | none => simp
  | some place =>
    rw [bind_some, any_eq_true]
    simp

section Lists

variable {peers : PeerStates}

theorem listed_iff (place : Place) (block : QueuedBlock) :
    peers.listed place = some block ↔ ∃ state, peers.state place.1 = some state ∧
      state.vBlocksInFlight.deref place.2 = some block :=
  bind_eq_some_iff

theorem mem_hashesInFlight (state : CNodeState) (hash : Uint256) :
    hash ∈ hashesInFlight state ↔ ∃ iterator block,
      state.vBlocksInFlight.deref iterator = some block ∧ block.hash = hash := by
  unfold hashesInFlight
  rw [List.mem_map]
  constructor
  · rintro ⟨block, there, named⟩
    obtain ⟨iterator, found⟩ := (StdList.mem_values _ _).mp there
    exact ⟨iterator, block, found, named⟩
  · rintro ⟨iterator, block, found, named⟩
    exact ⟨block, (StdList.mem_values _ _).mpr ⟨iterator, found⟩, named⟩

theorem Wired.leads_back (wired : Wired peers) (node : NodeId) (state : CNodeState)
    (known : peers.state node = some state) (iterator : Nat) (block : QueuedBlock)
    (found : state.vBlocksInFlight.deref iterator = some block) :
    peers.mapBlocksInFlight.lookup block.hash = some (node, iterator) := by
  apply (wired.crossed block.hash (node, iterator)).mpr
  exact ⟨block, (listed_iff (node, iterator) block).mpr ⟨state, known, found⟩, rfl⟩

theorem Wired.nodup (wired : Wired peers) (node : NodeId) (state : CNodeState)
    (known : peers.state node = some state) : (hashesInFlight state).Nodup := by
  have nodup : state.vBlocksInFlight.nodes.Nodup :=
    List.Nodup.of_map _ state.vBlocksInFlight.distinct
  unfold hashesInFlight StdList.values
  rw [List.map_map]
  apply List.Nodup.map_on _ nodup
  intro first firstIn second secondIn same
  have firstBack := wired.leads_back node state known first.1 first.2
    ((StdList.deref_iff _ _ _).mpr firstIn)
  have secondBack := wired.leads_back node state known second.1 second.2
    ((StdList.deref_iff _ _ _).mpr secondIn)
  rw [Function.comp_apply, Function.comp_apply] at same
  rw [same, secondBack] at firstBack
  have address : second.1 = first.1 := congrArg Prod.snd (some.inj firstBack)
  exact List.inj_on_of_nodup_map state.vBlocksInFlight.distinct firstIn secondIn address.symm

theorem Wired.accounted (wired : Wired peers) (queued : Queued peers) : Accounted peers where
  sameBlocks := by
    intro hash
    rw [← AList.lookup_isSome, isSome_iff_exists]
    constructor
    · rintro ⟨place, leads⟩
      obtain ⟨block, found, named⟩ := (wired.crossed hash place).mp leads
      obtain ⟨state, known, inList⟩ := (listed_iff place block).mp found
      exact ⟨place.1, state, known, (mem_hashesInFlight state hash).mpr ⟨_, block, inList, named⟩⟩
    · rintro ⟨node, state, known, there⟩
      obtain ⟨iterator, block, inList, named⟩ := (mem_hashesInFlight state hash).mp there
      refine ⟨(node, iterator), ?_⟩
      rw [← named]
      exact wired.leads_back node state known iterator block inList
  onePeer := by
    intro first second firstState secondState hash firstKnown secondKnown firstHas secondHas
    obtain ⟨left, leftBlock, inFirst, named⟩ := (mem_hashesInFlight firstState hash).mp firstHas
    rcases (mem_hashesInFlight secondState hash).mp secondHas with
      ⟨right, rightBlock, inSecond, alsoNamed⟩
    have firstBack := wired.leads_back first firstState firstKnown left leftBlock inFirst
    have secondBack := wired.leads_back second secondState secondKnown right rightBlock inSecond
    rw [named] at firstBack
    rw [alsoNamed, firstBack] at secondBack
    exact congrArg Prod.fst (some.inj secondBack)
  once := wired.nodup
  counted := wired.counted
  queued := queued

end Lists

/-! ## The entries that are dropped -/

/-- The second state has the entries of the first one but for those at some
places. -/
structure Dropped (before after : PeerStates) (dropped : Place → Prop) : Prop where
  listed : ∀ place block, after.listed place = some block ↔
    before.listed place = some block ∧ ¬ dropped place
  mapped : ∀ hash place, after.mapBlocksInFlight.lookup hash = some place ↔
    before.mapBlocksInFlight.lookup hash = some place ∧ ¬ dropped place

section Dropping

variable {before after : PeerStates} {dropped : Place → Prop}

theorem Dropped.crossed (drops : Dropped before after dropped) (wired : Wired before)
    (hash : Uint256) (place : Place) :
    after.mapBlocksInFlight.lookup hash = some place ↔
      ∃ block, after.listed place = some block ∧ block.hash = hash := by
  rw [drops.mapped, wired.crossed]
  constructor
  · rintro ⟨⟨block, found, named⟩, kept⟩
    exact ⟨block, (drops.listed place block).mpr ⟨found, kept⟩, named⟩
  · rintro ⟨block, found, named⟩
    have both := (drops.listed place block).mp found
    exact ⟨⟨block, both.1, named⟩, both.2⟩

theorem Dropped.mem_validated (drops : Dropped before after dropped) (hash : Uint256) :
    hash ∈ validatedInFlight after ↔ ∃ place block,
      before.mapBlocksInFlight.lookup hash = some place ∧ before.listed place = some block ∧
        block.fValidatedHeaders = true ∧ ¬ dropped place := by
  rw [mem_validatedInFlight]
  constructor
  · rintro ⟨place, block, leads, found, validated⟩
    exact ⟨place, block, ((drops.mapped hash place).mp leads).1,
      ((drops.listed place block).mp found).1, validated, ((drops.mapped hash place).mp leads).2⟩
  · rintro ⟨place, block, leads, found, validated, kept⟩
    exact ⟨place, block, (drops.mapped hash place).mpr ⟨leads, kept⟩,
      (drops.listed place block).mpr ⟨found, kept⟩, validated⟩

theorem Dropped.subset (drops : Dropped before after dropped) :
    validatedInFlight after ⊆ validatedInFlight before := by
  intro hash there
  obtain ⟨place, block, leads, found, validated, _⟩ := (drops.mem_validated hash).mp there
  exact (mem_validatedInFlight before hash).mpr ⟨place, block, leads, found, validated⟩

theorem Dropped.card_iff (drops : Dropped before after dropped) (wired : Wired before) :
    (validatedInFlight after).card = (validatedInFlight before).card ↔
      ∀ place block, before.listed place = some block → dropped place →
        block.fValidatedHeaders = false := by
  constructor
  · intro same place block found drop
    have all := Finset.eq_of_subset_of_card_le drops.subset (Nat.le_of_eq same.symm)
    by_contra validated
    rw [Bool.not_eq_false] at validated
    have leads := (wired.crossed block.hash place).mpr ⟨block, found, rfl⟩
    have counts : block.hash ∈ validatedInFlight before :=
      (mem_validatedInFlight before block.hash).mpr ⟨place, block, leads, found, validated⟩
    rw [← all] at counts
    obtain ⟨other, _, alsoLeads, _, _, kept⟩ := (drops.mem_validated block.hash).mp counts
    rw [leads] at alsoLeads
    rw [some.inj alsoLeads] at drop
    exact kept drop
  · intro none
    have all : validatedInFlight before ⊆ validatedInFlight after := by
      intro hash there
      rcases (mem_validatedInFlight before hash).mp there with
        ⟨place, block, leads, found, validated⟩
      refine (drops.mem_validated hash).mpr ⟨place, block, leads, found, validated, ?_⟩
      intro drop
      rw [none place block found drop] at validated
      cases validated
    rw [Finset.Subset.antisymm drops.subset all]

end Dropping

/-! ## The functions -/

variable (before after : PeerStates) (node : NodeId) (state : CNodeState)

theorem listed_insert (stored : after.mapNodeState = before.mapNodeState.insert node state) (place : Place) :
    after.listed place =
      if place.1 = node then state.vBlocksInFlight.deref place.2 else before.listed place := by
  unfold PeerStates.listed PeerStates.state
  rw [stored]
  by_cases same : place.1 = node
  · rw [if_pos same, same, AList.lookup_insert, bind_some]
  · rw [if_neg same, AList.lookup_insert_ne same]

theorem counted_insert (stored : after.mapNodeState = before.mapNodeState.insert node state)
    (counted : ∀ node state, before.state node = some state →
      state.nBlocksInFlight = state.vBlocksInFlight.length)
    (new : state.nBlocksInFlight = state.vBlocksInFlight.length) (other : NodeId)
    (found : CNodeState) (known : after.state other = some found) :
    found.nBlocksInFlight = found.vBlocksInFlight.length := by
  unfold PeerStates.state at known
  rw [stored] at known
  by_cases same : other = node
  · rw [same, AList.lookup_insert] at known
    rw [← some.inj known]
    exact new
  · rw [AList.lookup_insert_ne same] at known
    exact counted other found known

variable (peers : PeerStates) (nodeid : NodeId) (addrName addr : List UInt8)

theorem initializeNode_listed (place : Place) :
    (initializeNode peers nodeid addrName addr).listed place = peers.listed place := by
  unfold PeerStates.listed PeerStates.state initializeNode
  dsimp only
  rw [lookup_adjust, lookup_insertNew]
  by_cases same : place.1 = nodeid
  · rw [if_pos same, if_pos same]
    cases peers.mapNodeState.lookup place.1 with
    | none => rfl
    | some state => rfl
  · rw [if_neg same, if_neg same, or_none]

theorem initializeNode_wired (peers : PeerStates) (wired : Wired peers) (nodeid : NodeId)
    (addrName addr : List UInt8) : Wired (initializeNode peers nodeid addrName addr) where
  crossed := by
    intro hash place
    rw [initializeNode_listed]
    exact wired.crossed hash place
  counted := by
    intro node state known
    unfold PeerStates.state initializeNode at known
    dsimp only at known
    rw [lookup_adjust, lookup_insertNew] at known
    by_cases same : node = nodeid
    · rw [if_pos same, if_pos same] at known
      cases there : peers.mapNodeState.lookup node with
      | none =>
        rw [there] at known
        cases known
        rfl
      | some old =>
        rw [there] at known
        cases known
        exact wired.counted node old there
    · rw [if_neg same, if_neg same, or_none] at known
      exact wired.counted node state known

theorem initializeNode_queued :
    Queued (initializeNode peers nodeid addrName addr) ↔ Queued peers := by
  have same : validatedInFlight (initializeNode peers nodeid addrName addr) =
      validatedInFlight peers := by
    ext hash
    rw [mem_validatedInFlight, mem_validatedInFlight]
    simp only [initializeNode_listed]
    rfl
  unfold Queued
  rw [same]
  rfl

variable (peers next : PeerStates)

variable (nodeid : NodeId)

theorem finalizeNode_dropped (wired : Wired peers)
    (done : finalizeNode peers nodeid = some next) :
    Dropped peers next fun place => place.1 = nodeid := by
  unfold finalizeNode at done
  obtain ⟨state, known, made⟩ := map_eq_some_iff.mp done
  constructor
  · intro place block
    rw [← made]
    unfold PeerStates.listed PeerStates.state
    dsimp only
    by_cases same : place.1 = nodeid
    · rw [same, AList.lookup_erase]
      simp
    · rw [AList.lookup_erase_ne same]
      exact (and_iff_left same).symm
  · intro hash place
    rw [← made]
    dsimp only
    rw [lookup_eraseAll]
    have listedHere := mem_hashesInFlight state hash
    unfold hashesInFlight at listedHere
    constructor
    · intro leads
      split at leads
      · cases leads
      · rename_i absent
        refine ⟨leads, ?_⟩
        intro here
        obtain ⟨block, found, named⟩ := (wired.crossed hash place).mp leads
        obtain ⟨other, alsoKnown, inList⟩ := (listed_iff place block).mp found
        rw [here, known] at alsoKnown
        rw [← some.inj alsoKnown] at inList
        exact absent (listedHere.mpr ⟨place.2, block, inList, named⟩)
    · rintro ⟨leads, elsewhere⟩
      rw [if_neg]
      · exact leads
      · intro present
        obtain ⟨iterator, block, inList, named⟩ := listedHere.mp present
        have back := wired.leads_back nodeid state known iterator block inList
        rw [named, leads] at back
        exact elsewhere (congrArg Prod.fst (some.inj back))

theorem finalizeNode_wired (wired : Wired peers)
    (done : finalizeNode peers nodeid = some next) : Wired next where
  crossed := (finalizeNode_dropped peers next nodeid wired done).crossed wired
  counted := by
    intro node state known
    unfold finalizeNode at done
    obtain ⟨gone, _, made⟩ := map_eq_some_iff.mp done
    rw [← made] at known
    unfold PeerStates.state at known
    dsimp only at known
    by_cases same : node = nodeid
    · rw [same, AList.lookup_erase] at known
      cases known
    · rw [AList.lookup_erase_ne same] at known
      exact wired.counted node state known

theorem finalizeNode_queued (wired : Wired peers)
    (queued : Queued peers) (done : finalizeNode peers nodeid = some next) :
    Queued next ↔ leavesNoValidated peers (.finalizeNode nodeid) = true := by
  have drops := finalizeNode_dropped peers next nodeid wired done
  have counts := drops.card_iff wired
  unfold finalizeNode at done
  obtain ⟨state, known, made⟩ := map_eq_some_iff.mp done
  have kept : next.nQueuedValidatedHeaders = peers.nQueuedValidatedHeaders := by rw [← made]
  unfold Queued at queued ⊢
  rw [kept, queued, Nat.cast_inj, eq_comm, counts]
  unfold leavesNoValidated
  dsimp only
  rw [known, all_some, List.all_eq_true]
  constructor
  · intro none block there
    obtain ⟨iterator, found⟩ := (StdList.mem_values _ _).mp there
    have listed := (listed_iff (nodeid, iterator) block).mpr ⟨state, known, found⟩
    rw [none (nodeid, iterator) block listed rfl]
    rfl
  · intro none place block listed here
    obtain ⟨other, alsoKnown, found⟩ := (listed_iff place block).mp listed
    rw [here, known] at alsoKnown
    rw [← some.inj alsoKnown] at found
    have there := (StdList.mem_values _ _).mpr ⟨place.2, found⟩
    simpa using none block there

structure Received (before after : PeerStates) (hash : Uint256) (place : Place)
    (entry : QueuedBlock) : Prop where
  leads : before.mapBlocksInFlight.lookup hash = some place
  found : before.listed place = some entry
  named : entry.hash = hash
  unmapped : after.mapBlocksInFlight = before.mapBlocksInFlight.erase hash
  counter : after.nQueuedValidatedHeaders =
    before.nQueuedValidatedHeaders - entry.fValidatedHeaders.toInt
  drops : Dropped before after fun other => other = place
  counted : ∀ node state, after.state node = some state →
    state.nBlocksInFlight = state.vBlocksInFlight.length

theorem markBlockAsReceived_cases (hash : Uint256) (wired : Wired peers)
    (done : markBlockAsReceived peers hash = some next) :
    peers.mapBlocksInFlight.lookup hash = none ∧ next = peers ∨
      ∃ place entry, Received peers next hash place entry := by
  unfold markBlockAsReceived at done
  cases leads : peers.mapBlocksInFlight.lookup hash with
  | none =>
    rw [leads] at done
    cases done
    exact Or.inl ⟨rfl, rfl⟩
  | some place =>
    rw [leads] at done
    dsimp only at done
    obtain ⟨state, known, rest⟩ := bind_eq_some_iff.mp done
    obtain ⟨entry, inList, made⟩ := map_eq_some_iff.mp rest
    obtain ⟨block, alsoFound, named⟩ := (wired.crossed hash place).mp leads
    have found : peers.listed place = some entry :=
      (listed_iff place entry).mpr ⟨state, known, inList⟩
    rw [found] at alsoFound
    rw [← some.inj alsoFound] at named
    have stored : next.mapNodeState = peers.mapNodeState.insert place.1
        { state with
          vBlocksInFlight := state.vBlocksInFlight.erase place.2
          nBlocksInFlight := state.nBlocksInFlight - 1
          nStallingSince := 0 } := by rw [← made]
    have unmapped : next.mapBlocksInFlight = peers.mapBlocksInFlight.erase hash := by rw [← made]
    refine Or.inr ⟨place, entry, leads, found, named, unmapped, by rw [← made], ⟨?_, ?_⟩, ?_⟩
    · intro other block
      rw [listed_insert peers next place.1 _ stored]
      dsimp only
      by_cases here : other.1 = place.1
      · have apart : other.2 ≠ place.2 ↔ ¬ other = place :=
          not_congr ⟨fun same => Prod.ext here same, fun same => congrArg Prod.snd same⟩
        rw [if_pos here, StdList.deref_erase, apart, listed_iff, here, known]
        simp
      · have apart : ¬ other = place := fun same => here (congrArg Prod.fst same)
        rw [if_neg here]
        exact (and_iff_left apart).symm
    · intro other somewhere
      rw [unmapped]
      by_cases same : other = hash
      · rw [same, AList.lookup_erase, leads]
        constructor
        · intro nothing
          cases nothing
        · rintro ⟨there, apart⟩
          exact absurd (some.inj there).symm apart
      · rw [AList.lookup_erase_ne same]
        refine (and_iff_left_of_imp ?_).symm
        intro there here
        obtain ⟨block, alsoFound, alsoNamed⟩ := (wired.crossed other somewhere).mp there
        rw [here, found] at alsoFound
        rw [← some.inj alsoFound, named] at alsoNamed
        exact same alsoNamed.symm
    · apply counted_insert peers next place.1 _ stored wired.counted
      have shorter := StdList.length_erase state.vBlocksInFlight place.2 entry inList
      have before := wired.counted place.1 state known
      dsimp only
      omega

theorem Received.queued {before after : PeerStates} {hash : Uint256} {place : Place}
    {entry : QueuedBlock} (received : Received before after hash place entry)
    (wired : Wired before) (queued : Queued before) : Queued after := by
  have counts := received.drops.card_iff wired
  have mapped := received.drops.mem_validated
  unfold Queued at queued ⊢
  rw [received.counter, queued]
  cases validated : entry.fValidatedHeaders with
  | false =>
    rw [counts.mpr]
    · exact Int.sub_zero _
    · intro other block listed same
      rw [same, received.found] at listed
      rw [← some.inj listed]
      exact validated
  | true =>
    have erased : validatedInFlight after = (validatedInFlight before).erase hash := by
      ext other
      rw [mapped, Finset.mem_erase, mem_validatedInFlight]
      constructor
      · rintro ⟨somewhere, block, leads, listed, counts, apart⟩
        refine ⟨?_, somewhere, block, leads, listed, counts⟩
        intro same
        rw [same, received.leads] at leads
        exact apart (some.inj leads).symm
      · rintro ⟨different, somewhere, block, leads, listed, counts⟩
        refine ⟨somewhere, block, leads, listed, counts, ?_⟩
        intro same
        obtain ⟨_, found, named⟩ := (wired.crossed other somewhere).mp leads
        rw [same, received.found] at found
        rw [← some.inj found, received.named] at named
        exact different named.symm
    have there : hash ∈ validatedInFlight before :=
      (mem_validatedInFlight before hash).mpr
        ⟨place, entry, received.leads, received.found, validated⟩
    have positive := Finset.card_pos.mpr ⟨hash, there⟩
    have one : Bool.toInt true = 1 := rfl
    rw [erased, Finset.card_erase_of_mem there, one]
    omega

theorem markBlockAsReceived_spec (hash : Uint256) (wired : Wired peers)
    (done : markBlockAsReceived peers hash = some next) :
    Wired next ∧ next.mapBlocksInFlight.lookup hash = none ∧ (Queued peers → Queued next) := by
  rcases markBlockAsReceived_cases peers next hash wired done with
    ⟨absent, same⟩ | ⟨place, entry, received⟩
  · rw [same]
    exact ⟨wired, absent, fun queued => queued⟩
  · refine ⟨⟨received.drops.crossed wired, received.counted⟩, ?_, received.queued wired⟩
    rw [received.unmapped]
    exact AList.lookup_erase _ _

/-! ## The entries that are added -/

structure Added (before after : PeerStates) (place : Place) (entry : QueuedBlock) : Prop where
  absent : before.mapBlocksInFlight.lookup entry.hash = none
  listed : ∀ other block, after.listed other = some block ↔
    before.listed other = some block ∨ other = place ∧ block = entry
  mapped : after.mapBlocksInFlight = before.mapBlocksInFlight.insert entry.hash place
  counter : after.nQueuedValidatedHeaders =
    before.nQueuedValidatedHeaders + entry.fValidatedHeaders.toInt

section Adding

variable {before after : PeerStates} {place : Place} {entry : QueuedBlock}

theorem Added.lookup_other (added : Added before after place entry) (hash : Uint256)
    (different : hash ≠ entry.hash) :
    after.mapBlocksInFlight.lookup hash = before.mapBlocksInFlight.lookup hash := by
  rw [added.mapped, AList.lookup_insert_ne different]

theorem Added.lookup_new (added : Added before after place entry) :
    after.mapBlocksInFlight.lookup entry.hash = some place := by
  rw [added.mapped, AList.lookup_insert]

theorem Added.crossed (added : Added before after place entry) (wired : Wired before)
    (hash : Uint256) (somewhere : Place) :
    after.mapBlocksInFlight.lookup hash = some somewhere ↔
      ∃ block, after.listed somewhere = some block ∧ block.hash = hash := by
  by_cases same : hash = entry.hash
  · rw [same, added.lookup_new]
    constructor
    · intro here
      exact ⟨entry, (added.listed somewhere entry).mpr (Or.inr ⟨(some.inj here).symm, rfl⟩),
        rfl⟩
    · rintro ⟨block, listed, named⟩
      obtain old | ⟨here, _⟩ := (added.listed somewhere block).mp listed
      · have leads := (wired.crossed entry.hash somewhere).mpr ⟨block, old, named⟩
        rw [added.absent] at leads
        cases leads
      · rw [here]
  · rw [added.lookup_other hash same, wired.crossed]
    constructor
    · rintro ⟨block, listed, named⟩
      exact ⟨block, (added.listed somewhere block).mpr (Or.inl listed), named⟩
    · rintro ⟨block, listed, named⟩
      obtain old | ⟨_, new⟩ := (added.listed somewhere block).mp listed
      · exact ⟨block, old, named⟩
      · rw [new] at named
        exact absurd named.symm same

theorem Added.mem_validated (added : Added before after place entry) (wired : Wired before)
    (hash : Uint256) :
    hash ∈ validatedInFlight after ↔
      hash ∈ validatedInFlight before ∨ hash = entry.hash ∧ entry.fValidatedHeaders = true := by
  rw [mem_validatedInFlight, mem_validatedInFlight]
  by_cases same : hash = entry.hash
  · have new := (added.listed place entry).mpr (Or.inr ⟨rfl, rfl⟩)
    rw [same, added.lookup_new, added.absent]
    constructor
    · rintro ⟨somewhere, block, here, listed, validated⟩
      rw [← some.inj here, new] at listed
      rw [← some.inj listed] at validated
      exact Or.inr ⟨rfl, validated⟩
    · rintro (⟨_, _, nothing, _⟩ | ⟨_, validated⟩)
      · cases nothing
      · exact ⟨place, entry, rfl, new, validated⟩
  · rw [added.lookup_other hash same]
    constructor
    · rintro ⟨somewhere, block, leads, listed, validated⟩
      obtain ⟨old, oldListed, _⟩ := (wired.crossed hash somewhere).mp leads
      have still := (added.listed somewhere old).mpr (Or.inl oldListed)
      rw [listed] at still
      rw [← some.inj still] at oldListed
      exact Or.inl ⟨somewhere, block, leads, oldListed, validated⟩
    · rintro (⟨somewhere, block, leads, listed, validated⟩ | ⟨here, _⟩)
      · exact ⟨somewhere, block, leads, (added.listed somewhere block).mpr (Or.inl listed),
          validated⟩
      · exact absurd here same

theorem Added.queued (added : Added before after place entry) (wired : Wired before)
    (queued : Queued before) : Queued after := by
  have mapped := added.mem_validated wired
  unfold Queued at queued ⊢
  rw [added.counter, queued]
  cases validated : entry.fValidatedHeaders with
  | false =>
    have same : validatedInFlight after = validatedInFlight before := by
      ext hash
      rw [mapped, validated]
      simp
    rw [same]
    exact Int.add_zero _
  | true =>
    have inserted : validatedInFlight after = insert entry.hash (validatedInFlight before) := by
      ext hash
      rw [mapped, validated, Finset.mem_insert, or_comm]
      simp
    have new : entry.hash ∉ validatedInFlight before := by
      intro there
      obtain ⟨_, _, leads, _⟩ := (mem_validatedInFlight before entry.hash).mp there
      rw [added.absent] at leads
      cases leads
    have one : Bool.toInt true = 1 := rfl
    rw [inserted, Finset.card_insert_of_notMem new, one, Nat.cast_succ]

end Adding

theorem queueBlock_added (peers : PeerStates) (nodeid : NodeId) (state : CNodeState)
    (hash : Uint256) (pindex : Option Nat) (now : Int) (known : peers.state nodeid = some state)
    (absent : peers.mapBlocksInFlight.lookup hash = none) :
    Added peers (queueBlock peers nodeid state hash pindex now)
      (nodeid, state.vBlocksInFlight.nextAddress)
      { hash := hash
        pindex := pindex
        nTime := now
        nValidatedQueuedBefore := peers.nQueuedValidatedHeaders
        fValidatedHeaders := pindex.isSome } where
  absent := absent
  listed := by
    intro other block
    rw [listed_insert peers _ nodeid _ rfl]
    by_cases here : other.1 = nodeid
    · rw [if_pos here, StdList.deref_pushBack, listed_iff, here, known, Prod.ext_iff]
      simp [here]
    · rw [if_neg here, Prod.ext_iff]
      simp [here]
  mapped := rfl
  counter := rfl

theorem markBlockAsInFlight_spec (nodeid : NodeId) (hash : Uint256)
    (pindex : Option Nat) (now : Int) (wired : Wired peers)
    (done : markBlockAsInFlight peers nodeid hash pindex now = some next) :
    Wired next ∧ (Queued peers → Queued next) := by
  unfold markBlockAsInFlight at done
  obtain ⟨_, _, rest⟩ := bind_eq_some_iff.mp done
  obtain ⟨received, first, last⟩ := bind_eq_some_iff.mp rest
  obtain ⟨state, known, made⟩ := map_eq_some_iff.mp last
  obtain ⟨still, absent, counted⟩ := markBlockAsReceived_spec peers received hash wired first
  have added := queueBlock_added received nodeid state hash pindex now known absent
  rw [made] at added
  refine ⟨⟨added.crossed still, ?_⟩, fun queued => added.queued still (counted queued)⟩
  apply counted_insert received next nodeid _ (by rw [← made, queueBlock]) still.counted
  have before := still.counted nodeid state known
  dsimp only
  rw [StdList.length_pushBack, before, Nat.cast_succ]

/-! ## Runs -/

theorem wired_empty : Wired PeerStates.empty where
  crossed := by
    intro hash place
    constructor
    · intro leads
      cases leads
    · rintro ⟨block, listed, _⟩
      cases listed
  counted := by
    intro node state known
    cases known

theorem step_wired (event : PeerEvent) (wired : Wired peers)
    (taken : step peers event = some next) : Wired next := by
  cases event with
  | initializeNode nodeid addrName addr =>
    cases taken
    exact initializeNode_wired peers wired nodeid addrName addr
  | finalizeNode nodeid => exact finalizeNode_wired peers next nodeid wired taken
  | received hash => exact (markBlockAsReceived_spec peers next hash wired taken).1
  | inFlight nodeid hash pindex now =>
    exact (markBlockAsInFlight_spec peers next nodeid hash pindex now wired taken).1

/-- A step keeps the counter right exactly if it finalises no peer that has an
entry with `fValidatedHeaders`. -/
theorem step_queued (event : PeerEvent) (wired : Wired peers)
    (queued : Queued peers) (taken : step peers event = some next) :
    Queued next ↔ leavesNoValidated peers event = true := by
  cases event with
  | initializeNode nodeid addrName addr =>
    cases taken
    have kept := (initializeNode_queued peers nodeid addrName addr).mpr queued
    exact iff_of_true kept rfl
  | finalizeNode nodeid => exact finalizeNode_queued peers next nodeid wired queued taken
  | received hash =>
    exact iff_of_true ((markBlockAsReceived_spec peers next hash wired taken).2.2 queued) rfl
  | inFlight nodeid hash pindex now =>
    exact iff_of_true
      ((markBlockAsInFlight_spec peers next nodeid hash pindex now wired taken).2 queued) rfl

theorem run_wired (events : List PeerEvent) (last : PeerStates)
    (reached : run step PeerStates.empty events = some last) : Wired last :=
  invariant_of_run step Wired (fun peers event next wired taken =>
    step_wired peers next event wired taken) PeerStates.empty last events wired_empty reached

/-- In every run the map, the lists and the counters agree exactly if no step finalises a peer with
an entry with `fValidatedHeaders`. -/
theorem in_flight_accounted_iff (events : List PeerEvent) (last : PeerStates)
    (reached : run step PeerStates.empty events = some last) :
    (∀ before middle, before <+: events → run step PeerStates.empty before = some middle →
      Accounted middle) ↔
      AllSteps step (fun peers event => leavesNoValidated peers event = true) PeerStates.empty
        events := by
  have exactly := invariant_iff_guarded_run step
    (fun peers event => leavesNoValidated peers event = true)
    (fun peers => Wired peers ∧ Queued peers)
    (fun peers event next holds taken => by
      have wired := step_wired peers next event holds.1 taken
      rw [← step_queued peers next event holds.1 holds.2 taken]
      exact and_iff_right wired)
    PeerStates.empty last events ⟨wired_empty, rfl⟩ reached
  rw [← exactly]
  constructor
  · intro accounted before middle isPrefix passed
    exact ⟨run_wired before middle passed, (accounted before middle isPrefix passed).queued⟩
  · intro holds before middle isPrefix passed
    have both := holds before middle isPrefix passed
    exact both.1.accounted both.2

/-- A block is requested from a second peer, and the first one is finalised. -/
def handedOver : List PeerEvent :=
  [.initializeNode 1 [] [10], .initializeNode 2 [] [20], .inFlight 1 77 (some 5) 1000,
    .inFlight 1 78 none 1001, .inFlight 2 77 (some 5) 1002, .finalizeNode 1, .received 77]

theorem handed_over_block_is_accounted :
    ∃ last, run step PeerStates.empty handedOver = some last ∧ Accounted last := by
  have succeeds : (run step PeerStates.empty handedOver).isSome = true := by decide +kernel
  obtain ⟨last, reached⟩ := isSome_iff_exists.mp succeeds
  have steps : AllSteps step (fun peers event => leavesNoValidated peers event = true)
      PeerStates.empty handedOver := by decide +kernel
  exact ⟨last, reached, (in_flight_accounted_iff handedOver last reached).mpr steps handedOver last
    (List.prefix_refl _) reached⟩

/-- A peer goes away while a block with a known header is requested from it. -/
def lostRequest : List PeerEvent :=
  [.initializeNode 1 [] [10], .inFlight 1 77 (some 5) 1000, .finalizeNode 1]

theorem lost_request_still_counts :
    ∃ last, run step PeerStates.empty lostRequest = some last ∧
      last.mapBlocksInFlight.keys = [] ∧ last.nQueuedValidatedHeaders = 1 ∧ ¬ Accounted last := by
  have found : ((run step PeerStates.empty lostRequest).map fun last =>
      (last.mapBlocksInFlight.keys, last.nQueuedValidatedHeaders)) = some ([], 1) := by
    decide +kernel
  obtain ⟨last, reached, both⟩ := map_eq_some_iff.mp found
  have keys : last.mapBlocksInFlight.keys = [] := congrArg Prod.fst both
  have counter : last.nQueuedValidatedHeaders = 1 := congrArg Prod.snd both
  refine ⟨last, reached, keys, counter, ?_⟩
  intro accounted
  have queued := accounted.queued
  unfold validatedInFlight at queued
  rw [keys, counter] at queued
  cases queued

end ZenonCore.InFlightAccounting
