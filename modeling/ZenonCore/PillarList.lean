import ZenonCore.PillarRestart

/-!
# The list and the map of the pillar collaterals

`AddPillarUtxo` appends a collateral whether it is there or not, and `CanBePillar` takes a
place in the list for an age.
-/

namespace ZenonCore.PillarList

open Primitives Chain Masternode ValueGate List
open Pillars PillarChain PillarRestart
open Library.SpendLog Library.Runs

def canBePillar (register : PillarRegister) (utxo : COutPoint) : Bool :=
  if register.isPillar utxo then
    match register.vPillarCollaterals.findIdx? fun pillar => pillar.1 == utxo with
    | none => true
    | some i => decide (i + 1 ≤ register.maxPillarsAllowed.toNat)
  else true

/-- What happens to the register: a block, another active chain, or a stop and a start of the node.
-/
inductive ListEvent
  | chain (event : Event)
  | restart (readBlockFromDisk : CBlockIndex → Option CBlock)
      (hashOrder : (AList fun _ : COutPoint => Int × Nat) → List Pillar)

def listStep (state : PillarState) : ListEvent → Option PillarState
  | .chain event => step state event
  | .restart readBlockFromDisk hashOrder =>
    (restart readBlockFromDisk hashOrder state.chainActive state.register).map fun register =>
      { state with register := register }

/-- The collaterals that a block at a height creates, each with its place. -/
def createdIn (nHeight : Int) (vtx : List CTransaction) (i : Nat) : List Pillar :=
  (vtx.zipIdx i).flatMap fun numbered =>
    (pillarOutPoints numbered.1).map fun outpoint => (outpoint, (nHeight, numbered.2))

/-- The transactions of the accepted blocks from `PLI_START` on, as they came. -/
def acceptedEntries : List CBlockIndex → List Entry
  | [] => []
  | [] :: rest => acceptedEntries rest
  | (block :: pprev) :: rest =>
    acceptedEntries rest ++
      if pliStart ≤ CBlockIndex.nHeight (block :: pprev) then
        block.vtx.map fun tx => (CBlockIndex.nHeight (block :: pprev), tx)
      else []

/-- Map and list hold the same collaterals, once and in order: those created and not spent since, of
which the oldest can be pillars. -/
structure Represents (state : PillarState) : Prop where
  inOrder : InOrder state.register
  unspent : ∀ outpoint, state.register.isPillar outpoint = true ↔
    Live Creates Spends (acceptedEntries state.accepted) outpoint
  placed : ∀ pillar ∈ state.register.vPillarCollaterals, ∃ block pprev,
    block :: pprev ∈ state.accepted ∧
      pillar ∈ createdIn (CBlockIndex.nHeight (block :: pprev)) block.vtx 0
  admits : ∀ pillar ∈ state.register.vPillarCollaterals,
    (canBePillar state.register pillar.1 = true ↔
      (state.register.vPillarCollaterals.filter fun older => lessThanKey older pillar).length <
        state.register.maxPillarsAllowed.toNat)

def scannedBlocks (readBlockFromDisk : CBlockIndex → Option CBlock) (state : PillarState) :
    List (Nat × CBlock) :=
  let left := max pliStart.toNat state.register.lastBlockScanned.toNat
  let height := (state.chainActive.nHeight % 2 ^ 32).toNat
  (List.range' left (height + 1 - left)).filterMap fun left : Nat =>
    (readBlockFromDisk (state.chainActive.atHeight left)).map fun block => (left, block)

def scannedEntries (blocks : List (Nat × CBlock)) : List Entry :=
  blocks.flatMap fun scanned => scanned.2.vtx.map fun tx => ((scanned.1 : Int), tx)

def scannedPillars (blocks : List (Nat × CBlock)) : List Pillar :=
  blocks.flatMap fun scanned => createdIn scanned.1 scanned.2.vtx 0

/-- A block from `PLI_START` on creates no collateral twice, none registered, and none before one in
the order; a scan leaves none out. -/
def InTurn (state : PillarState) : ListEvent → Prop
  | .chain (.acceptBlock block pprev _) =>
    pliStart ≤ CBlockIndex.nHeight (block :: pprev) →
      CreatesOnce state.register block ∧ (∀ tx ∈ block.vtx, tx.vout.length < 2 ^ 32) ∧
        ∀ pillar ∈ state.register.vPillarCollaterals,
          ∀ made ∈ createdIn (CBlockIndex.nHeight (block :: pprev)) block.vtx 0,
            lessThanKey pillar made = true
  | .chain (.activateChain _) => True
  | .restart readBlockFromDisk hashOrder =>
    (∀ map, (hashOrder map).Perm (map.entries.map fun entry => (entry.1, entry.2))) ∧
      ∀ made ∈ scannedPillars (scannedBlocks readBlockFromDisk state),
        Live Creates Spends (scannedEntries (scannedBlocks readBlockFromDisk state)) made.1 →
          made ∈ state.register.vPillarCollaterals

section Registering

variable (nHeight : Int)

/-- While a block is registered: where the entries of the list come from, and what
they are. -/
structure Lists (register : PillarRegister) (known : Pillar → Prop) (live : COutPoint → Prop) :
    Prop where
  inOrder : InOrder register
  origin : ∀ pillar ∈ register.vPillarCollaterals, known pillar
  listed : ∀ outpoint, outpoint ∈ register.vPillarCollaterals.map Prod.fst ↔ live outpoint

theorem Lists.congr {register : PillarRegister} {known others : Pillar → Prop}
    {live alive : COutPoint → Prop} (lists : Lists register known live)
    (wider : ∀ pillar, known pillar → others pillar)
    (same : ∀ outpoint, live outpoint ↔ alive outpoint) : Lists register others alive where
  inOrder := lists.inOrder
  origin := fun pillar member => wider pillar (lists.origin pillar member)
  listed := fun outpoint => (lists.listed outpoint).trans (same outpoint)

theorem Lists.isPillar {register : PillarRegister} {known : Pillar → Prop}
    {live : COutPoint → Prop} (lists : Lists register known live) (outpoint : COutPoint) :
    register.isPillar outpoint = true ↔ live outpoint :=
  (isPillar_of_lookup register _ lists.inOrder.mapped outpoint).trans (lists.listed outpoint)

theorem registerOutput_lists (i : Nat) (register : PillarRegister) (outpoint : COutPoint)
    (known : Pillar → Prop) (live : COutPoint → Prop) (lists : Lists register known live)
    (new : ¬live outpoint)
    (last : ∀ pillar, known pillar → lessThanKey pillar (outpoint, (nHeight, i)) = true) :
    Lists (registerOutput nHeight i register outpoint)
      (fun pillar => known pillar ∨ pillar = (outpoint, (nHeight, i)))
      (fun other => live other ∨ other = outpoint) := by
  have absent : register.isPillar outpoint = false := by
    rw [Bool.eq_false_iff]
    exact fun present => new ((lists.isPillar outpoint).mp present)
  have list := (registerOutput_new nHeight i register outpoint absent).1
  constructor
  · apply lists.inOrder.register nHeight i outpoint absent
    intro pillar member
    exact last pillar (lists.origin pillar member)
  · intro pillar member
    rw [list, mem_append, mem_singleton] at member
    exact member.imp (lists.origin pillar) id
  · intro other
    rw [list, map_append, mem_append, lists.listed]
    simp

theorem releaseInput_lists (register : PillarRegister) (txin : CTxIn) (known : Pillar → Prop)
    (live : COutPoint → Prop) (lists : Lists register known live) :
    Lists (releaseInput nHeight register txin) known
      (fun other => live other ∧ other ≠ txin.prevout) := by
  have list := releaseInput_list nHeight lists.inOrder txin
  constructor
  · exact lists.inOrder.release nHeight txin
  · intro pillar member
    rw [list] at member
    exact lists.origin pillar (mem_of_mem_filter member)
  · intro other
    rw [list, ← eraseP_eq_filter _ _ lists.inOrder.once, keys_eraseP,
      lists.inOrder.once.mem_erase_iff, lists.listed]
    exact and_comm

theorem releaseInputs_lists (vin : List CTxIn) (register : PillarRegister)
    (known : Pillar → Prop) (live : COutPoint → Prop) (lists : Lists register known live) :
    Lists (vin.foldl (releaseInput nHeight) register) known
      (fun other => live other ∧ ¬∃ txin ∈ vin, txin.prevout = other) := by
  induction vin generalizing register live with
  | nil => exact lists.congr (fun _ => id) (by simp)
  | cons txin rest ih =>
    apply (ih _ _ (releaseInput_lists nHeight register txin known live lists)).congr
      fun _ => id
    intro other
    rw [exists_mem_cons_iff, not_or, and_assoc]
    apply and_congr_right
    intro _
    apply and_congr_left
    intro _
    exact ne_comm

theorem registerOutputs_lists (i : Nat) (outpoints : List COutPoint) (register : PillarRegister)
    (known : Pillar → Prop) (live : COutPoint → Prop) (lists : Lists register known live)
    (new : ∀ outpoint ∈ outpoints, ¬live outpoint) (distinct : outpoints.Nodup)
    (rise : outpoints.Pairwise fun a b => a.n.toNat < b.n.toNat)
    (last : ∀ pillar, known pillar → ∀ outpoint ∈ outpoints,
      lessThanKey pillar (outpoint, (nHeight, i)) = true) :
    Lists (outpoints.foldl (registerOutput nHeight i) register)
      (fun pillar => known pillar ∨
        pillar ∈ outpoints.map fun outpoint => (outpoint, (nHeight, i)))
      (fun other => live other ∨ other ∈ outpoints) := by
  induction outpoints generalizing register known live with
  | nil => exact lists.congr (fun _ => Or.inl) (by simp)
  | cons outpoint rest ih =>
    obtain ⟨notLater, distinctRest⟩ := nodup_cons.mp distinct
    obtain ⟨lower, riseRest⟩ := pairwise_cons.mp rise
    have first := registerOutput_lists nHeight i register outpoint known live lists
      (new outpoint mem_cons_self)
      (fun pillar isKnown => last pillar isKnown outpoint mem_cons_self)
    have later := ih _ _ _ first (by
      intro other member either
      obtain old | same := either
      · exact new other (mem_cons_of_mem _ member) old
      · rw [same] at member
        exact notLater member) distinctRest riseRest (by
      intro pillar either other member
      obtain old | same := either
      · exact last pillar old other (mem_cons_of_mem _ member)
      · rw [same, lessThanKey_iff]
        exact Or.inr ⟨rfl, Or.inr ⟨rfl, lower other member⟩⟩)
    apply later.congr
    · intro pillar either
      rw [map_cons, mem_cons, ← or_assoc]
      exact either
    · intro other
      rw [mem_cons, or_assoc]

theorem createdIn_cons (tx : CTransaction) (rest : List CTransaction) (i : Nat) :
    createdIn nHeight (tx :: rest) i =
      ((pillarOutPoints tx).map fun outpoint => (outpoint, (nHeight, i))) ++
        createdIn nHeight rest (i + 1) := by
  unfold createdIn
  rw [zipIdx_cons, flatMap_cons]

variable (vtx : List CTransaction) (i : Nat)

theorem createdIn_place (made : Pillar)
    (member : made ∈ createdIn nHeight vtx i) : made.2.1 = nHeight ∧ i ≤ made.2.2 := by
  obtain ⟨numbered, inBlock, here⟩ := mem_flatMap.mp member
  obtain ⟨outpoint, _, same⟩ := mem_map.mp here
  rw [← same]
  exact ⟨rfl, (mem_zipIdx inBlock).1⟩

theorem registerTransactions_lists (log : List Entry)
    (register : PillarRegister) (known : Pillar → Prop)
    (lists : Lists register known (Live Creates Spends log))
    (new : ∀ outpoint ∈ vtx.flatMap pillarOutPoints, ¬Live Creates Spends log outpoint)
    (distinct : (vtx.flatMap pillarOutPoints).Nodup)
    (bound : ∀ tx ∈ vtx, tx.vout.length < 2 ^ 32)
    (last : ∀ pillar, known pillar → ∀ made ∈ createdIn nHeight vtx i,
      lessThanKey pillar made = true) :
    Lists ((vtx.zipIdx i).foldl (registerTransaction nHeight) register)
      (fun pillar => known pillar ∨ pillar ∈ createdIn nHeight vtx i)
      (Live Creates Spends (log ++ vtx.map fun tx => (nHeight, tx))) := by
  induction vtx generalizing i log register known with
  | nil =>
    rw [map_nil, append_nil]
    exact lists.congr (fun _ => Or.inl) fun _ => Iff.rfl
  | cons tx rest ih =>
    rw [flatMap_cons] at distinct new
    rw [createdIn_cons] at last
    obtain ⟨distinctHere, distinctLater, apart⟩ := nodup_append'.mp distinct
    have made := registerOutputs_lists nHeight i (pillarOutPoints tx) register known _ lists
      (fun outpoint member => new outpoint (mem_append_left _ member)) distinctHere
      (pillarOutPoints_rise tx (bound tx mem_cons_self))
      (fun pillar isKnown outpoint member => last pillar isKnown _
        (mem_append_left _ (mem_map_of_mem member)))
    have first := (releaseInputs_lists nHeight tx.vin _ _ _ made).congr (fun _ => id)
      fun outpoint => (live_snoc Creates Spends log (nHeight, tx) outpoint).symm
    have stillNew : ∀ outpoint ∈ rest.flatMap pillarOutPoints,
        ¬Live Creates Spends (log ++ [(nHeight, tx)]) outpoint := by
      intro outpoint member live
      obtain before | here := ((live_snoc _ _ _ _ _).mp live).1
      · exact new outpoint (mem_append_right _ member) before
      · exact apart here member
    have later := ih (i + 1) (log ++ [(nHeight, tx)]) _ _ first stillNew distinctLater
      (fun other member => bound other (mem_cons_of_mem _ member)) (by
      intro pillar either other member
      obtain old | here := either
      · exact last pillar old other (mem_append_right _ member)
      · obtain ⟨outpoint, _, same⟩ := mem_map.mp here
        have place := createdIn_place nHeight rest (i + 1) other member
        rw [← same, lessThanKey_iff]
        exact Or.inr ⟨place.1.symm, Or.inl (Nat.lt_of_succ_le place.2)⟩)
    rw [map_cons, append_cons, createdIn_cons]
    apply later.congr
    · intro pillar either
      rw [mem_append, ← or_assoc]
      exact either
    · exact fun _ => Iff.rfl

end Registering

theorem place_of_ordered (list : List Pillar) (pillar : Pillar) (member : pillar ∈ list)
    (once : (list.map Prod.fst).Nodup)
    (ordered : list.Pairwise fun a b => lessThanKey a b = true) :
    list.findIdx? (fun other => other.1 == pillar.1) =
      some (list.filter fun older => lessThanKey older pillar).length := by
  induction list with
  | nil => cases member
  | cons first rest ih =>
    rw [map_cons, nodup_cons] at once
    obtain ⟨before, orderedRest⟩ := pairwise_cons.mp ordered
    obtain here | later := mem_cons.mp member
    · have none : ((first :: rest).filter fun older => lessThanKey older pillar) = [] := by
        apply filter_eq_nil_iff.mpr
        intro other inList
        rw [here, Bool.not_eq_true]
        obtain same | behind := mem_cons.mp inList
        · rw [same, Bool.eq_false_iff]
          intro less
          exact absurd (lessThanKey_asymm first first less) (by rw [less]; decide)
        · exact lessThanKey_asymm first other (before other behind)
      rw [none, findIdx?_cons, here, beq_self_eq_true, if_pos rfl]
      rfl
    · have other : first.1 ≠ pillar.1 := fun same =>
        once.1 (mem_map.mpr ⟨pillar, later, same.symm⟩)
      rw [findIdx?_cons, if_neg (by simpa using other), ih later once.2 orderedRest,
        filter_cons, if_pos (before pillar later), length_cons]
      rfl

theorem canBePillar_iff (register : PillarRegister) (inOrder : InOrder register)
    (pillar : Pillar) (member : pillar ∈ register.vPillarCollaterals) :
    canBePillar register pillar.1 = true ↔
      (register.vPillarCollaterals.filter fun older => lessThanKey older pillar).length <
        register.maxPillarsAllowed.toNat := by
  have present : register.isPillar pillar.1 = true :=
    (isPillar_of_lookup register _ inOrder.mapped pillar.1).mpr (mem_map_of_mem member)
  unfold canBePillar
  rw [if_pos present,
    place_of_ordered register.vPillarCollaterals pillar member inOrder.once inOrder.ordered]
  exact decide_eq_true_iff

section Scanning

def Finds (register : PillarRegister) (live : COutPoint → Prop) (made : Pillar → Prop) : Prop :=
  ∀ outpoint second, register.mPillarCollaterals.lookup outpoint = some second →
    live outpoint ∧ made (outpoint, second)

theorem Finds.mono {register : PillarRegister} {live alive : COutPoint → Prop}
    {made more : Pillar → Prop} (finds : Finds register live made)
    (wider : ∀ outpoint, live outpoint → alive outpoint)
    (further : ∀ pillar, made pillar → more pillar) : Finds register alive more :=
  fun outpoint second found =>
    ⟨wider outpoint (finds outpoint second found).1, further _ (finds outpoint second found).2⟩

variable (left : Int)

theorem scanOutput_finds (i : Nat) (register : PillarRegister)
    (outpoint : COutPoint) (live : COutPoint → Prop) (made : Pillar → Prop)
    (finds : Finds register live made) :
    Finds (scanOutput left i register outpoint) (fun other => live other ∨ other = outpoint)
      (fun pillar => made pillar ∨ pillar = (outpoint, (left, i))) := by
  intro other second found
  have either : register.mPillarCollaterals.lookup other = some second ∨
      (other, second) = (outpoint, (left, i)) := by
    have map : (if left ≤ pliEnd then register.incrementMaxPillarsAllowed
        else register).mPillarCollaterals = register.mPillarCollaterals := by
      split
      · rfl
      · rfl
    unfold scanOutput at found
    generalize (if left ≤ pliEnd then register.incrementMaxPillarsAllowed else register) = before
      at found map
    unfold insertPillar at found
    rw [← map]
    split at found
    · exact Or.inl found
    · by_cases same : other = outpoint
      · rw [same, AList.lookup_insert] at found
        rw [same, ← Option.some.inj found]
        exact Or.inr rfl
      · rw [AList.lookup_insert_ne same] at found
        exact Or.inl found
  obtain old | new := either
  · exact ⟨Or.inl (finds other second old).1, Or.inl (finds other second old).2⟩
  · exact ⟨Or.inr (congrArg Prod.fst new), Or.inr new⟩

theorem scanInput_finds (register : PillarRegister) (txin : CTxIn)
    (live : COutPoint → Prop) (made : Pillar → Prop) (finds : Finds register live made) :
    Finds (scanInput left register txin) (fun other => live other ∧ other ≠ txin.prevout)
      made := by
  intro other second found
  unfold scanInput at found
  split at found
  · by_cases same : other = txin.prevout
    · dsimp only at found
      rw [same, AList.lookup_erase] at found
      cases found
    · dsimp only at found
      rw [AList.lookup_erase_ne same] at found
      exact ⟨⟨(finds other second found).1, same⟩, (finds other second found).2⟩
  · rename_i absent
    refine ⟨⟨(finds other second found).1, fun same => absent ?_⟩, (finds other second found).2⟩
    unfold PillarRegister.isPillar
    rw [← same, found]
    rfl

theorem scanTransaction_finds (i : Nat) (tx : CTransaction) (log : List Entry)
    (register : PillarRegister) (made : Pillar → Prop)
    (finds : Finds register (Live Creates Spends log) made) :
    Finds (scanTransaction left register (tx, i)) (Live Creates Spends (log ++ [(left, tx)]))
      (fun pillar => made pillar ∨
        pillar ∈ (pillarOutPoints tx).map fun outpoint => (outpoint, (left, i))) := by
  have outputs : ∀ (outpoints : List COutPoint) (before : PillarRegister)
      (live : COutPoint → Prop) (known : Pillar → Prop), Finds before live known →
      Finds (outpoints.foldl (scanOutput left i) before)
        (fun other => live other ∨ other ∈ outpoints)
        (fun pillar => known pillar ∨
          pillar ∈ outpoints.map fun outpoint => (outpoint, (left, i))) := by
    intro outpoints
    induction outpoints with
    | nil => exact fun before live known found => found.mono (fun _ => Or.inl) fun _ => Or.inl
    | cons outpoint rest ih =>
      intro before live known found
      apply (ih _ _ _ (scanOutput_finds left i before outpoint live known found)).mono
      · intro other either
        rw [mem_cons, ← or_assoc]
        exact either
      · intro pillar either
        rw [map_cons, mem_cons, ← or_assoc]
        exact either
  have inputs : ∀ (vin : List CTxIn) (before : PillarRegister) (live : COutPoint → Prop)
      (known : Pillar → Prop), Finds before live known →
      Finds (vin.foldl (scanInput left) before)
        (fun other => live other ∧ ¬∃ txin ∈ vin, txin.prevout = other) known := by
    intro vin
    induction vin with
    | nil =>
      intro before live known found
      exact found.mono (fun other alive => ⟨alive, by simp⟩) fun _ => id
    | cons txin rest ih =>
      intro before live known found
      apply (ih _ _ _ (scanInput_finds left before txin live known found)).mono _ fun _ => id
      intro other alive
      refine ⟨alive.1.1, ?_⟩
      rw [exists_mem_cons_iff, not_or]
      exact ⟨fun same => alive.1.2 same.symm, alive.2⟩
  exact (inputs tx.vin _ _ _ (outputs (pillarOutPoints tx) register _ _ finds)).mono
    (fun outpoint alive => (live_snoc Creates Spends log (left, tx) outpoint).mpr alive)
    fun _ => id

theorem scanTransactions_finds (vtx : List CTransaction) (i : Nat)
    (log : List Entry) (register : PillarRegister) (made : Pillar → Prop)
    (finds : Finds register (Live Creates Spends log) made) :
    Finds ((vtx.zipIdx i).foldl (scanTransaction left) register)
      (Live Creates Spends (log ++ vtx.map fun tx => (left, tx)))
      (fun pillar => made pillar ∨ pillar ∈ createdIn left vtx i) := by
  induction vtx generalizing i log register made with
  | nil =>
    rw [map_nil, append_nil]
    exact finds.mono (fun _ => id) fun _ => Or.inl
  | cons tx rest ih =>
    have first := scanTransaction_finds left i tx log register made finds
    rw [map_cons, append_cons, createdIn_cons]
    apply (ih (i + 1) _ _ _ first).mono fun _ => id
    intro pillar either
    rw [mem_append, ← or_assoc]
    exact either

theorem scanBlocks_finds (readBlockFromDisk : CBlockIndex → Option CBlock)
    (chainActive : CBlockIndex) (heights : List Nat) (log : List Entry) (made : Pillar → Prop)
    (register scanned : PillarRegister) (finds : Finds register (Live Creates Spends log) made)
    (done : heights.foldlM (scanBlock readBlockFromDisk chainActive) register = some scanned) :
    let blocks := heights.filterMap fun left : Nat =>
      (readBlockFromDisk (chainActive.atHeight left)).map fun block => (left, block)
    scanned.vPillarCollaterals = register.vPillarCollaterals ∧
      Finds scanned (Live Creates Spends (log ++ scannedEntries blocks))
        (fun pillar => made pillar ∨ pillar ∈ scannedPillars blocks) := by
  induction heights generalizing log made register with
  | nil =>
    cases done
    refine ⟨rfl, finds.mono (fun outpoint live => ?_) fun _ => Or.inl⟩
    rwa [filterMap_nil, scannedEntries, flatMap_nil, append_nil]
  | cons left rest ih =>
    rw [foldlM_cons] at done
    obtain ⟨next, scans, later⟩ := Option.bind_eq_some_iff.mp done
    unfold scanBlock at scans
    obtain ⟨block, read, same⟩ := Option.bind_eq_some_iff.mp scans
    have first := scanTransactions_finds left block.vtx 0 log register made finds
    have isNext : (block.vtx.zipIdx.foldl (scanTransaction left)
        register).updateLastScannedBlock left = next := Option.some.inj same
    have found : Finds next (Live Creates Spends (log ++ block.vtx.map fun tx =>
        ((left : Int), tx)))
        (fun pillar => made pillar ∨ pillar ∈ createdIn left block.vtx 0) := by
      rw [← isNext]
      exact first
    have list : next.vPillarCollaterals = register.vPillarCollaterals := by
      rw [← isNext]
      exact scanTransactions_list left block.vtx.zipIdx register
    obtain ⟨kept, all⟩ := ih _ _ next found later
    refine ⟨kept.trans list, ?_⟩
    rw [filterMap_cons_some (by rw [read]; rfl), scannedEntries, scannedPillars,
      flatMap_cons, flatMap_cons, ← append_assoc]
    apply all.mono fun _ => id
    intro pillar either
    rw [mem_append, ← or_assoc]
    exact either

end Scanning

section Runs

variable (state : PillarState)

theorem represents_of_inOrder (inOrder : InOrder state.register)
    (unspent : ∀ outpoint, state.register.isPillar outpoint = true ↔
      Live Creates Spends (acceptedEntries state.accepted) outpoint)
    (placed : ∀ pillar ∈ state.register.vPillarCollaterals, ∃ block pprev,
      block :: pprev ∈ state.accepted ∧
        pillar ∈ createdIn (CBlockIndex.nHeight (block :: pprev)) block.vtx 0) :
    Represents state where
  inOrder := inOrder
  unspent := unspent
  placed := placed
  admits := canBePillar_iff state.register inOrder

theorem acceptBlock_represents (block : CBlock)
    (pprev chainActive : CBlockIndex) (represents : Represents state)
    (inTurn : InTurn state (.chain (.acceptBlock block pprev chainActive))) :
    Represents
      { register := registerBlock state.register block pprev
        accepted := (block :: pprev) :: state.accepted
        chainActive := chainActive } := by
  have older : ∀ pillar ∈ state.register.vPillarCollaterals, ∃ other below,
      other :: below ∈ (block :: pprev) :: state.accepted ∧
        pillar ∈ createdIn (CBlockIndex.nHeight (other :: below)) other.vtx 0 := by
    intro pillar member
    obtain ⟨other, below, accepted, here⟩ := represents.placed pillar member
    exact ⟨other, below, mem_cons_of_mem _ accepted, here⟩
  by_cases counted : pliStart ≤ CBlockIndex.nHeight (block :: pprev)
  · obtain ⟨created, bound, last⟩ := inTurn counted
    have before : Lists state.register (· ∈ state.register.vPillarCollaterals)
        (Live Creates Spends (acceptedEntries state.accepted)) :=
      { inOrder := represents.inOrder
        origin := fun _ => id
        listed := fun outpoint => (isPillar_of_lookup state.register _ represents.inOrder.mapped
          outpoint).symm.trans (represents.unspent outpoint) }
    have after := registerTransactions_lists (CBlockIndex.nHeight (block :: pprev)) block.vtx 0 _
      state.register _ before (by
        intro outpoint member live
        have absent := created.2 outpoint member
        rw [(represents.unspent outpoint).mpr live] at absent
        cases absent) created.1 bound last
    have register : registerBlock state.register block pprev =
        (block.vtx.zipIdx.foldl (registerTransaction (CBlockIndex.nHeight (block :: pprev)))
          state.register).updateLastScannedBlock (CBlockIndex.nHeight (block :: pprev)) :=
      if_pos counted
    apply represents_of_inOrder
    · rw [register]
      exact ⟨after.inOrder.mapped, after.inOrder.once, after.inOrder.ordered⟩
    · intro outpoint
      rw [register, acceptedEntries, if_pos counted]
      exact after.isPillar outpoint
    · intro pillar member
      rw [register] at member
      obtain old | made := after.origin pillar member
      · exact older pillar old
      · exact ⟨block, pprev, mem_cons_self, made⟩
  · have register : registerBlock state.register block pprev = state.register := if_neg counted
    rw [register]
    apply represents_of_inOrder
    · exact represents.inOrder
    · intro outpoint
      rw [acceptedEntries, if_neg counted, append_nil]
      exact represents.unspent outpoint
    · exact older

theorem restart_represents (readBlockFromDisk : CBlockIndex → Option CBlock)
    (hashOrder : (AList fun _ : COutPoint => Int × Nat) → List Pillar)
    (register : PillarRegister) (represents : Represents state)
    (inTurn : InTurn state (.restart readBlockFromDisk hashOrder))
    (restarted : restart readBlockFromDisk hashOrder state.chainActive state.register =
      some register) : Represents { state with register := register } := by
  obtain ⟨shuffles, registered⟩ := inTurn
  unfold restart initPillars at restarted
  obtain ⟨scanned, done, same⟩ := Option.bind_eq_some_iff.mp restarted
  have isRegister : rebuildPillars hashOrder scanned = register := Option.some.inj same
  rcases scanBlocks_finds readBlockFromDisk state.chainActive _ [] (fun _ => False)
    (loadRegister (saveRegister state.register)) scanned (by
      intro outpoint second found
      cases found) done with ⟨list, finds⟩
  have rebuilt := rebuildPillars_same hashOrder state.register scanned
    (scanned.mPillarCollaterals.entries.map fun entry => (entry.1, entry.2)) shuffles
    represents.inOrder list (by
      intro outpoint second
      rw [← Option.mem_def, AList.mem_lookup_iff, mem_map]
      constructor
      · intro member
        exact ⟨⟨outpoint, second⟩, member, rfl⟩
      · intro listed
        obtain ⟨entry, member, isEntry⟩ := listed
        cases isEntry
        exact member) (by
      intro pillar member
      obtain ⟨entry, inMap, isEntry⟩ := mem_map.mp member
      rw [← isEntry]
      obtain ⟨live, made⟩ := finds entry.1 entry.2 (AList.mem_lookup_iff.mpr inMap)
      exact registered _ (made.resolve_left id) live)
  rw [isRegister] at rebuilt
  have isPillar : ∀ outpoint, register.isPillar outpoint = state.register.isPillar outpoint := by
    intro outpoint
    unfold PillarRegister.isPillar
    rw [rebuilt.2]
  apply represents_of_inOrder
  · constructor
    · intro outpoint second
      rw [rebuilt.1, rebuilt.2]
      exact represents.inOrder.mapped outpoint second
    · rw [rebuilt.1]
      exact represents.inOrder.once
    · rw [rebuilt.1]
      exact represents.inOrder.ordered
  · intro outpoint
    rw [isPillar]
    exact represents.unspent outpoint
  · intro pillar member
    rw [rebuilt.1] at member
    exact represents.placed pillar member

theorem listStep_represents (state next : PillarState) (event : ListEvent)
    (represents : Represents state) (inTurn : InTurn state event)
    (taken : listStep state event = some next) : Represents next := by
  cases event with
  | chain event =>
    cases event with
    | acceptBlock block pprev chainActive =>
      simp only [listStep, step] at taken
      split at taken
      · cases taken
        exact acceptBlock_represents state block pprev chainActive represents inTurn
      · cases taken
    | activateChain chainActive =>
      simp only [listStep, step] at taken
      split at taken
      · cases taken
        exact ⟨represents.inOrder, represents.unspent, represents.placed, represents.admits⟩
      · cases taken
  | restart readBlockFromDisk hashOrder =>
    obtain ⟨register, restarted, same⟩ := Option.map_eq_some_iff.mp taken
    rw [← same]
    exact restart_represents state readBlockFromDisk hashOrder register represents inTurn
      restarted

theorem acceptedEntries_below (chain : CBlockIndex)
    (below : CBlockIndex.nHeight chain < pliStart) : acceptedEntries chain.tails = [] := by
  induction chain with
  | nil => rfl
  | cons block pprev ih =>
    have height := CBlockIndex.nHeight_cons block pprev
    rw [tails_cons, acceptedEntries, ih (by omega), if_neg (by omega)]
    rfl

theorem start_represents (chain : CBlockIndex) (below : CBlockIndex.nHeight chain < pliStart) :
    Represents (.start chain) := by
  apply represents_of_inOrder
  · exact empty_inOrder
  · intro outpoint
    constructor
    · intro present
      cases present
    · intro live
      unfold PillarState.start at live
      rw [acceptedEntries_below chain below] at live
      exact absurd live (not_live_nil Creates Spends outpoint)
  · intro pillar member
    cases member

/-- Where all steps meet the condition list and map are those of the unspent collaterals, in order.
-/
theorem pillars_represented (chain : CBlockIndex) (events : List ListEvent) (last : PillarState)
    (below : CBlockIndex.nHeight chain < pliStart)
    (inTurn : AllSteps listStep InTurn (.start chain) events)
    (reached : run listStep (.start chain) events = some last) : Represents last := by
  apply invariant_of_guarded_run listStep InTurn Represents _ (.start chain) last events
    (start_represents chain below) inTurn reached
  intro state event next represents condition taken
  exact listStep_represents state next event represents condition taken

end Runs

/-- A rival of the block with the payment, which has it too. -/
def rivalBlock : CBlock := exampleBlock 1000005 0 1700000000 [coinbaseTx 1000006, pillarTx]

section Examples

variable (chain : CBlockIndex)

theorem pillar_step : listStep (.start chain)
    (.chain (.acceptBlock pillarBlock chain (pillarBlock :: chain))) = some
      { register := registerBlock .empty pillarBlock chain
        accepted := (pillarBlock :: chain) :: chain.tails
        chainActive := pillarBlock :: chain } :=
  if_pos ⟨own_block chain, fresh_block chain pillarBlock, mem_cons_self⟩

theorem rivals_run : run listStep (.start chain)
    [.chain (.acceptBlock pillarBlock chain (pillarBlock :: chain)),
      .chain (.acceptBlock rivalBlock chain (pillarBlock :: chain))] = some
    { register := registerBlock (registerBlock .empty pillarBlock chain) rivalBlock chain
      accepted := (rivalBlock :: chain) :: (pillarBlock :: chain) :: chain.tails
      chainActive := pillarBlock :: chain } := by
  have other : rivalBlock :: chain ∉ (pillarBlock :: chain) :: chain.tails := by
    intro member
    obtain same | old := mem_cons.mp member
    · exact absurd (cons.inj same).1 (by decide)
    · exact fresh_block chain rivalBlock old
  apply (run_cons_some listStep _ _ _ _).mpr
  refine ⟨_, pillar_step chain, ?_⟩
  apply (run_cons_some listStep _ _ _ _).mpr
  refine ⟨_, if_pos ⟨mem_cons_of_mem _ (own_block chain), other, ?_⟩, rfl⟩
  exact mem_cons_of_mem _ mem_cons_self

end Examples

/-- The collateral is twice in the list. -/
theorem rivals_list_twice :
    ¬ ∀ (chain : CBlockIndex) (events : List ListEvent) (last : PillarState),
      CBlockIndex.nHeight chain < pliStart → run listStep (.start chain) events = some last →
      Represents last := by
  intro represented
  have height := coinbaseChain_height 365759
  generalize coinbaseChain 365759 = chain at height
  have represents := represented chain _ _ (by rw [height]; decide) (rivals_run chain)
  have once := represents.inOrder.once
  rw [registerBlock_at chain _ _ height, registerBlock_at chain _ _ height] at once
  dsimp only at once
  exact absurd once (by decide +kernel)

theorem scannedBlocks_tip (block : CBlock) (chain : CBlockIndex) (state : PillarState)
    (height : CBlockIndex.nHeight (block :: chain) = 365760)
    (active : state.chainActive = block :: chain)
    (scanned : state.register.lastBlockScanned = 365760) :
    scannedBlocks readTip state = [(365760, block)] := by
  have tip : CBlockIndex.atHeight (block :: chain) 365760 = block :: chain := by
    rw [← height]
    exact CBlockIndex.atHeight_of_suffix _ _ (suffix_refl _) (cons_ne_nil _ _)
  unfold scannedBlocks
  rw [active, height, scanned]
  have left : max pliStart.toNat (365760 : UInt32).toNat = 365760 := by decide
  have right : ((365760 : Int) % 2 ^ 32).toNat + 1 - 365760 = 1 := by decide
  dsimp only
  rw [left, right, range'_one, filterMap_cons_some (by
    rw [show ((365760 : Nat) : Int) = 365760 from rfl, tip]
    rfl), filterMap_nil]

section Restarts

variable (chain : CBlockIndex)

theorem restart_at_tip (block : CBlock) (register : PillarRegister)
    (read : readTip (block :: chain) = some block) (bound : chain.length < 2 ^ 31)
    (counted : pliStart ≤ CBlockIndex.nHeight (block :: chain))
    (scanned : register.lastBlockScanned.toNat = chain.length) :
    ∃ after, restart readTip entryOrder (block :: chain) register = some after := by
  unfold restart
  rw [initPillars_tip readTip entryOrder block chain (loadRegister (saveRegister register)) read
    bound counted scanned]
  exact ⟨_, rfl⟩

theorem payment_scanned (height : CBlockIndex.nHeight chain = 365759) :
    (registerBlock .empty pillarBlock chain).lastBlockScanned = 365760 := by
  rw [registerBlock_at chain .empty pillarBlock height]
  decide +kernel

theorem payment_listed (height : CBlockIndex.nHeight chain = 365759) :
    (registerBlock .empty pillarBlock chain).vPillarCollaterals =
      createdIn 365760 pillarBlock.vtx 0 := by
  rw [registerBlock_at chain .empty pillarBlock height]
  decide +kernel

theorem payment_restart (height : CBlockIndex.nHeight chain = 365759) :
    ∃ after, restart readTip entryOrder (pillarBlock :: chain)
      (registerBlock .empty pillarBlock chain) = some after := by
  have length : chain.length = 365760 := by
    unfold CBlockIndex.nHeight at height
    omega
  apply restart_at_tip
  · rfl
  · rw [length]
    decide
  · rw [CBlockIndex.nHeight_cons, height]
    decide
  · rw [payment_scanned chain height, length]
    rfl

end Restarts

/-- The block with the payment becomes the tip, and the node starts again. -/
theorem pillar_survives_restart :
    ∃ (chain : CBlockIndex) (last : PillarState),
      run listStep (.start chain)
        [.chain (.acceptBlock pillarBlock chain (pillarBlock :: chain)),
          .restart readTip entryOrder] = some last ∧
      last.chainActive = pillarBlock :: chain ∧ Represents last := by
  have height := coinbaseChain_height 365759
  generalize coinbaseChain 365759 = chain at height
  have tip : CBlockIndex.nHeight (pillarBlock :: chain) = 365760 := by
    rw [CBlockIndex.nHeight_cons, height]
    rfl
  obtain ⟨after, isAfter⟩ := payment_restart chain height
  have taken : listStep
      { register := registerBlock .empty pillarBlock chain
        accepted := (pillarBlock :: chain) :: chain.tails
        chainActive := pillarBlock :: chain } (.restart readTip entryOrder) = some
      { register := after
        accepted := (pillarBlock :: chain) :: chain.tails
        chainActive := pillarBlock :: chain } :=
    Option.map_eq_some_iff.mpr ⟨after, isAfter, rfl⟩
  have reached := (run_cons_some listStep _ _ _ [.restart readTip entryOrder]).mpr
    ⟨_, pillar_step chain, (run_cons_some listStep _ _ _ []).mpr ⟨_, taken, rfl⟩⟩
  refine ⟨chain, _, reached, rfl, pillars_represented chain _ _ (by rw [height]; decide) ?_ reached⟩
  refine ⟨fun _ => ⟨⟨by decide, fun outpoint _ => rfl⟩, by decide, fun pillar member => ?_⟩,
    fun next taken => ⟨⟨fun map => List.Perm.refl _, ?_⟩, fun _ _ => trivial⟩⟩
  · cases member
  · rw [pillar_step chain] at taken
    cases taken
    rw [scannedBlocks_tip pillarBlock chain _ tip rfl (payment_scanned chain height)]
    intro made member _
    rw [payment_listed chain height]
    exact (mem_append.mp member).resolve_right not_mem_nil

end ZenonCore.PillarList
