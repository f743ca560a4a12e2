import ZenonCore.PillarChain

/-!
# The register after a restart

The cache holds the list, the number allowed and the last height, but not the map;
`InitPillars` reads on from that height, whose block has been counted.
-/

namespace ZenonCore.PillarRestart

open Primitives Chain Masternode ValueGate List
open Pillars PillarChain Library.SpendLog

/-- An outpoint with the height and the position of its transaction. -/
abbrev Pillar := COutPoint × (Int × Nat)

structure SavedRegister where
  maxPillarsAllowed : UInt32
  vPillarCollaterals : List Pillar
  lastBlockScanned : UInt32

def saveRegister (register : PillarRegister) : SavedRegister where
  maxPillarsAllowed := register.maxPillarsAllowed
  vPillarCollaterals := register.vPillarCollaterals
  lastBlockScanned := register.lastBlockScanned

def loadRegister (saved : SavedRegister) : PillarRegister where
  maxPillarsAllowed := saved.maxPillarsAllowed
  vPillarCollaterals := saved.vPillarCollaterals
  mPillarCollaterals := ∅
  lastBlockScanned := saved.lastBlockScanned

def lessThanKey (a b : Pillar) : Bool :=
  if a.2.1 = b.2.1 then
    if a.2.2 = b.2.2 then a.1.n < b.1.n else a.2.2 < b.2.2
  else a.2.1 < b.2.1

/-- `mPillarCollaterals.insert`, which keeps an entry the map has. -/
def insertPillar (register : PillarRegister) (pillar : Pillar) : PillarRegister :=
  { register with
    mPillarCollaterals :=
      if register.isPillar pillar.1 then register.mPillarCollaterals
      else register.mPillarCollaterals.insert pillar.1 pillar.2 }

def scanOutput (left : Int) (txCount : Nat) (register : PillarRegister) (outpoint : COutPoint) :
    PillarRegister :=
  insertPillar (if left ≤ pliEnd then register.incrementMaxPillarsAllowed else register)
    (outpoint, (left, txCount))

def scanInput (left : Int) (register : PillarRegister) (txin : CTxIn) : PillarRegister :=
  if register.isPillar txin.prevout then
    { register with
      maxPillarsAllowed :=
        if left ≤ pliEnd then register.maxPillarsAllowed - 1 else register.maxPillarsAllowed
      mPillarCollaterals := register.mPillarCollaterals.erase txin.prevout }
  else register

def scanTransaction (left : Int) (register : PillarRegister) (numbered : CTransaction × Nat) :
    PillarRegister :=
  numbered.1.vin.foldl (scanInput left)
    ((pillarOutPoints numbered.1).foldl (scanOutput left numbered.2) register)

section InitPillars

variable (readBlockFromDisk : CBlockIndex → Option CBlock)
  (hashOrder : (AList fun _ : COutPoint => Int × Nat) → List Pillar)

def scanBlock (chainActive : CBlockIndex) (register : PillarRegister) (left : Nat) :
    Option PillarRegister := do
  let currentBlock ← readBlockFromDisk (chainActive.atHeight left)
  return (currentBlock.vtx.zipIdx.foldl (scanTransaction left) register).updateLastScannedBlock left

/-- The end of `InitPillars`: the list joins the map and is made anew from it, in order. -/
def rebuildPillars (scanned : PillarRegister) : PillarRegister :=
  let restored := scanned.vPillarCollaterals.foldl insertPillar scanned
  { restored with
    vPillarCollaterals :=
      (hashOrder restored.mPillarCollaterals).mergeSort fun a b => !lessThanKey b a }

/-- `InitPillars`. The height is compared as an unsigned number. -/
def initPillars (chainActive : CBlockIndex) (register : PillarRegister) :
    Option PillarRegister := do
  let left := max pliStart.toNat register.lastBlockScanned.toNat
  let height := (chainActive.nHeight % 2 ^ 32).toNat
  let scanned ← (List.range' left (height + 1 - left)).foldlM
    (scanBlock readBlockFromDisk chainActive) register
  return rebuildPillars hashOrder scanned

def restart (chainActive : CBlockIndex) (register : PillarRegister) : Option PillarRegister :=
  initPillars readBlockFromDisk hashOrder chainActive (loadRegister (saveRegister register))

end InitPillars

def processed : CBlockIndex → PillarRegister
  | [] => .empty
  | block :: pprev => registerBlock (processed pprev) block pprev

/-- Each block creates its collaterals once, and the indices of the outputs fit
into their type. -/
def Registrable : CBlockIndex → Prop
  | [] => True
  | block :: pprev =>
    Registrable pprev ∧ CreatesOnce (processed pprev) block ∧
      ∀ tx ∈ block.vtx, tx.vout.length < 2 ^ 32

/-- The same list in the same order, the same map and the same number allowed. -/
structure SameRegister (restarted running : PillarRegister) : Prop where
  list : restarted.vPillarCollaterals = running.vPillarCollaterals
  map : ∀ outpoint,
    restarted.mPillarCollaterals.lookup outpoint = running.mPillarCollaterals.lookup outpoint
  allowed : restarted.maxPillarsAllowed = running.maxPillarsAllowed

/-- The collaterals that the tip of a chain creates and does not spend. -/
def tipPillars : CBlockIndex → Set COutPoint
  | [] => ∅
  | block :: pprev =>
    { outpoint | Live Creates Spends
      (block.vtx.map fun tx => (CBlockIndex.nHeight (block :: pprev), tx)) outpoint }

theorem lessThanKey_iff (a b : Pillar) :
    lessThanKey a b = true ↔ a.2.1 < b.2.1 ∨ (a.2.1 = b.2.1 ∧
      (a.2.2 < b.2.2 ∨ (a.2.2 = b.2.2 ∧ a.1.n.toNat < b.1.n.toNat))) := by
  unfold lessThanKey
  split_ifs with height position
  · simp [height, position, UInt32.lt_iff_toNat_lt]
  · simp [height, position]
  · simp [height]

theorem lessThanKey_asymm (a b : Pillar) (less : lessThanKey a b = true) :
    lessThanKey b a = false := by
  rw [Bool.eq_false_iff]
  intro greater
  rw [lessThanKey_iff] at less greater
  omega

theorem notLess_trans (a b c : Pillar) (first : (!lessThanKey b a) = true)
    (second : (!lessThanKey c b) = true) : (!lessThanKey c a) = true := by
  rw [Bool.not_eq_true', Bool.eq_false_iff, ne_eq, lessThanKey_iff] at first second ⊢
  omega

theorem notLess_total (a b : Pillar) : (!lessThanKey b a || !lessThanKey a b) = true := by
  rw [Bool.or_eq_true, Bool.not_eq_true', Bool.not_eq_true']
  obtain less | notLess := Bool.eq_false_or_eq_true (lessThanKey a b)
  · exact Or.inl (lessThanKey_asymm a b less)
  · exact Or.inr notLess

theorem comparable (list : List Pillar) (ordered : list.Pairwise fun a b => lessThanKey a b = true)
    (a b : Pillar) (first : a ∈ list) (second : b ∈ list) (different : a ≠ b) :
    lessThanKey a b = true ∨ lessThanKey b a = true := by
  have symmetric : Std.Symm fun a b : Pillar => lessThanKey a b = true ∨ lessThanKey b a = true :=
    ⟨fun _ _ => Or.symm⟩
  have either : list.Pairwise fun a b => lessThanKey a b = true ∨ lessThanKey b a = true :=
    ordered.imp Or.inl
  exact either.forall first second different

theorem sort_of_perm (list shuffled : List Pillar) (perm : shuffled.Perm list)
    (ordered : list.Pairwise fun a b => lessThanKey a b = true) :
    shuffled.mergeSort (fun a b => !lessThanKey b a) = list := by
  have sorted := pairwise_mergeSort notLess_trans notLess_total shuffled
  have weak : list.Pairwise fun a b => (!lessThanKey b a) = true := by
    apply ordered.imp
    intro a b less
    rw [lessThanKey_asymm a b less]
    rfl
  have same := (mergeSort_perm shuffled fun a b => !lessThanKey b a).trans perm
  apply List.Perm.eq_of_pairwise _ sorted weak same
  intro a b left right notAfter notBefore
  by_contra different
  obtain less | less := comparable list ordered a b (same.mem_iff.mp left) right different
  · rw [less] at notBefore
    cases notBefore
  · rw [less] at notAfter
    cases notAfter

section Scanning

/-- Map and list hold the same entries, and the list is in order. -/
structure InOrder (register : PillarRegister) : Prop where
  mapped : ∀ outpoint second, register.mPillarCollaterals.lookup outpoint = some second ↔
    (outpoint, second) ∈ register.vPillarCollaterals
  once : (register.vPillarCollaterals.map Prod.fst).Nodup
  ordered : register.vPillarCollaterals.Pairwise fun a b => lessThanKey a b = true

/-- A block is registered by the running node and scanned by the restarted one, up to its `i`-th
transaction. -/
structure Rescans (nHeight : Int) (start : UInt32) (i : Nat) (created : COutPoint → Prop)
    (running scan : PillarRegister) (older newer : List Pillar) : Prop where
  inOrder : InOrder running
  listed : running.vPillarCollaterals = older ++ newer
  reached : ∀ pillar ∈ older ++ newer,
    pillar.2.1 < nHeight ∨ (pillar.2.1 = nHeight ∧ pillar.2.2 < i)
  scanned : ∀ outpoint second, scan.mPillarCollaterals.lookup outpoint = some second ↔
    (outpoint, second) ∈ newer
  counted : scan.maxPillarsAllowed =
    if nHeight ≤ pliEnd then start + UInt32.ofNat newer.length else start
  fresh : ∀ outpoint, outpoint ∈ newer.map Prod.fst ↔ created outpoint

theorem isPillar_of_lookup (register : PillarRegister) (list : List Pillar)
    (mapped : ∀ outpoint second, register.mPillarCollaterals.lookup outpoint = some second ↔
      (outpoint, second) ∈ list) (outpoint : COutPoint) :
    register.isPillar outpoint = true ↔ outpoint ∈ list.map Prod.fst := by
  unfold PillarRegister.isPillar
  rw [Option.isSome_iff_exists, mem_map]
  constructor
  · intro present
    obtain ⟨second, found⟩ := present
    exact ⟨(outpoint, second), (mapped outpoint second).mp found, rfl⟩
  · intro present
    obtain ⟨pillar, member, rfl⟩ := present
    exact ⟨pillar.2, (mapped pillar.1 pillar.2).mpr member⟩

variable (map : AList fun _ : COutPoint => Int × Nat) (list : List Pillar)

theorem lookup_insert_iff (pillar : Pillar) (mapped : ∀ outpoint second,
      map.lookup outpoint = some second ↔ (outpoint, second) ∈ list)
    (absent : pillar.1 ∉ list.map Prod.fst) (outpoint : COutPoint) (second : Int × Nat) :
    (map.insert pillar.1 pillar.2).lookup outpoint = some second ↔
      (outpoint, second) ∈ list ++ [pillar] := by
  rw [mem_append, mem_singleton]
  by_cases same : outpoint = pillar.1
  · rw [same, AList.lookup_insert]
    constructor
    · intro found
      cases found
      exact Or.inr rfl
    · intro either
      obtain old | new := either
      · exact absurd (mem_map.mpr ⟨_, old, rfl⟩) absent
      · rw [← new]
  · rw [AList.lookup_insert_ne same, mapped]
    constructor
    · exact Or.inl
    · intro either
      obtain old | new := either
      · exact old
      · exact absurd (congrArg Prod.fst new) same

theorem lookup_erase_iff (spent : COutPoint) (mapped : ∀ outpoint second,
      map.lookup outpoint = some second ↔ (outpoint, second) ∈ list)
    (outpoint : COutPoint) (second : Int × Nat) :
    (map.erase spent).lookup outpoint = some second ↔
      (outpoint, second) ∈ list.filter fun pillar => pillar.1 != spent := by
  rw [mem_filter, bne_iff_ne]
  by_cases same : outpoint = spent
  · rw [same, AList.lookup_erase]
    simp
  · rw [AList.lookup_erase_ne same, mapped]
    simp [same]

variable (list : List Pillar) (spent : COutPoint)

theorem eraseP_eq_filter
    (once : (list.map Prod.fst).Nodup) :
    (list.eraseP fun pillar => pillar.1 == spent) = list.filter fun pillar => pillar.1 != spent := by
  induction list with
  | nil => rfl
  | cons pillar rest ih =>
    rw [map_cons, nodup_cons] at once
    by_cases same : pillar.1 = spent
    · rw [eraseP_cons_of_pos (by simpa using same), filter_cons_of_neg (by simpa using same)]
      symm
      apply filter_eq_self.mpr
      intro other member
      rw [bne_iff_ne, ← same]
      intro twice
      exact once.1 (mem_map.mpr ⟨other, member, twice⟩)
    · rw [eraseP_cons_of_neg (by simpa using same),
        filter_cons_of_pos (by simpa using same), ih once.2]

theorem filter_eq_of_absent
    (absent : spent ∉ list.map Prod.fst) :
    (list.filter fun pillar => pillar.1 != spent) = list := by
  apply filter_eq_self.mpr
  intro pillar member
  rw [bne_iff_ne]
  intro same
  exact absent (mem_map.mpr ⟨pillar, member, same⟩)

theorem length_filter_of_present
    (once : (list.map Prod.fst).Nodup) (present : spent ∈ list.map Prod.fst) :
    (list.filter fun pillar => pillar.1 != spent).length + 1 = list.length := by
  obtain ⟨pillar, member, same⟩ := mem_map.mp present
  rw [← eraseP_eq_filter list spent once]
  exact length_eraseP_add_one member (by simpa using same)

variable (nHeight : Int) (start : UInt32)

theorem Rescans.newerOnce {i : Nat} {created : COutPoint → Prop} {running scan : PillarRegister}
    {older newer : List Pillar}
    (rescans : Rescans nHeight start i created running scan older newer) :
    (newer.map Prod.fst).Nodup := by
  have once := rescans.inOrder.once
  rw [rescans.listed, map_append] at once
  exact (nodup_append'.mp once).2.1

theorem Rescans.congr {i : Nat} {created others : COutPoint → Prop}
    {running scan : PillarRegister} {older newer : List Pillar}
    (rescans : Rescans nHeight start i created running scan older newer)
    (same : ∀ outpoint, created outpoint ↔ others outpoint) :
    Rescans nHeight start i others running scan older newer :=
  { rescans with fresh := fun outpoint => (rescans.fresh outpoint).trans (same outpoint) }

theorem InOrder.register (i : Nat) {register : PillarRegister} (inOrder : InOrder register)
    (outpoint : COutPoint) (new : register.isPillar outpoint = false)
    (last : ∀ pillar ∈ register.vPillarCollaterals,
      lessThanKey pillar (outpoint, (nHeight, i)) = true) :
    InOrder (registerOutput nHeight i register outpoint) := by
  obtain ⟨list, map, _⟩ := registerOutput_new nHeight i register outpoint new
  have absent : outpoint ∉ register.vPillarCollaterals.map Prod.fst := by
    rw [← isPillar_of_lookup register _ inOrder.mapped, new]
    exact Bool.false_ne_true
  constructor
  · rw [map, list]
    exact lookup_insert_iff _ _ (outpoint, (nHeight, i)) inOrder.mapped absent
  · rw [list, map_append, map_singleton]
    exact List.Nodup.append inOrder.once (nodup_singleton _)
      (disjoint_singleton.mpr absent)
  · rw [list, pairwise_append]
    refine ⟨inOrder.ordered, pairwise_singleton _ _, ?_⟩
    intro pillar member other single
    rw [mem_singleton.mp single]
    exact last pillar member

theorem releaseInput_list {register : PillarRegister} (inOrder : InOrder register) (txin : CTxIn) :
    (releaseInput nHeight register txin).vPillarCollaterals =
      register.vPillarCollaterals.filter fun pillar => pillar.1 != txin.prevout := by
  by_cases present : register.isPillar txin.prevout = true
  · rw [(releaseInput_pillar nHeight register txin present).1]
    exact eraseP_eq_filter _ _ inOrder.once
  · rw [releaseInput_other nHeight register txin present]
    rw [isPillar_of_lookup register _ inOrder.mapped] at present
    exact (filter_eq_of_absent _ _ present).symm

theorem InOrder.release {register : PillarRegister} (inOrder : InOrder register) (txin : CTxIn) :
    InOrder (releaseInput nHeight register txin) := by
  have list := releaseInput_list nHeight inOrder txin
  constructor
  · rw [list]
    by_cases present : register.isPillar txin.prevout = true
    · rw [(releaseInput_pillar nHeight register txin present).2.1]
      exact lookup_erase_iff _ _ _ inOrder.mapped
    · rw [releaseInput_other nHeight register txin present]
      rw [isPillar_of_lookup register _ inOrder.mapped] at present
      rw [filter_eq_of_absent _ _ present]
      exact inOrder.mapped
  · rw [list]
    exact inOrder.once.sublist (filter_sublist.map _)
  · rw [list]
    exact inOrder.ordered.sublist filter_sublist

variable (i : Nat) (created : COutPoint → Prop) (running scan : PillarRegister)
  (older newer : List Pillar)

theorem rescans_output (outpoint : COutPoint)
    (rescans : Rescans nHeight start (i + 1) created running scan older newer)
    (new : running.isPillar outpoint = false)
    (last : ∀ pillar ∈ older ++ newer, lessThanKey pillar (outpoint, (nHeight, i)) = true) :
    Rescans nHeight start (i + 1) (fun other => created other ∨ other = outpoint)
      (registerOutput nHeight i running outpoint) (scanOutput nHeight i scan outpoint) older
      (newer ++ [(outpoint, (nHeight, i))]) := by
  have absent : outpoint ∉ running.vPillarCollaterals.map Prod.fst := by
    rw [← isPillar_of_lookup running _ rescans.inOrder.mapped, new]
    exact Bool.false_ne_true
  have absentNew : outpoint ∉ newer.map Prod.fst := by
    intro member
    apply absent
    rw [rescans.listed, map_append]
    exact mem_append_right _ member
  have notScanned : scan.isPillar outpoint = false := by
    rw [Bool.eq_false_iff, ne_eq, isPillar_of_lookup scan newer rescans.scanned]
    exact absentNew
  have list := (registerOutput_new nHeight i running outpoint new).1
  have scanMap : (scanOutput nHeight i scan outpoint).mPillarCollaterals =
      scan.mPillarCollaterals.insert outpoint (nHeight, i) := by
    unfold scanOutput insertPillar
    split
    · exact if_neg (by rw [← Bool.not_eq_true] at notScanned; exact notScanned)
    · exact if_neg (by rw [← Bool.not_eq_true] at notScanned; exact notScanned)
  have scanAllowed : (scanOutput nHeight i scan outpoint).maxPillarsAllowed =
      if nHeight ≤ pliEnd then scan.maxPillarsAllowed + 1 else scan.maxPillarsAllowed := by
    unfold scanOutput insertPillar
    split <;> rfl
  constructor
  · apply rescans.inOrder.register nHeight i outpoint new
    rw [rescans.listed]
    exact last
  · rw [list, rescans.listed, append_assoc]
  · intro pillar member
    rw [← append_assoc, mem_append, mem_singleton] at member
    obtain old | same := member
    · exact rescans.reached pillar old
    · rw [same]
      exact Or.inr ⟨rfl, Nat.lt_succ_self i⟩
  · rw [scanMap]
    exact lookup_insert_iff _ _ (outpoint, (nHeight, i)) rescans.scanned absentNew
  · rw [scanAllowed, rescans.counted, length_append, length_singleton]
    split
    · rw [UInt32.ofNat_add, ← UInt32.add_assoc]
      rfl
    · rfl
  · intro other
    rw [map_append, mem_append, rescans.fresh]
    simp

theorem rescans_outputs (i : Nat) (outpoints : List COutPoint) (created : COutPoint → Prop)
    (running scan : PillarRegister) (older newer : List Pillar)
    (rescans : Rescans nHeight start (i + 1) created running scan older newer)
    (new : ∀ outpoint ∈ outpoints, running.isPillar outpoint = false)
    (last : ∀ pillar ∈ older ++ newer, ∀ outpoint ∈ outpoints,
      lessThanKey pillar (outpoint, (nHeight, i)) = true)
    (distinct : outpoints.Nodup)
    (counted : outpoints.Pairwise fun a b => a.n.toNat < b.n.toNat) :
    ∃ more, Rescans nHeight start (i + 1) (fun other => created other ∨ other ∈ outpoints)
      (outpoints.foldl (registerOutput nHeight i) running)
      (outpoints.foldl (scanOutput nHeight i) scan) older more := by
  induction outpoints generalizing created running scan newer with
  | nil => exact ⟨newer, rescans.congr nHeight start (by simp)⟩
  | cons outpoint rest ih =>
    obtain ⟨notLater, distinctRest⟩ := nodup_cons.mp distinct
    obtain ⟨smallest, countedRest⟩ := pairwise_cons.mp counted
    have first := rescans_output nHeight start i created running scan older newer outpoint rescans
      (new outpoint mem_cons_self) fun pillar member =>
        last pillar member outpoint mem_cons_self
    have stillNew : ∀ other ∈ rest,
        (registerOutput nHeight i running outpoint).isPillar other = false := by
      intro other member
      rw [Bool.eq_false_iff, ne_eq, isPillar_of_lookup _ _ first.inOrder.mapped, first.listed,
        ← append_assoc, map_append, mem_append, ← rescans.listed,
        ← isPillar_of_lookup running _ rescans.inOrder.mapped,
        new other (mem_cons_of_mem _ member)]
      intro either
      obtain old | same := either
      · cases old
      · rw [map_singleton, mem_singleton] at same
        rw [same] at member
        exact notLater member
    have stillLast : ∀ pillar ∈ older ++ (newer ++ [(outpoint, (nHeight, i))]),
        ∀ other ∈ rest, lessThanKey pillar (other, (nHeight, i)) = true := by
      intro pillar member other later
      rw [← append_assoc, mem_append, mem_singleton] at member
      obtain old | same := member
      · exact last pillar old other (mem_cons_of_mem _ later)
      · rw [same, lessThanKey_iff]
        exact Or.inr ⟨rfl, Or.inr ⟨rfl, smallest other later⟩⟩
    obtain ⟨more, done⟩ := ih _ _ _ _ first stillNew stillLast distinctRest countedRest
    refine ⟨more, done.congr nHeight start ?_⟩
    intro other
    rw [mem_cons, or_assoc]

/-- A collateral that is spent leaves the running register, and the scan if the
block has created it. -/
theorem rescans_input (txin : CTxIn)
    (rescans : Rescans nHeight start i created running scan older newer) :
    Rescans nHeight start i (fun other => created other ∧ other ≠ txin.prevout)
      (releaseInput nHeight running txin) (scanInput nHeight scan txin)
      (older.filter fun pillar => pillar.1 != txin.prevout)
      (newer.filter fun pillar => pillar.1 != txin.prevout) := by
  have list := releaseInput_list nHeight rescans.inOrder txin
  have scanned : ∀ outpoint second,
      (scanInput nHeight scan txin).mPillarCollaterals.lookup outpoint = some second ↔
        (outpoint, second) ∈ newer.filter fun pillar => pillar.1 != txin.prevout := by
    unfold scanInput
    split
    · exact lookup_erase_iff _ _ _ rescans.scanned
    · rename_i absent
      rw [isPillar_of_lookup scan _ rescans.scanned] at absent
      rw [filter_eq_of_absent _ _ absent]
      exact rescans.scanned
  have counted : (scanInput nHeight scan txin).maxPillarsAllowed = if nHeight ≤ pliEnd then
      start + UInt32.ofNat (newer.filter fun pillar => pillar.1 != txin.prevout).length
      else start := by
    unfold scanInput
    split
    · rename_i present
      rw [isPillar_of_lookup scan _ rescans.scanned] at present
      have shorter := length_filter_of_present newer txin.prevout (rescans.newerOnce nHeight start)
        present
      dsimp only
      rw [rescans.counted, ← shorter]
      split
      · rw [UInt32.ofNat_add, ← UInt32.add_assoc]
        exact UInt32.add_sub_cancel _ _
      · rfl
    · rename_i absent
      rw [isPillar_of_lookup scan _ rescans.scanned] at absent
      rw [filter_eq_of_absent _ _ absent]
      exact rescans.counted
  constructor
  · exact rescans.inOrder.release nHeight txin
  · rw [list, rescans.listed, filter_append]
  · intro pillar member
    rw [← filter_append] at member
    exact rescans.reached pillar (mem_of_mem_filter member)
  · exact scanned
  · exact counted
  · intro outpoint
    rw [← rescans.fresh]
    simp only [mem_map, mem_filter, bne_iff_ne]
    constructor
    · intro present
      obtain ⟨pillar, ⟨member, kept⟩, same⟩ := present
      rw [← same]
      exact ⟨⟨pillar, member, rfl⟩, kept⟩
    · intro present
      obtain ⟨⟨pillar, member, same⟩, kept⟩ := present
      rw [← same] at kept
      exact ⟨pillar, ⟨member, kept⟩, same⟩

theorem rescans_inputs (i : Nat) (vin : List CTxIn) (created : COutPoint → Prop)
    (running scan : PillarRegister) (older newer : List Pillar)
    (rescans : Rescans nHeight start i created running scan older newer) :
    ∃ fewer more, (∀ pillar ∈ fewer, pillar ∈ older) ∧
      Rescans nHeight start i (fun other => created other ∧ ¬ ∃ txin ∈ vin, txin.prevout = other)
        (vin.foldl (releaseInput nHeight) running) (vin.foldl (scanInput nHeight) scan)
        fewer more := by
  induction vin generalizing created running scan older newer with
  | nil => exact ⟨older, newer, fun _ member => member, rescans.congr nHeight start (by simp)⟩
  | cons txin rest ih =>
    have first := rescans_input nHeight start i created running scan older newer txin rescans
    obtain ⟨fewer, more, kept, done⟩ := ih _ _ _ _ _ first
    refine ⟨fewer, more, fun pillar member => mem_of_mem_filter (kept pillar member),
      done.congr nHeight start ?_⟩
    intro other
    rw [exists_mem_cons_iff, not_or, and_assoc]
    apply and_congr_right
    intro _
    apply and_congr_left
    intro _
    exact ne_comm

theorem pillarOutPoints_rise (tx : CTransaction) (bound : tx.vout.length < 2 ^ 32) :
    (pillarOutPoints tx).Pairwise fun a b => a.n.toNat < b.n.toNat := by
  unfold pillarOutPoints
  rw [pairwise_filterMap, pairwise_iff_getElem]
  intro i j iBound jBound less first isFirst second isSecond
  rw [length_zipIdx] at iBound jBound
  rw [getElem_zipIdx] at isFirst isSecond
  have isFirst := (Option.ite_none_right_eq_some.mp isFirst).2
  have isSecond := (Option.ite_none_right_eq_some.mp isSecond).2
  cases isFirst
  cases isSecond
  unfold CTransaction.outPoint
  dsimp only
  rw [UInt32.toNat_ofNat_of_lt' (by rw [UInt32.size]; omega),
    UInt32.toNat_ofNat_of_lt' (by rw [UInt32.size]; omega)]
  omega

theorem rescans_transaction (i : Nat) (tx : CTransaction) (log : List Entry)
    (running scan : PillarRegister) (older newer : List Pillar)
    (rescans : Rescans nHeight start i (Live Creates Spends log) running scan older newer)
    (new : ∀ outpoint ∈ pillarOutPoints tx, running.isPillar outpoint = false)
    (distinct : (pillarOutPoints tx).Nodup) (bound : tx.vout.length < 2 ^ 32) :
    ∃ fewer more, (∀ pillar ∈ fewer, pillar ∈ older) ∧
      Rescans nHeight start (i + 1) (Live Creates Spends (log ++ [(nHeight, tx)]))
        (registerTransaction nHeight running (tx, i)) (scanTransaction nHeight scan (tx, i))
        fewer more := by
  have later : Rescans nHeight start (i + 1) (Live Creates Spends log) running scan older newer :=
    { rescans with
      reached := by
        intro pillar member
        have before := rescans.reached pillar member
        omega }
  have last : ∀ pillar ∈ older ++ newer, ∀ outpoint ∈ pillarOutPoints tx,
      lessThanKey pillar (outpoint, (nHeight, i)) = true := by
    intro pillar member outpoint _
    have before := rescans.reached pillar member
    rw [lessThanKey_iff]
    exact before.imp id fun here => ⟨here.1, Or.inl here.2⟩
  rcases rescans_outputs nHeight start i (pillarOutPoints tx) _ running scan older newer later new
    last distinct (pillarOutPoints_rise tx bound) with ⟨made, created⟩
  rcases rescans_inputs nHeight start (i + 1) tx.vin _ _ _ older made created with
    ⟨fewer, more, kept, done⟩
  refine ⟨fewer, more, kept, done.congr nHeight start ?_⟩
  intro outpoint
  rw [live_snoc]
  rfl

theorem rescans_transactions (vtx : List CTransaction) (i : Nat) (log : List Entry)
    (running scan : PillarRegister) (older newer : List Pillar)
    (rescans : Rescans nHeight start i (Live Creates Spends log) running scan older newer)
    (new : ∀ outpoint ∈ vtx.flatMap pillarOutPoints, running.isPillar outpoint = false)
    (distinct : (vtx.flatMap pillarOutPoints).Nodup)
    (bound : ∀ tx ∈ vtx, tx.vout.length < 2 ^ 32) :
    ∃ fewer more, (∀ pillar ∈ fewer, pillar ∈ older) ∧
      Rescans nHeight start (i + vtx.length)
        (Live Creates Spends (log ++ vtx.map fun tx => (nHeight, tx)))
        ((vtx.zipIdx i).foldl (registerTransaction nHeight) running)
        ((vtx.zipIdx i).foldl (scanTransaction nHeight) scan) fewer more := by
  induction vtx generalizing i log running scan older newer with
  | nil =>
    refine ⟨older, newer, fun _ member => member, ?_⟩
    rw [map_nil, append_nil]
    exact rescans
  | cons tx rest ih =>
    rw [flatMap_cons] at distinct new
    obtain ⟨distinctHere, distinctLater, apart⟩ := nodup_append'.mp distinct
    rcases rescans_transaction nHeight start i tx log running scan older newer rescans
      (fun outpoint member => new outpoint (mem_append_left _ member)) distinctHere
      (bound tx mem_cons_self) with ⟨fewer, more, kept, first⟩
    have stillNew : ∀ outpoint ∈ rest.flatMap pillarOutPoints,
        (registerTransaction nHeight running (tx, i)).isPillar outpoint = false := by
      intro outpoint member
      rw [Bool.eq_false_iff]
      intro present
      rw [isPillar_of_lookup _ _ first.inOrder.mapped, first.listed, map_append,
        mem_append] at present
      obtain old | made := present
      · obtain ⟨pillar, inFewer, same⟩ := mem_map.mp old
        have unseen := new outpoint (mem_append_right _ member)
        rw [Bool.eq_false_iff, ne_eq, isPillar_of_lookup _ _ rescans.inOrder.mapped,
          rescans.listed, ← same] at unseen
        exact unseen (mem_map_of_mem (mem_append_left _ (kept pillar inFewer)))
      · obtain ⟨either, _⟩ := (live_snoc _ _ _ _ _).mp ((first.fresh outpoint).mp made)
        obtain before | here := either
        · have unseen := new outpoint (mem_append_right _ member)
          rw [Bool.eq_false_iff, ne_eq, isPillar_of_lookup _ _ rescans.inOrder.mapped,
            rescans.listed, map_append] at unseen
          exact unseen (mem_append_right _ ((rescans.fresh outpoint).mpr before))
        · exact apart here member
    rcases ih (i + 1) (log ++ [(nHeight, tx)]) _ _ fewer more first stillNew distinctLater
      (fun other member => bound other (mem_cons_of_mem _ member)) with
      ⟨fewest, most, keptLater, done⟩
    refine ⟨fewest, most, fun pillar member => kept pillar (keptLater pillar member), ?_⟩
    rw [map_cons, append_cons, length_cons, ← Nat.add_assoc,
      Nat.add_right_comm]
    exact done

end Scanning

/-- The register of a chain is in order up to the height of the chain, and was
scanned last at that height. -/
structure ProcessedTo (register : PillarRegister) (nHeight : Int) : Prop where
  inOrder : InOrder register
  reached : ∀ pillar ∈ register.vPillarCollaterals, pillar.2.1 ≤ nHeight
  early : nHeight < pliStart → register = .empty
  scanned : pliStart ≤ nHeight → register.lastBlockScanned = UInt32.ofNat nHeight.toNat

theorem empty_inOrder : InOrder .empty where
  mapped := by
    intro outpoint second
    constructor
    · intro found
      cases found
    · intro member
      cases member
  once := nodup_nil
  ordered := List.Pairwise.nil

theorem rescans_block (nHeight : Int) (start : UInt32) (block : CBlock)
    (running scan : PillarRegister) (inOrder : InOrder running)
    (below : ∀ pillar ∈ running.vPillarCollaterals, pillar.2.1 < nHeight)
    (created : CreatesOnce running block) (bound : ∀ tx ∈ block.vtx, tx.vout.length < 2 ^ 32)
    (empty : scan.mPillarCollaterals = ∅) (allowed : scan.maxPillarsAllowed = start) :
    ∃ older newer, Rescans nHeight start block.vtx.length
      (Live Creates Spends (block.vtx.map fun tx => (nHeight, tx)))
      (block.vtx.zipIdx.foldl (registerTransaction nHeight) running)
      (block.vtx.zipIdx.foldl (scanTransaction nHeight) scan) older newer := by
  have before : Rescans nHeight start 0 (Live Creates Spends []) running scan
      running.vPillarCollaterals [] :=
    { inOrder := inOrder
      listed := (append_nil _).symm
      reached := by
        intro pillar member
        rw [append_nil] at member
        exact Or.inl (below pillar member)
      scanned := by
        intro outpoint second
        rw [empty]
        constructor
        · intro found
          cases found
        · intro member
          cases member
      counted := by
        rw [allowed]
        split
        · exact (UInt32.add_zero _).symm
        · rfl
      fresh := by
        intro outpoint
        constructor
        · intro member
          cases member
        · intro live
          exact absurd live (not_live_nil Creates Spends outpoint) }
  rcases rescans_transactions nHeight start block.vtx 0 [] running scan _ [] before created.2
    created.1 bound with ⟨older, newer, _, rescans⟩
  rw [Nat.zero_add] at rescans
  exact ⟨older, newer, rescans⟩

theorem registerBlock_processedTo (register : PillarRegister) (block : CBlock)
    (pprev : CBlockIndex) (processedTo : ProcessedTo register (CBlockIndex.nHeight pprev))
    (created : CreatesOnce register block) (bound : ∀ tx ∈ block.vtx, tx.vout.length < 2 ^ 32) :
    ProcessedTo (registerBlock register block pprev) (CBlockIndex.nHeight (block :: pprev)) := by
  have height := CBlockIndex.nHeight_cons block pprev
  unfold registerBlock
  dsimp only
  split
  · rename_i counted
    rcases rescans_block (CBlockIndex.nHeight (block :: pprev)) register.maxPillarsAllowed block
      register { register with mPillarCollaterals := ∅ } processedTo.inOrder
      (fun pillar member => by
        have before := processedTo.reached pillar member
        omega) created bound rfl rfl with ⟨older, newer, rescans⟩
    constructor
    · exact ⟨rescans.inOrder.mapped, rescans.inOrder.once, rescans.inOrder.ordered⟩
    · intro pillar member
      have listed : pillar ∈ older ++ newer := by
        rw [← rescans.listed]
        exact member
      have before := rescans.reached pillar listed
      omega
    · intro early
      omega
    · intro _
      rfl
  · rename_i early
    constructor
    · exact processedTo.inOrder
    · intro pillar member
      have before := processedTo.reached pillar member
      omega
    · intro _
      exact processedTo.early (by omega)
    · intro late
      exact absurd late early

theorem processed_processedTo (chain : CBlockIndex) (registrable : Registrable chain) :
    ProcessedTo (processed chain) (CBlockIndex.nHeight chain) := by
  induction chain with
  | nil =>
    constructor
    · exact empty_inOrder
    · intro pillar member
      cases member
    · intro _
      rfl
    · intro late
      exact absurd late (by decide)
  | cons block pprev ih =>
    obtain ⟨before, created, bound⟩ := registrable
    exact registerBlock_processedTo _ block pprev (ih before) created bound

section Restoring

theorem insertPillar_lookup (register : PillarRegister) (pillar : Pillar) (known : Pillar → Prop)
    (mapped : ∀ outpoint second, register.mPillarCollaterals.lookup outpoint = some second ↔
      known (outpoint, second))
    (same : ∀ other, known other → other.1 = pillar.1 → other = pillar) (outpoint : COutPoint)
    (second : Int × Nat) :
    (insertPillar register pillar).mPillarCollaterals.lookup outpoint = some second ↔
      known (outpoint, second) ∨ (outpoint, second) = pillar := by
  unfold insertPillar PillarRegister.isPillar
  dsimp only
  split
  · rename_i present
    obtain ⟨value, found⟩ := Option.isSome_iff_exists.mp present
    have isKnown := (mapped _ _).mp found
    have isPillar := same _ isKnown rfl
    rw [mapped]
    constructor
    · exact Or.inl
    · intro either
      obtain old | new := either
      · exact old
      · rw [new, ← isPillar]
        exact isKnown
  · rename_i absent
    by_cases key : outpoint = pillar.1
    · rw [key, AList.lookup_insert]
      constructor
      · intro found
        cases found
        exact Or.inr rfl
      · intro either
        obtain old | new := either
        · exact absurd (Option.isSome_iff_exists.mpr ⟨_, (mapped _ _).mpr old⟩) absent
        · rw [← new]
    · rw [AList.lookup_insert_ne key, mapped]
      constructor
      · exact Or.inl
      · intro either
        obtain old | new := either
        · exact old
        · exact absurd (congrArg Prod.fst new) key

variable (list : List Pillar) (register : PillarRegister)

theorem insertPillars_lookup (known : Pillar → Prop)
    (mapped : ∀ outpoint second, register.mPillarCollaterals.lookup outpoint = some second ↔
      known (outpoint, second))
    (once : (list.map Prod.fst).Nodup)
    (same : ∀ other, known other → ∀ pillar ∈ list, other.1 = pillar.1 → other = pillar)
    (outpoint : COutPoint) (second : Int × Nat) :
    (list.foldl insertPillar register).mPillarCollaterals.lookup outpoint = some second ↔
      known (outpoint, second) ∨ (outpoint, second) ∈ list := by
  induction list generalizing register known with
  | nil =>
    rw [foldl_nil, mapped]
    simp
  | cons pillar rest ih =>
    rw [map_cons, nodup_cons] at once
    have first := insertPillar_lookup register pillar known mapped fun other isKnown =>
      same other isKnown pillar mem_cons_self
    rw [foldl_cons, ih _ (fun other => known other ∨ other = pillar) first once.2,
      mem_cons, or_assoc]
    intro other either later member key
    obtain old | new := either
    · exact same other old later (mem_cons_of_mem _ member) key
    · rw [new] at key
      exact absurd (mem_map.mpr ⟨later, member, key.symm⟩) once.1

theorem insertPillars_allowed :
    (list.foldl insertPillar register).maxPillarsAllowed = register.maxPillarsAllowed := by
  induction list generalizing register with
  | nil => rfl
  | cons pillar rest ih => exact ih _

theorem scanTransactions_list (left : Int) (numbered : List (CTransaction × Nat))
    (register : PillarRegister) :
    (numbered.foldl (scanTransaction left) register).vPillarCollaterals =
      register.vPillarCollaterals := by
  have outputs : ∀ (outpoints : List COutPoint) (i : Nat) (before : PillarRegister),
      (outpoints.foldl (scanOutput left i) before).vPillarCollaterals =
        before.vPillarCollaterals := by
    intro outpoints i
    induction outpoints with
    | nil => exact fun _ => rfl
    | cons outpoint rest ih =>
      intro before
      rw [foldl_cons, ih]
      unfold scanOutput insertPillar
      split <;> rfl
  have inputs : ∀ (vin : List CTxIn) (before : PillarRegister),
      (vin.foldl (scanInput left) before).vPillarCollaterals = before.vPillarCollaterals := by
    intro vin
    induction vin with
    | nil => exact fun _ => rfl
    | cons txin rest ih =>
      intro before
      rw [foldl_cons, ih]
      unfold scanInput
      split <;> rfl
  induction numbered generalizing register with
  | nil => rfl
  | cons one rest ih =>
    rw [foldl_cons, ih]
    unfold scanTransaction
    rw [inputs, outputs]

variable (readBlockFromDisk : CBlockIndex → Option CBlock)
  (hashOrder : (AList fun _ : COutPoint => Int × Nat) → List Pillar)

/-- What the scan has found and the list together make the running register
again, whatever the order of the map. -/
theorem list_of_map (map : AList fun _ : COutPoint => Int × Nat) (list : List Pillar)
    (shuffles : (hashOrder map).Perm (map.entries.map fun entry => (entry.1, entry.2)))
    (mapped : ∀ outpoint second, map.lookup outpoint = some second ↔ (outpoint, second) ∈ list)
    (once : (list.map Prod.fst).Nodup)
    (ordered : list.Pairwise fun a b => lessThanKey a b = true) :
    (hashOrder map).mergeSort (fun a b => !lessThanKey b a) = list := by
  apply sort_of_perm list _ _ ordered
  apply shuffles.trans
  have entriesOnce : (map.entries.map fun entry => (entry.1, entry.2)).Nodup := by
    apply List.Nodup.of_map Prod.fst
    rw [map_map]
    exact map.nodupKeys
  rw [perm_ext_iff_of_nodup entriesOnce (List.Nodup.of_map Prod.fst once)]
  intro pillar
  rw [mem_map, ← mapped pillar.1 pillar.2, ← Option.mem_def, AList.mem_lookup_iff]
  constructor
  · intro listed
    obtain ⟨entry, member, rfl⟩ := listed
    exact member
  · intro member
    exact ⟨⟨pillar.1, pillar.2⟩, member, rfl⟩

/-- After a scan that has found nothing but entries of the list, list and map are
those of the running node. -/
theorem rebuildPillars_same (running scanned : PillarRegister) (newer : List Pillar)
    (shuffles : ∀ map, (hashOrder map).Perm (map.entries.map fun entry => (entry.1, entry.2)))
    (inOrder : InOrder running)
    (saved : scanned.vPillarCollaterals = running.vPillarCollaterals)
    (found : ∀ outpoint second, scanned.mPillarCollaterals.lookup outpoint = some second ↔
      (outpoint, second) ∈ newer)
    (listed : ∀ pillar ∈ newer, pillar ∈ running.vPillarCollaterals) :
    (rebuildPillars hashOrder scanned).vPillarCollaterals = running.vPillarCollaterals ∧
      ∀ outpoint, (rebuildPillars hashOrder scanned).mPillarCollaterals.lookup outpoint =
        running.mPillarCollaterals.lookup outpoint := by
  have mapped : ∀ outpoint second,
      (scanned.vPillarCollaterals.foldl insertPillar scanned).mPillarCollaterals.lookup outpoint =
        some second ↔ (outpoint, second) ∈ running.vPillarCollaterals := by
    intro outpoint second
    rw [saved, insertPillars_lookup _ _ (fun pillar => pillar ∈ newer) found inOrder.once]
    · constructor
      · intro either
        obtain new | old := either
        · exact listed _ new
        · exact old
      · exact Or.inr
    · intro other new pillar member key
      exact inj_on_of_nodup_map inOrder.once (listed other new) member key
  constructor
  · exact list_of_map hashOrder _ _ (shuffles _) mapped inOrder.once inOrder.ordered
  · intro outpoint
    apply Option.ext
    intro second
    unfold rebuildPillars
    rw [mapped, inOrder.mapped]

theorem rebuildPillars_allowed (scanned : PillarRegister) :
    (rebuildPillars hashOrder scanned).maxPillarsAllowed = scanned.maxPillarsAllowed :=
  insertPillars_allowed scanned.vPillarCollaterals scanned

theorem initPillars_early (chain : CBlockIndex) (register : PillarRegister)
    (present : 0 ≤ CBlockIndex.nHeight chain) (early : CBlockIndex.nHeight chain < pliStart) :
    initPillars readBlockFromDisk hashOrder chain register =
      some (rebuildPillars hashOrder register) := by
  have none : (CBlockIndex.nHeight chain % 2 ^ 32).toNat + 1 -
      max pliStart.toNat register.lastBlockScanned.toNat = 0 := by
    unfold pliStart at early ⊢
    omega
  unfold initPillars
  dsimp only
  rw [none]
  rfl

/-- From `PLI_START` on the block that was scanned last is scanned, which is the
tip. -/
theorem initPillars_tip (block : CBlock) (pprev : CBlockIndex) (register : PillarRegister)
    (read : readBlockFromDisk (block :: pprev) = some block) (bound : pprev.length < 2 ^ 31)
    (counted : pliStart ≤ CBlockIndex.nHeight (block :: pprev))
    (scanned : register.lastBlockScanned.toNat = pprev.length) :
    initPillars readBlockFromDisk hashOrder (block :: pprev) register =
      some (rebuildPillars hashOrder ((block.vtx.zipIdx.foldl (scanTransaction pprev.length)
        register).updateLastScannedBlock pprev.length)) := by
  have height : CBlockIndex.nHeight (block :: pprev) = pprev.length := by
    simp [CBlockIndex.nHeight]
  have first : max pliStart.toNat register.lastBlockScanned.toNat = pprev.length := by
    rw [height] at counted
    omega
  have one : (CBlockIndex.nHeight (block :: pprev) % 2 ^ 32).toNat + 1 - pprev.length = 1 := by
    omega
  have tip : CBlockIndex.atHeight (block :: pprev) pprev.length = block :: pprev := by
    rw [← height]
    exact CBlockIndex.atHeight_of_suffix _ _ (suffix_refl _) (cons_ne_nil _ _)
  unfold initPillars
  dsimp only
  rw [first, one, range'_one, foldlM_cons, scanBlock, tip, read]
  rfl

/-- A restarted node has the running one's list and map, and counts the tip's collaterals again. -/
theorem restart_result (chain : CBlockIndex)
    (reads : ∀ (block : CBlock) (pprev : CBlockIndex), block :: pprev <:+ chain →
      readBlockFromDisk (block :: pprev) = some block)
    (shuffles : ∀ map, (hashOrder map).Perm (map.entries.map fun entry => (entry.1, entry.2)))
    (registrable : Registrable chain) (present : chain ≠ [])
    (bound : chain.length < 2 ^ 31) :
    ∃ restarted, restart readBlockFromDisk hashOrder chain (processed chain) = some restarted ∧
      restarted.vPillarCollaterals = (processed chain).vPillarCollaterals ∧
      (∀ outpoint, restarted.mPillarCollaterals.lookup outpoint =
        (processed chain).mPillarCollaterals.lookup outpoint) ∧
      restarted.maxPillarsAllowed =
        if pliStart ≤ CBlockIndex.nHeight chain ∧ CBlockIndex.nHeight chain ≤ pliEnd then
          (processed chain).maxPillarsAllowed + UInt32.ofNat (tipPillars chain).ncard
        else (processed chain).maxPillarsAllowed := by
  obtain ⟨block, pprev, rfl⟩ := exists_cons_of_ne_nil present
  have height : CBlockIndex.nHeight (block :: pprev) = pprev.length := by
    simp [CBlockIndex.nHeight]
  have processedTo := processed_processedTo (block :: pprev) registrable
  by_cases counted : pliStart ≤ CBlockIndex.nHeight (block :: pprev)
  · have here : (processed (block :: pprev)).lastBlockScanned.toNat = pprev.length := by
      rw [processedTo.scanned counted, height, Int.toNat_natCast, UInt32.toNat_ofNat_of_lt']
      rw [length_cons] at bound
      rw [UInt32.size]
      omega
    have before := processed_processedTo pprev registrable.1
    rcases rescans_block pprev.length (processed (block :: pprev)).maxPillarsAllowed block
      (processed pprev) (loadRegister (saveRegister (processed (block :: pprev)))) before.inOrder
      (fun pillar member => by
        have reached := before.reached pillar member
        rw [CBlockIndex.nHeight_cons] at height
        omega) registrable.2.1 registrable.2.2 rfl rfl with ⟨older, newer, rescans⟩
    have register : processed (block :: pprev) =
        (block.vtx.zipIdx.foldl (registerTransaction pprev.length)
          (processed pprev)).updateLastScannedBlock pprev.length := by
      rw [processed, registerBlock, if_pos counted, height]
    have list : (processed (block :: pprev)).vPillarCollaterals = older ++ newer := by
      rw [register]
      exact rescans.listed
    have done := initPillars_tip readBlockFromDisk hashOrder block pprev
      (loadRegister (saveRegister (processed (block :: pprev))))
      (reads block pprev (suffix_refl _)) (by rw [length_cons] at bound; omega) counted
      here
    have same := rebuildPillars_same hashOrder (processed (block :: pprev))
      ((block.vtx.zipIdx.foldl (scanTransaction pprev.length) (loadRegister (saveRegister
        (processed (block :: pprev))))).updateLastScannedBlock pprev.length) newer shuffles
      processedTo.inOrder (scanTransactions_list _ _ _) rescans.scanned (by
        intro pillar member
        rw [list]
        exact mem_append_right _ member)
    refine ⟨_, done, same.1, same.2, ?_⟩
    have number : (tipPillars (block :: pprev)).ncard = newer.length := by
      rw [← length_map Prod.fst]
      apply ncard_of_listed _ _ _ (rescans.newerOnce _ _)
      intro outpoint
      rw [rescans.fresh, tipPillars, height]
      rfl
    rw [rebuildPillars_allowed, number, height]
    refine rescans.counted.trans ?_
    rw [height] at counted
    simp only [counted, true_and]
  · have early := initPillars_early readBlockFromDisk hashOrder (block :: pprev)
      (loadRegister (saveRegister (processed (block :: pprev)))) (by omega) (by omega)
    have nothing : (processed (block :: pprev)).vPillarCollaterals = [] := by
      rw [processedTo.early (by omega)]
      rfl
    have same := rebuildPillars_same hashOrder (processed (block :: pprev))
      (loadRegister (saveRegister (processed (block :: pprev)))) [] shuffles processedTo.inOrder rfl
      (fun outpoint second => by
        constructor
        · intro found
          cases found
        · intro member
          cases member)
      (fun pillar member => by cases member)
    refine ⟨_, early, same.1, same.2, ?_⟩
    rw [if_neg (fun both => counted both.1)]
    exact rebuildPillars_allowed hashOrder _

end Restoring

section Agreement

variable (readBlockFromDisk : CBlockIndex → Option CBlock)
  (hashOrder : (AList fun _ : COutPoint => Int × Nat) → List Pillar)

/-- A restarted node has the list, the order, the map and the number allowed of the running one if
and only if the height is outside of the pillar stage or the tip creates no collateral that it does
not spend. -/
theorem restart_agrees_iff (chain : CBlockIndex)
    (reads : ∀ (block : CBlock) (pprev : CBlockIndex), block :: pprev <:+ chain →
      readBlockFromDisk (block :: pprev) = some block)
    (shuffles : ∀ map, (hashOrder map).Perm (map.entries.map fun entry => (entry.1, entry.2)))
    (registrable : Registrable chain) (present : chain ≠ []) (bound : chain.length < 2 ^ 31) :
    (∃ restarted, restart readBlockFromDisk hashOrder chain (processed chain) = some restarted ∧
      SameRegister restarted (processed chain)) ↔
      CBlockIndex.nHeight chain < pliStart ∨ pliEnd < CBlockIndex.nHeight chain ∨
        (tipPillars chain).ncard % 2 ^ 32 = 0 := by
  rcases restart_result readBlockFromDisk hashOrder chain reads shuffles registrable present bound
    with ⟨restarted, done, list, map, allowed⟩
  have zero : UInt32.ofNat (tipPillars chain).ncard = 0 ↔ (tipPillars chain).ncard % 2 ^ 32 = 0 := by
    rw [← UInt32.toNat_inj, UInt32.toNat_ofNat']
    rfl
  constructor
  · intro agrees
    obtain ⟨other, same, register⟩ := agrees
    rw [done] at same
    cases same
    have number := register.allowed
    rw [allowed] at number
    by_cases inStage : pliStart ≤ CBlockIndex.nHeight chain ∧ CBlockIndex.nHeight chain ≤ pliEnd
    · rw [if_pos inStage, UInt32.add_eq_left] at number
      exact Or.inr (Or.inr (zero.mp number))
    · omega
  · intro condition
    refine ⟨restarted, done, list, map, ?_⟩
    rw [allowed]
    split
    · rename_i inStage
      obtain early | late | none := condition
      · omega
      · omega
      · rw [UInt32.add_eq_left]
        exact zero.mpr none
    · rfl

end Agreement

section Examples

variable (chain : CBlockIndex)

theorem coinbaseChain_registrable (height : Nat) (early : height < 365760) :
    Registrable (coinbaseChain height) := by
  induction height with
  | zero =>
    refine ⟨trivial, ⟨nodup_nil, ?_⟩, ?_⟩
    · intro outpoint member
      cases member
    · intro tx member
      cases member
  | succ height ih =>
    have before := ih (by omega)
    refine ⟨before, ⟨?_, ?_⟩, ?_⟩
    · exact nodup_nil
    · intro outpoint member
      cases member
    · intro tx member
      rw [mem_singleton.mp member]
      exact Nat.one_lt_two_pow (by decide)

/-- The disk gives each block back, and the map is gone through as it is. -/
def readTip (pindex : CBlockIndex) : Option CBlock := pindex.head?

def entryOrder (map : AList fun _ : COutPoint => Int × Nat) : List Pillar :=
  map.entries.map fun entry => (entry.1, entry.2)

theorem readTip_reads (block : CBlock) (pprev : CBlockIndex) (_ : block :: pprev <:+ chain) :
    readTip (block :: pprev) = some block := rfl

theorem early_registrable (height : CBlockIndex.nHeight chain = 365759)
    (registrable : Registrable chain) : Registrable (pillarBlock :: chain) := by
  have empty := (processed_processedTo chain registrable).early (by rw [height]; decide)
  refine ⟨registrable, ⟨by decide, ?_⟩, ?_⟩
  · intro outpoint _
    rw [empty]
    rfl
  · intro tx member
    have bounds : ∀ other ∈ pillarBlock.vtx, other.vout.length = 1 := by decide
    rw [bounds tx member]
    decide

theorem pillarBlock_creates : (tipPillars (pillarBlock :: chain)).ncard = 1 := by
  have listed : ∀ outpoint, outpoint ∈ [({ hash := 41, n := 0 } : COutPoint)] ↔
      outpoint ∈ tipPillars (pillarBlock :: chain) := by
    intro outpoint
    rw [tipPillars, Set.mem_ofPred_eq]
    change _ ↔ Live Creates Spends ([(_, coinbaseTx 1000004)] ++ [(_, pillarTx)]) outpoint
    rw [live_snoc, ← nil_append [(_, coinbaseTx 1000004)], live_snoc]
    unfold Creates Spends
    have coinbase : pillarOutPoints (coinbaseTx 1000004) = [] := by decide
    have payment : pillarOutPoints pillarTx = [{ hash := 41, n := 0 }] := by decide
    rw [coinbase, payment]
    constructor
    · intro member
      refine ⟨Or.inr member, ?_⟩
      rw [mem_singleton.mp member]
      change ¬ ∃ txin ∈ pillarTx.vin, txin.prevout = { hash := 41, n := 0 }
      decide
    · intro live
      obtain ⟨none | made, _⟩ | made := live.1
      · exact absurd none (not_live_nil _ _ _)
      · cases made
      · exact made
  rw [ncard_of_listed _ _ listed (nodup_singleton _)]
  rfl

theorem plainBlock_creates : (tipPillars (plainBlock :: chain)).ncard = 0 := by
  have none : tipPillars (plainBlock :: chain) = ∅ := by
    apply Set.eq_empty_of_forall_notMem
    intro outpoint live
    rw [tipPillars, Set.mem_ofPred_eq] at live
    change Live Creates Spends ([] ++ [(_, coinbaseTx 1000002)]) outpoint at live
    rw [live_snoc] at live
    obtain none | made := live.1
    · exact not_live_nil _ _ _ none
    · unfold Creates at made
      rw [show pillarOutPoints (coinbaseTx 1000002) = [] by decide] at made
      cases made
  rw [none, Set.ncard_empty]

end Examples

/-- The block that creates a collateral is the tip, and is counted twice. -/
theorem restart_counts_tip_twice :
    ¬ ∀ (readBlockFromDisk : CBlockIndex → Option CBlock)
      (hashOrder : (AList fun _ : COutPoint => Int × Nat) → List Pillar) (chain : CBlockIndex),
      (∀ (block : CBlock) (pprev : CBlockIndex), block :: pprev <:+ chain →
        readBlockFromDisk (block :: pprev) = some block) →
      (∀ map, (hashOrder map).Perm (map.entries.map fun entry => (entry.1, entry.2))) →
      Registrable chain → chain ≠ [] → chain.length < 2 ^ 31 →
      ∃ restarted, restart readBlockFromDisk hashOrder chain (processed chain) = some restarted ∧
        SameRegister restarted (processed chain) := by
  intro agree
  have height := coinbaseChain_height 365759
  have below := coinbaseChain_registrable 365759 (by decide)
  generalize coinbaseChain 365759 = chain at height below
  have length : chain.length = 365760 := by
    unfold CBlockIndex.nHeight at height
    omega
  have registrable := early_registrable chain height below
  have present : pillarBlock :: chain ≠ [] := cons_ne_nil _ _
  have bound : (pillarBlock :: chain).length < 2 ^ 31 := by
    rw [length_cons, length]
    decide
  rcases restart_result readTip entryOrder (pillarBlock :: chain) (readTip_reads _)
    (fun _ => List.Perm.refl _) registrable present bound with ⟨other, done, _, _, allowed⟩
  rcases agree readTip entryOrder (pillarBlock :: chain) (readTip_reads _)
    (fun _ => List.Perm.refl _) registrable present bound with ⟨restarted, same, register⟩
  rw [done] at same
  cases same
  rw [register.allowed, pillarBlock_creates, CBlockIndex.nHeight_cons, height] at allowed
  rw [if_pos (by decide), UInt32.left_eq_add] at allowed
  exact absurd allowed (by decide)

/-- Behind that block nothing is counted twice. -/
theorem restart_agrees_above :
    ∃ chain, CBlockIndex.nHeight chain = 365761 ∧
      (processed chain).isPillar { hash := 41, n := 0 } = true ∧
      ∃ restarted, restart readTip entryOrder chain (processed chain) = some restarted ∧
        SameRegister restarted (processed chain) := by
  have height := coinbaseChain_height 365759
  have below := coinbaseChain_registrable 365759 (by decide)
  generalize coinbaseChain 365759 = chain at height below
  have empty := (processed_processedTo chain below).early (by rw [height]; decide)
  have length : chain.length = 365760 := by
    unfold CBlockIndex.nHeight at height
    omega
  have nothing : plainBlock.vtx.flatMap pillarOutPoints = [] := by decide
  have registrable : Registrable (plainBlock :: pillarBlock :: chain) := by
    refine ⟨early_registrable chain height below, ?_, ?_⟩
    · unfold CreatesOnce
      rw [nothing]
      exact ⟨nodup_nil, fun _ member => by cases member⟩
    · intro tx member
      rw [mem_singleton.mp member]
      exact Nat.one_lt_two_pow (by decide)
  have bound : (plainBlock :: pillarBlock :: chain).length < 2 ^ 31 := by
    rw [length_cons, length_cons, length]
    decide
  refine ⟨plainBlock :: pillarBlock :: chain, ?_, ?_, ?_⟩
  · rw [CBlockIndex.nHeight_cons, CBlockIndex.nHeight_cons, height]
    rfl
  · rw [processed, processed, empty, registerBlock_at chain _ _ height, registerBlock,
      CBlockIndex.nHeight_cons, CBlockIndex.nHeight_cons, height]
    decide +kernel
  · exact (restart_agrees_iff readTip entryOrder _ (readTip_reads _) (fun _ => List.Perm.refl _)
      registrable (cons_ne_nil _ _) bound).mpr
      (Or.inr (Or.inr (by rw [plainBlock_creates, Nat.zero_mod])))

end ZenonCore.PillarRestart
