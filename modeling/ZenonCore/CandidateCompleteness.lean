import ZenonCore.BlockIndexShape

/-!
# No better chain is forgotten

Every good entry sorts below the tip, is a candidate, or sorts below a candidate whose whole
chain is good, as after a reorganisation that failed.
-/

namespace ZenonCore.CandidateCompleteness

open BlockIndex BlockIndexShape List Finset

/-- `BLOCK_VALID_SCRIPTS`, the level of the blocks that were connected before. -/
def scriptsValid (state : IndexState) (pindex : Nat) : Prop :=
  blockValidScripts ≤ (state.entry pindex).nValidity

/-- No mark on the entry or an ancestor, and all of them were connected before. -/
def Sound (state : IndexState) (pindex : Nat) : Prop :=
  ∀ other ∈ chainOf state.entry pindex,
    (state.entry other).failed = false ∧ scriptsValid state other

def Placed (state : IndexState) (pindex : Nat) : Prop :=
  state.belowTip pindex = true ∨ pindex ∈ state.setBlockIndexCandidates ∨
    ∃ candidate ∈ state.setBlockIndexCandidates, Sound state candidate ∧
      sortsBelow state.entry pindex candidate = true

structure Choice (state : IndexState) : Prop where
  candidates : ∀ pindex ∈ state.setBlockIndexCandidates, state.linked pindex = true
  active : ∀ tip, state.tip = some tip → ∀ other ∈ chainOf state.entry tip,
    state.linked other = true ∧ (state.entry other).failed = false ∧ scriptsValid state other
  placed : ∀ pindex, state.linked pindex = true → (state.entry pindex).failed = false →
    Placed state pindex

variable {state after : IndexState}

theorem belowTip_iff (pindex : Nat) :
    state.belowTip pindex = true ↔
      ∃ tip, state.tip = some tip ∧ sortsBelow state.entry pindex tip = true := by
  unfold IndexState.belowTip
  cases state.tip with
  | none => simp
  | some tip => simp

theorem contains_iff (pindex : Nat) :
    state.contains pindex = true ↔
      ∃ tip, state.tip = some tip ∧ pindex ∈ chainOf state.entry tip := by
  unfold IndexState.contains
  cases state.tip with
  | none => simp
  | some tip => simp

theorem belowTip_of_below {first second : Nat} (lower : sortsBelow state.entry first second = true)
    (below : state.belowTip second = true) : state.belowTip first = true := by
  rw [belowTip_iff] at below ⊢
  obtain ⟨tip, isTip, upper⟩ := below
  exact ⟨tip, isTip, sortsBelow_trans lower upper⟩

/-- Entries stay placed when the candidates that matter stay, or come to sort
below the tip. -/
theorem Placed.carry {pindex : Nat} (placed : Placed state pindex)
    (order : ∀ pa pb, sortsBelow after.entry pa pb = sortsBelow state.entry pa pb)
    (tip : state.belowTip pindex = true → Placed after pindex)
    (kept : ∀ candidate ∈ state.setBlockIndexCandidates,
      candidate = pindex ∨ Sound state candidate →
      candidate ∈ after.setBlockIndexCandidates ∨ after.belowTip candidate = true)
    (sound : ∀ candidate, Sound state candidate → Sound after candidate) :
    Placed after pindex := by
  obtain below | member | ⟨candidate, member, isSound, below⟩ := placed
  · exact tip below
  · obtain still | low := kept pindex member (Or.inl rfl)
    · exact Or.inr (Or.inl still)
    · exact Or.inl low
  · rw [← order] at below
    obtain still | low := kept candidate member (Or.inr isSound)
    · exact Or.inr (Or.inr ⟨candidate, still, sound candidate isSound, below⟩)
    · exact Or.inl (belowTip_of_below below low)

theorem Choice.tip_placed (choice : Choice state) {tip : Nat} (isTip : state.tip = some tip) :
    ∃ candidate ∈ state.setBlockIndexCandidates, Sound state candidate ∧
      (candidate = tip ∨ sortsBelow state.entry tip candidate = true) := by
  have active := choice.active tip isTip
  have own := active tip (mem_chainOf_self tip)
  obtain below | member | ⟨candidate, member, sound, below⟩ := choice.placed tip own.1 own.2.1
  · obtain ⟨other, isOther, impossible⟩ := (belowTip_iff tip).mp below
    rw [isTip] at isOther
    rw [← Option.some.inj isOther, sortsBelow_irrefl] at impossible
    cases impossible
  · exact ⟨tip, member, fun other inChain => (active other inChain).2, Or.inl rfl⟩
  · exact ⟨candidate, member, sound, Or.inr below⟩

theorem scriptsValid_of_same (same : SameIndex state after) {pindex : Nat}
    (before : scriptsValid state pindex) : scriptsValid after pindex :=
  Nat.le_trans before (same.entry pindex).nValidity

theorem Sound.carry (same : SameIndex state after) (grows : Grows state.entry) {pindex : Nat}
    (sound : Sound state pindex)
    (marks : ∀ other ∈ chainOf state.entry pindex, (state.entry other).failed = false →
      scriptsValid state other → (after.entry other).failed = false) :
    Sound after pindex := by
  intro other member
  rw [same.chainOf grows] at member
  obtain ⟨unmarked, connectedBefore⟩ := sound other member
  exact ⟨marks other member unmarked connectedBefore, scriptsValid_of_same same connectedBefore⟩

theorem choice_disconnect (shape : Shape state []) (choice : Choice state)
    (fork : Option Nat) (inChain : ∀ pindex, fork = some pindex → state.contains pindex = true) :
    Choice { state with tip := fork } where
  candidates := choice.candidates
  active := by
    intro tip isTip other member
    obtain ⟨old, isOld, lower⟩ := (contains_iff tip).mp (inChain tip isTip)
    exact choice.active old isOld other (chainOf_trans shape.grows lower member)
  placed := by
    intro pindex linked unmarked
    apply (choice.placed pindex linked unmarked).carry
    · exact fun _ _ => rfl
    · intro below
      obtain ⟨old, isOld, lower⟩ := (belowTip_iff pindex).mp below
      obtain ⟨candidate, member, sound, upper⟩ := choice.tip_placed isOld
      refine Or.inr (Or.inr ⟨candidate, member, sound, ?_⟩)
      obtain same | upper := upper
      · rw [same]
        exact lower
      · exact sortsBelow_trans lower upper
    · exact fun candidate member _ => Or.inl member
    · exact fun _ sound => sound

theorem raiseValidity_failed (pindex : CBlockIndex) (nUpTo : Nat) :
    (pindex.raiseValidity nUpTo).failed = pindex.failed := by
  unfold CBlockIndex.raiseValidity
  split
  · rfl
  · split
    · rfl
    · rfl

theorem setEntry_same {pindex : Nat} {value : CBlockIndex} (inside : pindex < state.count)
    (data : SameData (state.entry pindex) value) :
    SameIndex state (state.setEntry pindex value) where
  count := rfl
  entry := fun other => by
    by_cases same : other = pindex
    · subst same
      simp only [IndexState.setEntry, if_pos]
      exact data
    · simp only [IndexState.setEntry, if_neg same]
      exact SameData.refl _
  unlinked := rfl
  fresh := fun other outside => if_neg (by omega)

theorem connected_same {pindex : Nat} (inside : pindex < state.count) :
    SameIndex state (connected state pindex) := by
  have same := setEntry_same inside (SameData.raise (state.entry pindex) blockValidScripts)
  exact ⟨same.count, same.entry, same.unlinked, same.fresh⟩

theorem connected_failed {pindex : Nat} (other : Nat) :
    ((connected state pindex).entry other).failed = (state.entry other).failed := by
  by_cases same : other = pindex
  · subst same
    simp only [connected, pruneBlockIndexCandidates, IndexState.setEntry, if_pos]
    exact raiseValidity_failed _ _
  · simp only [connected, pruneBlockIndexCandidates, IndexState.setEntry, if_neg same]

theorem connected_other {pindex other : Nat} (different : other ≠ pindex) :
    (connected state pindex).entry other = state.entry other := if_neg different

theorem connected_scripts {pindex : Nat} (unmarked : (state.entry pindex).failed = false) :
    scriptsValid (connected state pindex) pindex := by
  unfold scriptsValid
  simp only [connected, pruneBlockIndexCandidates, IndexState.setEntry, if_pos,
    CBlockIndex.raiseValidity, unmarked, Bool.false_eq_true, if_false]
  split
  · exact Nat.le_refl _
  · rename_i enough
    exact Nat.le_of_not_lt enough

theorem mem_connected {pindex candidate : Nat}
    (member : candidate ∈ (connected state pindex).setBlockIndexCandidates) :
    candidate ∈ state.setBlockIndexCandidates := (mem_filter.mp member).1

theorem choice_connected (shape : Shape state []) (choice : Choice state) {pindex : Nat}
    (linked : state.linked pindex = true) (unmarked : (state.entry pindex).failed = false)
    (next : (state.entry pindex).pprev = state.tip) :
    Choice (connected state pindex) := by
  have same := connected_same (shape.lt_count linked)
  constructor
  · intro candidate member
    rw [same.linked]
    exact choice.candidates candidate (mem_connected member)
  · intro tip isTip other member
    rw [same.chainOf shape.grows] at member
    rw [same.linked, connected_failed]
    have isNew : tip = pindex := (Option.some.inj isTip).symm
    rw [isNew] at member
    have raised := connected_scripts unmarked
    cases parent : (state.entry pindex).pprev with
    | none =>
      rw [chainOf_root parent, List.mem_singleton] at member
      rw [member]
      exact ⟨linked, unmarked, raised⟩
    | some pprev =>
      obtain new | older := (mem_chainOf_iff shape.grows parent other).mp member
      · rw [new]
        exact ⟨linked, unmarked, raised⟩
      · rcases choice.active pprev (next.symm.trans parent) other older with
          ⟨olderLinked, olderUnmarked, scripts⟩
        exact ⟨olderLinked, olderUnmarked, scriptsValid_of_same same scripts⟩
  · intro other otherLinked otherUnmarked
    rw [same.linked] at otherLinked
    rw [connected_failed] at otherUnmarked
    apply (choice.placed other otherLinked otherUnmarked).carry same.sortsBelow
    · intro below
      left
      obtain ⟨old, isOld, lower⟩ := (belowTip_iff other).mp below
      apply (belowTip_iff other).mpr
      refine ⟨pindex, rfl, ?_⟩
      rw [same.sortsBelow]
      apply sortsBelow_trans lower
      rw [sortsBelow_iff]
      exact Or.inl (shape.grows pindex old (next.trans isOld)).2
    · intro candidate member _
      cases low : (connected state pindex).belowTip candidate with
      | true => exact Or.inr rfl
      | false =>
        left
        apply Finset.mem_filter.mpr
        refine ⟨member, ?_⟩
        rw [Bool.not_eq_true']
        exact low
    · intro candidate sound
      apply sound.carry same shape.grows
      intro _ _ before _
      rw [connected_failed]
      exact before

theorem invalidBlockFound_same {pindex : Nat} (inside : pindex < state.count) :
    SameIndex state (invalidBlockFound state pindex) := by
  have same := @setEntry_same state pindex { state.entry pindex with fFailedValid := true } inside
    ⟨rfl, rfl, rfl, rfl, rfl, rfl, Nat.le_refl _⟩
  exact ⟨same.count, same.entry, same.unlinked, same.fresh⟩

theorem invalidBlockFound_entry {pindex other : Nat} (different : other ≠ pindex) :
    (invalidBlockFound state pindex).entry other = state.entry other := if_neg different

theorem choice_invalidBlockFound (shape : Shape state []) (choice : Choice state)
    {pindex : Nat} (inside : pindex < state.count) (notYet : ¬ scriptsValid state pindex) :
    Choice (invalidBlockFound state pindex) := by
  have same := @invalidBlockFound_same state _ inside
  constructor
  · intro candidate member
    rw [same.linked]
    exact choice.candidates candidate (mem_of_mem_erase member)
  · intro tip isTip other member
    rw [same.chainOf shape.grows] at member
    obtain ⟨linked, unmarked, scripts⟩ := choice.active tip isTip other member
    have different : other ≠ pindex := by
      intro isBlock
      rw [isBlock] at scripts
      exact notYet scripts
    rw [same.linked, invalidBlockFound_entry different]
    exact ⟨linked, unmarked, scriptsValid_of_same same scripts⟩
  · intro other linked unmarked
    have different : other ≠ pindex := by
      intro isBlock
      rw [isBlock] at unmarked
      simp [invalidBlockFound, IndexState.setEntry, CBlockIndex.failed] at unmarked
    rw [same.linked] at linked
    rw [invalidBlockFound_entry different] at unmarked
    apply (choice.placed other linked unmarked).carry same.sortsBelow
    · intro below
      obtain ⟨tip, isTip, lower⟩ := (belowTip_iff other).mp below
      rw [← same.sortsBelow] at lower
      exact Or.inl ((belowTip_iff other).mpr ⟨tip, isTip, lower⟩)
    · intro candidate member reason
      left
      apply mem_erase.mpr
      refine ⟨fun isBlock => ?_, member⟩
      obtain isOther | sound := reason
      · exact different (isOther.symm.trans isBlock)
      · rw [isBlock] at sound
        exact notYet (sound pindex (mem_chainOf_self pindex)).2
    · intro candidate sound
      apply sound.carry same shape.grows
      intro another _ before scripts
      have different : another ≠ pindex := by
        intro isBlock
        rw [isBlock] at scripts
        exact notYet scripts
      rw [invalidBlockFound_entry different]
      exact before

theorem pathOf_active {pindex : Nat} (active : state.contains pindex = true) :
    pathOf state pindex = [] ∧ findFork state pindex = some pindex := by
  unfold pathOf findFork chainOf
  rw [chainFrom, takeWhile_cons_of_neg (by simp [active]),
    find?_cons_of_pos active]
  exact ⟨rfl, rfl⟩

theorem pathOf_root {pindex : Nat} (away : state.contains pindex = false)
    (root : (state.entry pindex).pprev = none) :
    pathOf state pindex = [pindex] ∧ findFork state pindex = none := by
  unfold pathOf findFork
  rw [chainOf_root root, takeWhile_cons_of_pos (by simp [away]),
    find?_cons_of_neg (by simp [away])]
  exact ⟨rfl, rfl⟩

theorem pathOf_child (grows : Grows state.entry) {pindex pprev : Nat}
    (away : state.contains pindex = false) (parent : (state.entry pindex).pprev = some pprev) :
    pathOf state pindex = pindex :: pathOf state pprev ∧
      findFork state pindex = findFork state pprev := by
  unfold pathOf findFork
  rw [chainOf_cons grows parent, takeWhile_cons_of_pos (by simp [away]),
    find?_cons_of_neg (by simp [away])]
  exact ⟨rfl, rfl⟩

theorem pathOf_subset (pindex other : Nat) (member : other ∈ pathOf state pindex) :
    other ∈ chainOf state.entry pindex := takeWhile_subset _ member

theorem findFork_active (pindex fork : Nat) (isFork : findFork state pindex = some fork) :
    state.contains fork = true := find?_some isFork

def Climbs (entry : Nat → CBlockIndex) : Option Nat → List Nat → Prop
  | _, [] => True
  | tip, pindex :: rest => (entry pindex).pprev = tip ∧ Climbs entry (some pindex) rest

def topOf (tip : Option Nat) (list : List Nat) : Option Nat :=
  list.foldl (fun _ pindex => some pindex) tip

theorem climbs_snoc (entry : Nat → CBlockIndex) (tip : Option Nat) (list : List Nat)
    (pindex : Nat) :
    Climbs entry tip (list ++ [pindex]) ↔
      Climbs entry tip list ∧ (entry pindex).pprev = topOf tip list := by
  induction list generalizing tip with
  | nil => simp [Climbs, topOf]
  | cons first rest ih =>
    rw [cons_append]
    simp only [Climbs, ih, topOf, foldl_cons, and_assoc]

theorem climbs_congr {entry entry' : Nat → CBlockIndex} (tip : Option Nat) (list : List Nat)
    (same : ∀ pindex, (entry' pindex).pprev = (entry pindex).pprev)
    (climbs : Climbs entry tip list) : Climbs entry' tip list := by
  induction list generalizing tip with
  | nil => trivial
  | cons first rest ih => exact ⟨(same first).trans climbs.1, ih _ climbs.2⟩

theorem path_climbs (grows : Grows state.entry) (pindex : Nat) :
    Climbs state.entry (findFork state pindex) (pathOf state pindex).reverse ∧
      topOf (findFork state pindex) (pathOf state pindex).reverse = some pindex := by
  induction pindex using chain_induction grows with
  | root pindex root =>
    cases active : state.contains pindex with
    | true =>
      rw [(pathOf_active active).1, (pathOf_active active).2]
      exact ⟨trivial, rfl⟩
    | false =>
      rw [(pathOf_root active root).1, (pathOf_root active root).2]
      exact ⟨⟨root, trivial⟩, rfl⟩
  | child pindex pprev parent ih =>
    cases active : state.contains pindex with
    | true =>
      rw [(pathOf_active active).1, (pathOf_active active).2]
      exact ⟨trivial, rfl⟩
    | false =>
      rw [(pathOf_child grows active parent).1, (pathOf_child grows active parent).2,
        reverse_cons, climbs_snoc]
      refine ⟨⟨ih.1, parent.trans ih.2.symm⟩, ?_⟩
      rw [topOf, foldl_append]
      rfl

section FindingCandidates

theorem not_above_of_below {entry : Nat → CBlockIndex} {first second third : Nat}
    (notAbove : sortsBelow entry first third = false)
    (below : sortsBelow entry first second = true) : sortsBelow entry second third = false := by
  by_contra above
  rw [Bool.not_eq_false] at above
  rw [sortsBelow_trans below above] at notAbove
  cases notAbove

def betterOf (state : IndexState) (best : Option Nat) (pindex : Nat) : Option Nat :=
  if pindex ∈ state.setBlockIndexCandidates then
    match best with
    | none => some pindex
    | some other => if sortsBelow state.entry other pindex then some pindex else best
  else best

theorem betterOf_other {pindex : Nat} (other : pindex ∉ state.setBlockIndexCandidates)
    (best : Option Nat) : betterOf state best pindex = best := if_neg other

theorem betterOf_first {pindex : Nat} (member : pindex ∈ state.setBlockIndexCandidates) :
    betterOf state none pindex = some pindex := if_pos member

theorem betterOf_next {pindex : Nat} (member : pindex ∈ state.setBlockIndexCandidates)
    (other : Nat) : betterOf state (some other) pindex =
      if sortsBelow state.entry other pindex then some pindex else some other := if_pos member

theorem betterOf_fold (list : List Nat) :
    (∀ found, list.foldl (betterOf state) none = some found →
      found ∈ state.setBlockIndexCandidates ∧
        ∀ other ∈ list, other ∈ state.setBlockIndexCandidates →
          sortsBelow state.entry found other = false) ∧
    (list.foldl (betterOf state) none = none →
      ∀ other ∈ list, other ∉ state.setBlockIndexCandidates) := by
  induction list using reverseRecOn with
  | nil => exact ⟨fun _ impossible => (by cases impossible), fun _ _ member => by cases member⟩
  | append_singleton front pindex ih =>
    rw [foldl_append, foldl_cons, foldl_nil]
    simp only [forall_mem_append, forall_mem_singleton]
    by_cases member : pindex ∈ state.setBlockIndexCandidates
    · cases best : front.foldl (betterOf state) none with
      | none =>
        rw [betterOf_first member]
        refine ⟨fun found isFound => ?_, fun impossible => by cases impossible⟩
        rw [← Option.some.inj isFound]
        exact ⟨member, fun other inFront inSet => absurd inSet (ih.2 best other inFront),
          fun _ => sortsBelow_irrefl pindex⟩
      | some old =>
        obtain ⟨oldMember, oldBest⟩ := ih.1 old best
        rw [betterOf_next member]
        split
        · rename_i below
          refine ⟨fun found isFound => ?_, fun impossible => by cases impossible⟩
          rw [← Option.some.inj isFound]
          exact ⟨member, fun other inFront inSet =>
            not_above_of_below (oldBest other inFront inSet) below,
            fun _ => sortsBelow_irrefl pindex⟩
        · rename_i notBelow
          refine ⟨fun found isFound => ?_, fun impossible => by cases impossible⟩
          rw [← Option.some.inj isFound]
          exact ⟨oldMember, oldBest, fun _ => by simpa using notBelow⟩
    · rw [betterOf_other member]
      exact ⟨fun found isFound => ⟨(ih.1 found isFound).1, (ih.1 found isFound).2,
        fun inSet => absurd inSet member⟩, fun isNone => ⟨ih.2 isNone, member⟩⟩

theorem bestCandidate_spec (shape : Shape state []) (choice : Choice state) :
    (∀ found, bestCandidate state = some found → found ∈ state.setBlockIndexCandidates ∧
      ∀ other ∈ state.setBlockIndexCandidates, sortsBelow state.entry found other = false) ∧
    (bestCandidate state = none → state.setBlockIndexCandidates = ∅) := by
  have fold := @betterOf_fold state (range state.count)
  have inRange : ∀ other ∈ state.setBlockIndexCandidates, other ∈ List.range state.count := by
    intro other member
    exact List.mem_range.mpr (shape.lt_count (choice.candidates other member))
  constructor
  · intro found isFound
    obtain ⟨member, best⟩ := fold.1 found isFound
    exact ⟨member, fun other inSet => best other (inRange other inSet) inSet⟩
  · intro isNone
    apply eq_empty_of_forall_notMem
    intro other member
    exact fold.2 isNone other (inRange other member) member

theorem takeWhile_newer (list : List Nat) (pindexTest : Nat)
    (decreasing : list.Pairwise fun later earlier => earlier < later) (member : pindexTest ∈ list)
    (other : Nat) (before : other ∈ list.takeWhile fun pindex => pindex != pindexTest) :
    pindexTest < other := by
  induction list with
  | nil => cases member
  | cons first rest ih =>
    rw [List.pairwise_cons] at decreasing
    by_cases isTest : first = pindexTest
    · rw [takeWhile_cons_of_neg (by simp [isTest])] at before
      cases before
    · rw [takeWhile_cons_of_pos (by simp [isTest])] at before
      have inRest := (mem_cons.mp member).resolve_left (Ne.symm isTest)
      obtain isFirst | later := mem_cons.mp before
      · rw [isFirst]
        exact decreasing.1 pindexTest inRest
      · exact ih decreasing.2 inRest later

structure Unusable (state : IndexState) (pindexNew pindexTest : Nat) : Prop where
  candidate : pindexNew ∈ state.setBlockIndexCandidates
  onPath : pindexTest ∈ pathOf state pindexNew
  failed : (state.entry pindexTest).failed = true

theorem unusable_of_found (shape : Shape state []) (choice : Choice state)
    {pindexNew pindexTest : Nat} (member : pindexNew ∈ state.setBlockIndexCandidates)
    (isTest : firstUnusable state pindexNew = some pindexTest) :
    Unusable state pindexNew pindexTest where
  candidate := member
  onPath := mem_of_find?_eq_some isTest
  failed := by
    have unusable := find?_some isTest
    simp only [Bool.or_eq_true, Bool.not_eq_true'] at unusable
    apply unusable.resolve_right
    intro missing
    have linked := linked_of_mem_chainOf shape (choice.candidates pindexNew member)
      (pathOf_subset pindexNew pindexTest (mem_of_find?_eq_some isTest))
    rw [(shape.linked pindexTest linked).1] at missing
    cases missing

variable {pindexNew pindexTest : Nat}

theorem Unusable.descends (shape : Shape state []) (unusable : Unusable state pindexNew pindexTest)
    (other : Nat) (removed : other ∈ pindexTest ::
      (pathOf state pindexNew).takeWhile fun pindex => pindex != pindexTest) :
    pindexTest ∈ chainOf state.entry other := by
  obtain same | above := mem_cons.mp removed
  · rw [same]
    exact mem_chainOf_self pindexTest
  · have decreasing := (chainOf_decreasing shape.grows pindexNew).sublist
      (takeWhile_sublist fun pindex => !state.contains pindex)
    have newer := takeWhile_newer (pathOf state pindexNew) pindexTest decreasing unusable.onPath
      other above
    exact chainOf_of_le shape.grows pindexNew other pindexTest
      (pathOf_subset pindexNew other (takeWhile_subset _ above))
      (pathOf_subset pindexNew pindexTest unusable.onPath) (Nat.le_of_lt newer)

theorem removeChain_entry (unusable : Unusable state pindexNew pindexTest) (other : Nat) :
    (removeChain state pindexNew pindexTest).entry other =
      if other ∈ (pathOf state pindexNew).takeWhile fun pindex => pindex != pindexTest then
        { state.entry other with fFailedChild := true }
      else state.entry other := by
  unfold removeChain
  simp only [unusable.failed, if_true]

theorem removeChain_scripts (unusable : Unusable state pindexNew pindexTest) (other : Nat)
    (scripts : scriptsValid (removeChain state pindexNew pindexTest) other) :
    scriptsValid state other := by
  unfold scriptsValid at scripts
  rw [removeChain_entry unusable] at scripts
  split at scripts
  · exact scripts
  · exact scripts

theorem removeChain_candidates (other : Nat) :
    other ∈ (removeChain state pindexNew pindexTest).setBlockIndexCandidates ↔
      other ∈ state.setBlockIndexCandidates ∧ other ∉ pindexTest ::
        (pathOf state pindexNew).takeWhile fun pindex => pindex != pindexTest := by
  unfold removeChain
  split
  · exact mem_filter
  · exact mem_filter

theorem removeChain_tip : (removeChain state pindexNew pindexTest).tip = state.tip := by
  unfold removeChain
  split
  · rfl
  · rfl

theorem removeChain_same (shape : Shape state []) (choice : Choice state)
    (unusable : Unusable state pindexNew pindexTest) :
    SameIndex state (removeChain state pindexNew pindexTest) where
  count := by
    unfold removeChain
    split
    · rfl
    · rfl
  entry := fun other => by
    rw [removeChain_entry unusable]
    split
    · exact ⟨rfl, rfl, rfl, rfl, rfl, rfl, Nat.le_refl _⟩
    · exact SameData.refl _
  unlinked := by
    unfold removeChain
    simp only [unusable.failed, if_true]
  fresh := fun other outside => by
    rw [removeChain_entry unusable, if_neg]
    intro above
    have inChain := pathOf_subset pindexNew other (takeWhile_subset _ above)
    have bound := chainOf_le shape.grows pindexNew other inChain
    have inside := shape.lt_count (choice.candidates pindexNew unusable.candidate)
    omega

theorem removeChain_unmarked (unusable : Unusable state pindexNew pindexTest) (other : Nat)
    (notAbove : other ∉ (pathOf state pindexNew).takeWhile fun pindex => pindex != pindexTest) :
    (removeChain state pindexNew pindexTest).entry other = state.entry other := by
  rw [removeChain_entry unusable, if_neg notAbove]

theorem removeChain_sound (shape : Shape state [])
    (unusable : Unusable state pindexNew pindexTest) (candidate : Nat)
    (sound : ∀ other ∈ chainOf state.entry candidate, (state.entry other).failed = false) :
    (candidate ∉ pindexTest :: (pathOf state pindexNew).takeWhile fun pindex =>
      pindex != pindexTest) ∧
    ∀ other ∈ chainOf state.entry candidate,
      ((removeChain state pindexNew pindexTest).entry other).failed = false := by
  have clear : ∀ other ∈ chainOf state.entry candidate, other ∉ pindexTest ::
      (pathOf state pindexNew).takeWhile fun pindex => pindex != pindexTest := by
    intro other member removed
    have marked := sound pindexTest
      (chainOf_trans shape.grows member (unusable.descends shape other removed))
    rw [unusable.failed] at marked
    cases marked
  refine ⟨clear candidate (mem_chainOf_self candidate), fun other member => ?_⟩
  rw [removeChain_unmarked unusable other fun above =>
    clear other member (mem_cons_of_mem _ above)]
  exact sound other member

theorem choice_removeChain (shape : Shape state []) (choice : Choice state)
    (unusable : Unusable state pindexNew pindexTest) :
    Choice (removeChain state pindexNew pindexTest) := by
  have same := removeChain_same shape choice unusable
  constructor
  · intro candidate member
    rw [same.linked]
    exact choice.candidates candidate ((removeChain_candidates candidate).mp member).1
  · intro tip isTip other member
    rw [removeChain_tip] at isTip
    rw [same.chainOf shape.grows] at member
    have active := choice.active tip isTip
    rw [same.linked]
    exact ⟨(active other member).1,
      (removeChain_sound shape unusable tip fun other inChain =>
        (active other inChain).2.1).2 other member,
      scriptsValid_of_same same (active other member).2.2⟩
  · intro other linked unmarked
    rw [same.linked] at linked
    have notAbove : other ∉ (pathOf state pindexNew).takeWhile fun pindex =>
        pindex != pindexTest := by
      intro above
      rw [removeChain_entry unusable, if_pos above] at unmarked
      simp [CBlockIndex.failed] at unmarked
    rw [removeChain_unmarked unusable other notAbove] at unmarked
    have notTest : other ≠ pindexTest := by
      intro isTest
      rw [isTest, unusable.failed] at unmarked
      cases unmarked
    apply (choice.placed other linked unmarked).carry same.sortsBelow
    · intro below
      left
      rw [belowTip_iff] at below ⊢
      rw [removeChain_tip]
      simp only [same.sortsBelow]
      exact below
    · intro candidate member reason
      left
      apply (removeChain_candidates candidate).mpr
      refine ⟨member, ?_⟩
      obtain isOther | sound := reason
      · rw [isOther]
        rw [List.mem_cons, not_or]
        exact ⟨notTest, notAbove⟩
      · exact (removeChain_sound shape unusable candidate fun another inChain =>
          (sound another inChain).1).1
    · intro candidate sound
      apply sound.carry same shape.grows
      intro another member _ _
      exact (removeChain_sound shape unusable candidate fun one inChain =>
        (sound one inChain).1).2 another member

structure Found (state after : IndexState) (result : Option Nat) : Prop where
  same : SameIndex state after
  tip : after.tip = state.tip
  scripts : ∀ pindex, scriptsValid after pindex → scriptsValid state pindex
  choice : Choice after
  empty : result = none → after.setBlockIndexCandidates = ∅
  best : ∀ found, result = some found → found ∈ after.setBlockIndexCandidates ∧
    (∀ other ∈ after.setBlockIndexCandidates, sortsBelow after.entry found other = false) ∧
    ∀ other ∈ pathOf after found, (after.entry other).failed = false

theorem removeChain_card (unusable : Unusable state pindexNew pindexTest) :
    (removeChain state pindexNew pindexTest).setBlockIndexCandidates.card <
      state.setBlockIndexCandidates.card := by
  apply Finset.card_lt_card
  rw [Finset.ssubset_iff_of_subset fun other member =>
    ((removeChain_candidates other).mp member).1]
  refine ⟨pindexNew, unusable.candidate, fun member => ?_⟩
  apply ((removeChain_candidates pindexNew).mp member).2
  have away : state.contains pindexNew = false := by
    by_contra active
    have onPath := unusable.onPath
    rw [(pathOf_active (by simpa using active)).1] at onPath
    cases onPath
  rw [List.mem_cons]
  by_cases isTest : pindexNew = pindexTest
  · exact Or.inl isTest
  · right
    unfold pathOf chainOf
    rw [chainFrom, List.takeWhile_cons_of_pos (by simp [away]),
      List.takeWhile_cons_of_pos (by simp [isTest])]
    exact List.mem_cons_self

theorem findMostWorkChain_spec (fuel : Nat) (shape : Shape state []) (choice : Choice state)
    (enough : state.setBlockIndexCandidates.card < fuel) :
    Found state (findMostWorkChain fuel state).1 (findMostWorkChain fuel state).2 := by
  induction fuel generalizing state with
  | zero => omega
  | succ fuel ih =>
    have bests := bestCandidate_spec shape choice
    simp only [findMostWorkChain]
    cases best : bestCandidate state with
    | none =>
      exact
        { same := SameIndex.refl state
          tip := rfl
          scripts := fun _ scripts => scripts
          choice := choice
          empty := fun _ => bests.2 best
          best := fun _ impossible => by cases impossible }
    | some found =>
      obtain ⟨member, top⟩ := bests.1 found best
      simp only
      cases test : firstUnusable state found with
      | none =>
        refine
          { same := SameIndex.refl state
            tip := rfl
            scripts := fun _ scripts => scripts
            choice := choice
            empty := fun impossible => by cases impossible
            best := fun other isOther => ?_ }
        rw [← Option.some.inj isOther]
        refine ⟨member, top, fun pindex onPath => ?_⟩
        have usable := find?_eq_none.mp test pindex onPath
        simp only [Bool.or_eq_true, not_or, Bool.not_eq_true] at usable
        exact usable.1
      | some pindexTest =>
        have unusable := unusable_of_found shape choice member test
        have same := removeChain_same shape choice unusable
        have fewer := removeChain_card unusable
        have later := ih (same.shape shape) (choice_removeChain shape choice unusable)
          (by omega)
        exact
          { same := same.trans later.same
            tip := later.tip.trans removeChain_tip
            scripts := fun pindex scripts =>
              removeChain_scripts unusable pindex (later.scripts pindex scripts)
            choice := later.choice
            empty := later.empty
            best := later.best }

end FindingCandidates

section Activating

/-- No block that was connected before is found invalid; system errors and
corrupted data may come at any time. -/
def Consistent (state : IndexState) (outcome : Nat → ConnectOutcome) : Prop :=
  ∀ pindex, outcome pindex = .invalid → ¬ scriptsValid state pindex

theorem Consistent.connected {outcome : Nat → ConnectOutcome} (consistent : Consistent state outcome)
    {pindex : Nat} (result : outcome pindex = .connected) :
    Consistent (connected state pindex) outcome := by
  intro other invalid
  have different : other ≠ pindex := by
    intro same
    rw [same, result] at invalid
    cases invalid
  unfold scriptsValid
  rw [connected_other different]
  exact consistent other invalid

def Settled (state : IndexState) : Prop :=
  ∀ other ∈ state.setBlockIndexCandidates,
    ∃ tip, state.tip = some tip ∧ sortsBelow state.entry tip other = false

variable (outcome : Nat → ConnectOutcome)

theorem connectBlocks_connected (pindexOldTip : Option Nat)
    (pindex : Nat) (rest : List Nat) (result : outcome pindex = .connected) :
    connectBlocks outcome pindexOldTip (pindex :: rest) state = connected state pindex ∨
      connectBlocks outcome pindexOldTip (pindex :: rest) state =
        connectBlocks outcome pindexOldTip rest (connected state pindex) := by
  simp only [connectBlocks, result]
  cases pindexOldTip with
  | none => exact Or.inl rfl
  | some old =>
    by_cases better : ((connected state pindex).entry old).nChainWork <
        ((connected state pindex).entry pindex).nChainWork
    · left
      simp only [better, decide_true, if_true]
    · right
      simp only [better, decide_false, Bool.false_eq_true, if_false]

theorem connectBlocks_spec (consistent : Consistent state outcome)
    (pindexOldTip : Option Nat) (list : List Nat) (shape : Shape state [])
    (choice : Choice state) (climbs : Climbs state.entry state.tip list)
    (usable : ∀ pindex ∈ list, state.linked pindex = true ∧ (state.entry pindex).failed = false) :
    SameIndex state (connectBlocks outcome pindexOldTip list state) ∧
      Choice (connectBlocks outcome pindexOldTip list state) ∧
      (connectBlocks outcome pindexOldTip list state).setBlockIndexCandidates ⊆
        state.setBlockIndexCandidates := by
  induction list generalizing state with
  | nil => exact ⟨SameIndex.refl state, choice, Finset.Subset.refl _⟩
  | cons pindex rest ih =>
    obtain ⟨linked, unmarked⟩ := usable pindex mem_cons_self
    cases result : outcome pindex with
    | connected =>
      have same := connected_same (shape.lt_count linked)
      have next := choice_connected shape choice linked unmarked climbs.1
      have fewer : (connected state pindex).setBlockIndexCandidates ⊆
          state.setBlockIndexCandidates := fun _ member => mem_connected member
      obtain ends | goesOn := connectBlocks_connected outcome pindexOldTip pindex rest result
      · rw [ends]
        exact ⟨same, next, fewer⟩
      · rw [goesOn]
        have later := ih (consistent.connected result) (same.shape shape) next
          (climbs_congr _ rest (fun other => (same.entry other).pprev) climbs.2)
          fun other member => by
            rw [same.linked, connected_failed]
            exact usable other (mem_cons_of_mem _ member)
        exact ⟨same.trans later.1, later.2.1, later.2.2.trans fewer⟩
    | invalid =>
      simp only [connectBlocks, result]
      exact ⟨invalidBlockFound_same (shape.lt_count linked),
        choice_invalidBlockFound shape choice (shape.lt_count linked)
          (consistent pindex result), erase_subset _ _⟩
    | corrupted =>
      simp only [connectBlocks, result]
      exact ⟨SameIndex.refl state, choice, Finset.Subset.refl _⟩
    | error =>
      simp only [connectBlocks, result]
      exact ⟨SameIndex.refl state, choice, Finset.Subset.refl _⟩

theorem settled_of_top {tip : Nat} (isTip : state.tip = some tip)
    (top : ∀ other ∈ state.setBlockIndexCandidates, sortsBelow state.entry tip other = false) :
    Settled state := fun other member => ⟨tip, isTip, top other member⟩

theorem settled_of_empty (empty : state.setBlockIndexCandidates = ∅) : Settled state := by
  intro other member
  rw [empty] at member
  cases member

/-- Where the loop ends, every usable entry sorts below the tip or is a candidate, and none has more
work. -/
theorem Settled.candidate (settled : Settled state) (choice : Choice state) {pindex : Nat}
    (linked : state.linked pindex = true) (unmarked : (state.entry pindex).failed = false) :
    state.belowTip pindex = true ∨ pindex ∈ state.setBlockIndexCandidates := by
  rcases choice.placed pindex linked unmarked with
    below | member | ⟨candidate, member, _, lower⟩
  · exact Or.inl below
  · exact Or.inr member
  · left
    obtain ⟨tip, isTip, top⟩ := settled candidate member
    apply (belowTip_iff pindex).mpr
    obtain upper | same := sortsBelow_or_eq top
    · exact ⟨tip, isTip, sortsBelow_trans lower upper⟩
    · rw [same] at lower
      exact ⟨tip, isTip, lower⟩

theorem Settled.work_le (settled : Settled state) (choice : Choice state) {pindex : Nat}
    (linked : state.linked pindex = true) (unmarked : (state.entry pindex).failed = false) :
    ∃ tip, state.tip = some tip ∧ (state.entry pindex).nChainWork ≤ (state.entry tip).nChainWork := by
  obtain below | member := settled.candidate choice linked unmarked
  · obtain ⟨tip, isTip, lower⟩ := (belowTip_iff pindex).mp below
    rw [sortsBelow_iff] at lower
    exact ⟨tip, isTip, by omega⟩
  · obtain ⟨tip, isTip, top⟩ := settled pindex member
    exact ⟨tip, isTip, work_le_of_not_sortsBelow top⟩

theorem activateBestChainStep_spec
    (consistent : Consistent state outcome) (shape : Shape state []) (choice : Choice state)
    (pindexMostWork : Nat) (member : pindexMostWork ∈ state.setBlockIndexCandidates)
    (clear : ∀ other ∈ pathOf state pindexMostWork, (state.entry other).failed = false) :
    SameIndex state (activateBestChainStep outcome state pindexMostWork) ∧
      Choice (activateBestChainStep outcome state pindexMostWork) ∧
      (activateBestChainStep outcome state pindexMostWork).setBlockIndexCandidates ⊆
        state.setBlockIndexCandidates := by
  have same : SameIndex state { state with tip := findFork state pindexMostWork } :=
    ⟨rfl, fun _ => SameData.refl _, rfl, fun _ _ => rfl⟩
  have back := choice_disconnect shape choice (findFork state pindexMostWork)
    fun fork isFork => findFork_active pindexMostWork fork isFork
  have still : Consistent { state with tip := findFork state pindexMostWork } outcome := consistent
  have connects := connectBlocks_spec outcome still state.tip
    (pathOf state pindexMostWork).reverse (same.shape shape) back
    (path_climbs shape.grows pindexMostWork).1 fun pindex onPath => by
      rw [mem_reverse] at onPath
      exact ⟨linked_of_mem_chainOf shape (choice.candidates pindexMostWork member)
        (pathOf_subset pindexMostWork pindex onPath), clear pindex onPath⟩
  exact ⟨same.trans connects.1, connects.2.1, connects.2.2⟩

theorem activateBestChain_spec
    (consistent : Consistent state outcome) (shape : Shape state [])
    (choice : Choice state) :
    SameIndex state (activateBestChain outcome state).1 ∧
      Choice (activateBestChain outcome state).1 ∧
      ((activateBestChain outcome state).2 = true →
        Settled (activateBestChain outcome state).1) := by
  have finds := findMostWorkChain_spec (state.setBlockIndexCandidates.card + 1) shape choice
    (Nat.lt_succ_self _)
  unfold activateBestChain
  cases found : findMostWorkChain (state.setBlockIndexCandidates.card + 1) state with
  | mk after result =>
    rw [found] at finds
    cases result with
    | none =>
      exact ⟨finds.same, finds.choice, fun _ =>
        settled_of_empty (finds.empty rfl)⟩
    | some pindexMostWork =>
      obtain ⟨member, top, clear⟩ := finds.best pindexMostWork rfl
      simp only
      split
      · rename_i isTip
        exact ⟨finds.same, finds.choice, fun _ =>
          settled_of_top isTip top⟩
      · have still : Consistent after outcome := fun pindex invalid scripts =>
          consistent pindex invalid (finds.scripts pindex scripts)
        have steps := activateBestChainStep_spec outcome still (finds.same.shape shape)
          finds.choice pindexMostWork member clear
        refine ⟨finds.same.trans steps.1, steps.2.1, fun settled => ?_⟩
        apply settled_of_top (of_decide_eq_true settled)
        intro other inSet
        rw [steps.1.sortsBelow]
        exact top other (steps.2.2 inSet)

end Activating

end ZenonCore.CandidateCompleteness
