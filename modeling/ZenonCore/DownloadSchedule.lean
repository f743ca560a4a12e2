import ZenonCore.BlockDownload

/-!
# What is downloaded next

The batches of a scan are the ancestors of the peer's best known block in turn, so that the
scan is one walk.
-/

namespace ZenonCore.DownloadSchedule

open Ancestors BlockDownload Library.Runs List Option
open OrphanPool (NodeId)
open PeerState Primitives SkipList

/-! ## The tree -/

def OneRoot (tree : Tree) : Prop :=
  ∀ (pindex : Nat) (entry : Entry), tree[pindex]? = some entry → entry.nHeight = 0 → pindex = 0

theorem oneRoot_step (tree next : Tree) (parent : Nat) (rooted : OneRoot tree)
    (added : addToBlockIndex tree (some parent) = some next) : OneRoot next := by
  unfold addToBlockIndex at added
  dsimp only at added
  split at added
  · cases added
  · obtain ⟨pskip, _, made⟩ := map_eq_some_iff.mp added
    intro pindex entry found root
    rw [← made] at found
    obtain before | ⟨_, same⟩ := getElem?_concat_cases tree _ entry pindex found
    · exact rooted pindex entry before root
    · rw [same] at root
      cases root

theorem run_oneRoot (parents : List Nat) (tree : Tree)
    (built : run addToBlockIndex [] (none :: parents.map some) = some tree) : OneRoot tree := by
  obtain ⟨genesis, first, rest⟩ := (run_cons_some _ _ _ _ _).mp built
  have start : OneRoot genesis := by
    intro pindex entry found _
    cases first
    cases pindex with
    | zero => rfl
    | succ other => cases found
  have guarded : AllSteps addToBlockIndex (fun _ (pprev : Pointer) => pprev.isSome = true) genesis
      (parents.map some) := by
    apply all_steps_of_events addToBlockIndex (fun pprev : Pointer => pprev.isSome = true)
    intro pprev listed
    obtain ⟨parent, _, same⟩ := mem_map.mp listed
    rw [← same]
    rfl
  apply invariant_of_guarded_run addToBlockIndex _ OneRoot _ genesis tree _ start guarded rest
  intro before pprev after rooted isSome added
  obtain ⟨parent, same⟩ := isSome_iff_exists.mp isSome
  rw [same] at added
  exact oneRoot_step before after parent rooted added

section Walks

variable (tree : Tree) (linked : Linked tree)

/-- The ancestor that an entry has at a height, with that height. -/
structure AncestorAt (best bestHeight height pindex : Nat) : Prop where
  within : height ≤ bestHeight
  reached : follow tree (bestHeight - height) best = some pindex
  there : ∃ entry, tree[pindex]? = some entry ∧ entry.nHeight = height

variable {tree}

include linked in
theorem ancestor_exists (best bestHeight height : Nat) (entry : Entry)
    (found : tree[best]? = some entry) (here : entry.nHeight = bestHeight)
    (within : height ≤ bestHeight) : ∃ pindex, AncestorAt tree best bestHeight height pindex := by
  rcases up_exists tree linked.forest (bestHeight - height) best entry found (by omega) with
    ⟨above, other, reached, there, sum⟩
  exact ⟨above, within, reached, other, there, by omega⟩

include linked in
theorem getAncestor_ancestor (best bestHeight height pindex : Nat) (entry : Entry)
    (found : tree[best]? = some entry) (here : entry.nHeight = bestHeight)
    (ancestor : AncestorAt tree best bestHeight height pindex) :
    getAncestor tree best height = some (some pindex) := by
  rw [getAncestor_eq tree linked best entry found height (by rw [here]; exact ancestor.within),
    here, ancestor.reached]

theorem AncestorAt.pprev {best bestHeight height pindex : Nat} {entry : Entry}
    (ancestor : AncestorAt tree best bestHeight (height + 1) pindex)
    (found : tree[pindex]? = some entry) :
    entry.pprev = follow tree (bestHeight - height) best := by
  have within := ancestor.within
  have split : bestHeight - height = bestHeight - (height + 1) + 1 := by omega
  have reached := ancestor.reached
  unfold follow at reached ⊢
  rw [split, up_add, reached, bind_some, up, found, bind_some]
  cases entry.pprev with
  | none => rfl
  | some above => rfl

include linked in
theorem parent_exists (pindex height : Nat) (entry : Entry) (found : tree[pindex]? = some entry)
    (here : entry.nHeight = height + 1) :
    ∃ parent above, entry.pprev = some parent ∧ tree[parent]? = some above ∧
      above.nHeight = height := by
  have placed := linked.forest pindex entry found
  unfold Placed at placed
  cases named : entry.pprev with
  | none =>
    rw [named] at placed
    dsimp only at placed
    omega
  | some parent =>
    rw [named] at placed
    obtain ⟨above, there, level⟩ := placed
    exact ⟨parent, above, rfl, there, by omega⟩

include linked in
theorem commonLoop_meets (rooted : OneRoot tree) (fuel pa pb height : Nat) (first second : Entry)
    (firstFound : tree[pa]? = some first) (secondFound : tree[pb]? = some second)
    (firstHeight : first.nHeight = height) (secondHeight : second.nHeight = height)
    (enough : height ≤ fuel) :
    ∃ common steps, commonLoop tree fuel (some pa) (some pb) = some (some common, some common) ∧
      steps ≤ height ∧ follow tree steps pb = some common := by
  induction height generalizing fuel pa pb first second with
  | zero =>
    have left := rooted pa first firstFound firstHeight
    have right := rooted pb second secondFound secondHeight
    refine ⟨pb, 0, ?_, Nat.le_refl 0, rfl⟩
    unfold commonLoop
    rw [left, right, if_pos rfl]
  | succ height ih =>
    unfold commonLoop
    by_cases same : pa = pb
    · rw [if_pos same, same]
      exact ⟨pb, 0, rfl, Nat.zero_le _, rfl⟩
    · rcases parent_exists linked pa height first firstFound firstHeight with
        ⟨left, leftEntry, leftNamed, leftFound, leftHeight⟩
      rcases parent_exists linked pb height second secondFound secondHeight with
        ⟨right, rightEntry, rightNamed, rightFound, rightHeight⟩
      cases fuel with
      | zero => exact absurd enough (Nat.not_succ_le_zero height)
      | succ fuel =>
        rcases ih fuel left right leftEntry rightEntry leftFound rightFound leftHeight
          rightHeight (Nat.le_of_succ_le_succ enough) with ⟨common, steps, meets, within, path⟩
        refine ⟨common, steps + 1, ?_, Nat.succ_le_succ within, ?_⟩
        · rw [if_neg same]
          dsimp only
          rw [firstFound, bind_some, secondFound, bind_some, leftNamed,
            rightNamed]
          exact meets
        · unfold follow at path ⊢
          rw [up, secondFound, bind_some, rightNamed, bind_some]
          exact path

include linked in
theorem lastCommonAncestor_spec (rooted : OneRoot tree) (pa pb : Nat) (first second : Entry)
    (firstFound : tree[pa]? = some first) (secondFound : tree[pb]? = some second) :
    ∃ common height, lastCommonAncestor tree pa pb = some (some common) ∧
      AncestorAt tree pb second.nHeight height common := by
  -- both walks start at the lower one of the two heights
  have start : ∃ left right leftEntry rightEntry height,
      (if second.nHeight < first.nHeight then getAncestor tree pa second.nHeight
        else some (some pa)) = some (some left) ∧
      (if first.nHeight < second.nHeight then getAncestor tree pb first.nHeight
        else some (some pb)) = some (some right) ∧
      tree[left]? = some leftEntry ∧ leftEntry.nHeight = height ∧
      tree[right]? = some rightEntry ∧ rightEntry.nHeight = height ∧ height ≤ first.nHeight ∧
      AncestorAt tree pb second.nHeight height right := by
    obtain lower | same | higher := Nat.lt_trichotomy first.nHeight second.nHeight
    · rcases ancestor_exists linked pb second.nHeight first.nHeight second secondFound rfl
        (Nat.le_of_lt lower) with ⟨right, ancestor⟩
      obtain ⟨rightEntry, rightFound, rightHeight⟩ := ancestor.there
      refine ⟨pa, right, first, rightEntry, first.nHeight, if_neg (Nat.lt_asymm lower), ?_,
        firstFound, rfl, rightFound, rightHeight, Nat.le_refl _, ancestor⟩
      rw [if_pos lower]
      exact getAncestor_ancestor linked pb _ _ right second secondFound rfl ancestor
    · refine ⟨pa, pb, first, second, first.nHeight, if_neg (by omega), if_neg (by omega),
        firstFound, rfl, secondFound, same.symm, Nat.le_refl _, Nat.le_of_eq same, ?_, second,
        secondFound, same.symm⟩
      rw [same, Nat.sub_self]
      rfl
    · rcases ancestor_exists linked pa first.nHeight second.nHeight first firstFound rfl
        (Nat.le_of_lt higher) with ⟨left, ancestor⟩
      obtain ⟨leftEntry, leftFound, leftHeight⟩ := ancestor.there
      refine ⟨left, pb, leftEntry, second, second.nHeight, ?_, if_neg (Nat.lt_asymm higher),
        leftFound, leftHeight, secondFound, rfl, Nat.le_of_lt higher, Nat.le_refl _, ?_, second,
        secondFound, rfl⟩
      · rw [if_pos higher]
        exact getAncestor_ancestor linked pa _ _ left first firstFound rfl ancestor
      · rw [Nat.sub_self]
        rfl
  rcases start with ⟨left, right, leftEntry, rightEntry, height, fromFirst, fromSecond, leftFound,
    leftHeight, rightFound, rightHeight, within, ancestor⟩
  rcases commonLoop_meets linked rooted first.nHeight left right height leftEntry rightEntry
    leftFound rightFound leftHeight rightHeight within with ⟨common, steps, meets, few, path⟩
  have below := ancestor.within
  refine ⟨common, height - steps, ?_, by omega, ?_, ?_⟩
  · unfold lastCommonAncestor
    rw [firstFound, bind_some, secondFound, bind_some, fromFirst, bind_some,
      fromSecond, bind_some, meets, bind_some, if_pos rfl]
  · have total : second.nHeight - (height - steps) = second.nHeight - height + steps := by omega
    have reached := ancestor.reached
    unfold follow at reached path ⊢
    rw [total, up_add, reached, bind_some, path]
  · rcases up_exists tree linked.forest steps right rightEntry rightFound (by omega) with
      ⟨above, entry, reached, there, sum⟩
    unfold follow at path
    rw [path] at reached
    rw [some.inj reached]
    exact ⟨entry, there, by omega⟩

end Walks

/-! ## The batches -/

/-- The ancestors of an entry on a number of heights above a given one. -/
def ancestorsFrom (tree : Tree) (best bestHeight low count : Nat) : List Nat :=
  (List.range' (low + 1) count).filterMap fun height => follow tree (bestHeight - height) best

section Batches

variable {tree : Tree} (linked : Linked tree)

theorem ancestorsFrom_append (best bestHeight low first second : Nat) :
    ancestorsFrom tree best bestHeight low (first + second) =
      ancestorsFrom tree best bestHeight low first ++
        ancestorsFrom tree best bestHeight (low + first) second := by
  have next : low + first + 1 = low + 1 + first := by omega
  unfold ancestorsFrom
  rw [next, ← filterMap_append]
  congr 1
  exact (range'_append_1).symm

theorem ancestorsFrom_one (best bestHeight low pindex : Nat)
    (ancestor : AncestorAt tree best bestHeight (low + 1) pindex) :
    ancestorsFrom tree best bestHeight low 1 = [pindex] := by
  unfold ancestorsFrom
  rw [range'_one, filterMap_cons, ancestor.reached]
  rfl

include linked in
theorem fetchBack_eq (best bestHeight : Nat) (bestEntry : Entry)
    (bestFound : tree[best]? = some bestEntry) (bestHere : bestEntry.nHeight = bestHeight)
    (low nToFetch pindex : Nat)
    (ancestor : AncestorAt tree best bestHeight (low + nToFetch) pindex) :
    fetchBack tree nToFetch pindex = some (ancestorsFrom tree best bestHeight low nToFetch) := by
  induction nToFetch generalizing pindex with
  | zero => rfl
  | succ count ih =>
    cases count with
    | zero =>
      rw [ancestorsFrom_one best bestHeight low pindex ancestor]
      rfl
    | succ count =>
      obtain ⟨entry, found, _⟩ := ancestor.there
      have within := ancestor.within
      rcases ancestor_exists linked best bestHeight (low + (count + 1)) bestEntry bestFound
        bestHere (by omega) with ⟨above, before⟩
      have parent : entry.pprev = some above :=
        (AncestorAt.pprev ancestor found).trans before.reached
      unfold fetchBack
      rw [found, bind_some, parent, bind_some, ih above before, map_some,
        ancestorsFrom_append best bestHeight low (count + 1) 1,
        ancestorsFrom_one best bestHeight (low + (count + 1)) pindex ancestor]

include linked in
theorem mem_ancestorsFrom (best bestHeight : Nat) (bestEntry : Entry)
    (bestFound : tree[best]? = some bestEntry) (bestHere : bestEntry.nHeight = bestHeight)
    (low count pindex : Nat) (within : low + count ≤ bestHeight)
    (listed : pindex ∈ ancestorsFrom tree best bestHeight low count) :
    ∃ height, low < height ∧ height ≤ low + count ∧
      AncestorAt tree best bestHeight height pindex := by
  obtain ⟨height, inRange, reached⟩ := mem_filterMap.mp listed
  have bounds := mem_range'_1.mp inRange
  rcases ancestor_exists linked best bestHeight height bestEntry bestFound bestHere (by omega) with
    ⟨other, ancestor⟩
  have same := ancestor.reached
  rw [reached] at same
  rw [some.inj same]
  exact ⟨height, by omega, by omega, ancestor⟩

end Batches

/-! ## The scan -/

/-- The state in which a scan ends, by a return or behind its last block. -/
def finished : Except Scan Scan → Scan
  | .error returned => returned
  | .ok scanned => scanned

section Scans

variable (view : DownloadView) (mapBlocksInFlight : AList fun _ : Uint256 => Place)
variable (nodeid : NodeId) (count : UInt32) (nWindowEnd : Nat)

theorem height_eq (pindex height : Nat)
    (there : ∃ entry, view.tree[pindex]? = some entry ∧ entry.nHeight = height) :
    view.height pindex = height := by
  obtain ⟨entry, found, here⟩ := there
  unfold DownloadView.height
  rw [found, map_some, getD_some, here]

theorem batchSize_bounds (nMaxHeight nHeight size : Nat) (below : nHeight < nMaxHeight) :
    0 < batchSize count nMaxHeight nHeight size ∧
      nHeight + batchSize count nMaxHeight nHeight size ≤ nMaxHeight := by
  unfold batchSize
  omega

/-- The loop over the batches is one scan of the ancestors up to the last
height. -/
theorem downloadLoop_eq (linked : Linked view.tree) (best bestHeight : Nat) (bestEntry : Entry)
    (bestFound : view.tree[best]? = some bestEntry) (bestHere : bestEntry.nHeight = bestHeight)
    (nMaxHeight : Nat) (top : nMaxHeight ≤ bestHeight) (fuel low pindexWalk : Nat) (scan : Scan)
    (ancestor : AncestorAt view.tree best bestHeight low pindexWalk) (below : low ≤ nMaxHeight)
    (enough : nMaxHeight ≤ low + fuel) :
    downloadLoop view mapBlocksInFlight nodeid count best nWindowEnd nMaxHeight fuel pindexWalk
        scan =
      some (finished ((ancestorsFrom view.tree best bestHeight low (nMaxHeight - low)).foldlM
        (scanBlock view mapBlocksInFlight nodeid count nWindowEnd) scan)) := by
  induction fuel generalizing low pindexWalk scan with
  | zero =>
    have same : low = nMaxHeight := by omega
    unfold downloadLoop
    rw [height_eq view pindexWalk low ancestor.there, same, if_neg (Nat.lt_irrefl _),
      Nat.sub_self]
    rfl
  | succ fuel ih =>
    unfold downloadLoop
    rw [height_eq view pindexWalk low ancestor.there]
    by_cases more : low < nMaxHeight
    · rcases batchSize_bounds count nMaxHeight low scan.vBlocks.length more with
        ⟨positive, within⟩
      generalize batchSize count nMaxHeight low scan.vBlocks.length = nToFetch at positive within
      rcases ancestor_exists linked best bestHeight (low + nToFetch) bestEntry bestFound bestHere
        (by omega) with ⟨next, above⟩
      have walked := getAncestor_ancestor linked best bestHeight (low + nToFetch) next bestEntry
        bestFound bestHere above
      have batch := fetchBack_eq linked best bestHeight bestEntry bestFound bestHere low nToFetch
        next above
      have split : nMaxHeight - low = nToFetch + (nMaxHeight - (low + nToFetch)) := by omega
      rw [if_pos more]
      dsimp only
      rw [walked, bind_some, id, bind_some, batch, bind_some, split,
        ancestorsFrom_append, foldlM_append]
      cases (ancestorsFrom view.tree best bestHeight low nToFetch).foldlM
          (scanBlock view mapBlocksInFlight nodeid count nWindowEnd) scan with
      | error returned => rfl
      | ok scanned =>
        dsimp only
        rw [ih (low + nToFetch) next scanned above within (by omega)]
        rfl
    · have same : low = nMaxHeight := by omega
      rw [if_neg more, same, Nat.sub_self]
      rfl

structure Wanted (start : Nat) (scanned : List Nat) (scan : Scan) : Prop where
  part : scan.vBlocks.Sublist scanned
  missing : ∀ pindex ∈ scan.vBlocks, (view.record pindex).haveData = false ∧
    mapBlocksInFlight.lookup (view.record pindex).phashBlock = none ∧
    view.height pindex ≤ nWindowEnd
  few : scan.vBlocks.length ≤ count.toNat
  common : scan.pindexLastCommonBlock = start ∨ scan.pindexLastCommonBlock ∈ scanned

variable {view mapBlocksInFlight count nWindowEnd}

variable {start : Nat} {scanned : List Nat} {scan : Scan}

theorem Wanted.more
    (wanted : Wanted view mapBlocksInFlight count nWindowEnd start scanned scan)
    (others : List Nat) :
    Wanted view mapBlocksInFlight count nWindowEnd start (scanned ++ others) scan where
  part := wanted.part.trans (sublist_append_left scanned others)
  missing := wanted.missing
  few := wanted.few
  common := wanted.common.imp id (mem_append_left others)

theorem scanBlock_wanted
    (wanted : Wanted view mapBlocksInFlight count nWindowEnd start scanned scan)
    (room : scan.vBlocks.length < count.toNat) (pindex : Nat) :
    Wanted view mapBlocksInFlight count nWindowEnd start (scanned ++ [pindex])
        (finished (scanBlock view mapBlocksInFlight nodeid count nWindowEnd scan pindex)) ∧
      ∀ next, scanBlock view mapBlocksInFlight nodeid count nWindowEnd scan pindex = .ok next →
        next.vBlocks.length < count.toNat := by
  have still := wanted.more [pindex]
  unfold scanBlock
  dsimp only
  split
  · refine ⟨still, ?_⟩
    intro next same
    cases same
  · split
    · split
      · refine ⟨⟨still.part, still.missing, still.few, ?_⟩, ?_⟩
        · exact Or.inr (mem_append_right _ (mem_singleton_self pindex))
        · intro next same
          cases same
          exact room
      · refine ⟨still, ?_⟩
        intro next same
        cases same
        exact room
    · rename_i noData
      split
      · rename_i absent
        split
        · refine ⟨?_, ?_⟩
          · unfold finished
            dsimp only
            split
            · exact ⟨still.part, still.missing, still.few, still.common⟩
            · exact still
          · intro next same
            cases same
        · rename_i inWindow
          have taken : Wanted view mapBlocksInFlight count nWindowEnd start (scanned ++ [pindex])
              { scan with vBlocks := scan.vBlocks ++ [pindex] } := by
            constructor
            · exact wanted.part.append_right [pindex]
            · intro other listed
              obtain before | new := mem_append.mp listed
              · exact wanted.missing other before
              · rw [mem_singleton.mp new]
                exact ⟨Bool.eq_false_iff.mpr noData, absent, Nat.not_lt.mp inWindow⟩
            · dsimp only
              rw [length_append, length_singleton]
              exact room
            · exact still.common
          split
          · refine ⟨taken, ?_⟩
            intro next same
            cases same
          · rename_i notFull
            refine ⟨taken, ?_⟩
            intro next same
            cases same
            exact Nat.lt_of_le_of_ne taken.few notFull
      · split
        · refine ⟨⟨still.part, still.missing, still.few, still.common⟩, ?_⟩
          intro next same
          cases same
          exact room
        · refine ⟨still, ?_⟩
          intro next same
          cases same
          exact room

theorem scan_wanted
    (wanted : Wanted view mapBlocksInFlight count nWindowEnd start scanned scan)
    (room : scan.vBlocks.length < count.toNat) (others : List Nat) :
    Wanted view mapBlocksInFlight count nWindowEnd start (scanned ++ others)
      (finished (others.foldlM (scanBlock view mapBlocksInFlight nodeid count nWindowEnd)
        scan)) := by
  induction others generalizing scanned scan with
  | nil =>
    rw [append_nil]
    exact wanted
  | cons pindex others ih =>
    have one := scanBlock_wanted nodeid wanted room pindex
    have whole : scanned ++ pindex :: others = scanned ++ [pindex] ++ others := by simp
    rw [foldlM_cons, whole]
    cases result : scanBlock view mapBlocksInFlight nodeid count nWindowEnd scan pindex with
    | error returned =>
      rw [result] at one
      exact one.1.more others
    | ok next =>
      rw [result] at one
      exact ih one.1 (one.2 next rfl)

end Scans

/-! ## The schedule -/

/-- The pointers that are read are entries of a tree with one root, and the
active chain is not empty. -/
structure Located (view : DownloadView) (state : CNodeState) : Prop where
  built : ∃ parents, run addToBlockIndex [] (none :: List.map some parents) = some view.tree
  filed : ∀ hash pindex, view.mapBlockIndex hash = some pindex → pindex < view.tree.length
  active : view.vChain ≠ [] ∧ ∀ pindex ∈ view.vChain, pindex < view.tree.length
  best : ∀ pindex, state.pindexBestKnownBlock = some pindex → pindex < view.tree.length
  common : ∀ pindex, state.pindexLastCommonBlock = some pindex → pindex < view.tree.length

/-- What the blocks to download are, for the state of the peer before and
after. -/
structure Scheduled (view : DownloadView) (mapBlocksInFlight : AList fun _ : Uint256 => Place)
    (count : UInt32) (before after : CNodeState) (vBlocks : List Nat) : Prop where
  ancestors : ∀ pindex ∈ vBlocks, ∃ best steps, after.pindexBestKnownBlock = some best ∧
    follow view.tree steps best = some pindex
  noData : ∀ pindex ∈ vBlocks, (view.record pindex).haveData = false
  notInFlight : ∀ pindex ∈ vBlocks,
    mapBlocksInFlight.lookup (view.record pindex).phashBlock = none
  window : ∀ pindex ∈ vBlocks, ∃ best common later,
    after.pindexBestKnownBlock = some best ∧
      lastCommonBlock view (processBlockAvailability view before) best = some common ∧
      after.pindexLastCommonBlock = some later ∧
      view.height pindex ≤ view.height common + blockDownloadWindow ∧
      view.height common ≤ view.height later
  ascending : (vBlocks.map view.height).Pairwise (· < ·)
  distinct : vBlocks.Nodup
  few : vBlocks.length ≤ count.toNat

section Schedule

variable (view : DownloadView) (mapBlocksInFlight : AList fun _ : Uint256 => Place)
variable (nodeid : NodeId) (count : UInt32)

theorem scheduled_nil (before after : CNodeState) :
    Scheduled view mapBlocksInFlight count before after [] where
  ancestors := by simp
  noData := by simp
  notInFlight := by simp
  window := by simp
  ascending := List.Pairwise.nil
  distinct := nodup_nil
  few := Nat.zero_le _

theorem ancestorsFrom_heights (linked : Linked view.tree) (best bestHeight : Nat)
    (bestEntry : Entry) (bestFound : view.tree[best]? = some bestEntry)
    (bestHere : bestEntry.nHeight = bestHeight) (low number : Nat)
    (within : low + number ≤ bestHeight) :
    (ancestorsFrom view.tree best bestHeight low number).map view.height =
      range' (low + 1) number := by
  induction number with
  | zero => rfl
  | succ number ih =>
    rcases ancestor_exists linked best bestHeight (low + number + 1) bestEntry bestFound bestHere
      within with ⟨pindex, ancestor⟩
    rw [ancestorsFrom_append best bestHeight low number 1,
      ancestorsFrom_one best bestHeight (low + number) pindex ancestor, map_append,
      ih (by omega), map_singleton, height_eq view pindex _ ancestor.there,
      range'_concat, Nat.one_mul]
    congr 2
    omega

variable {view mapBlocksInFlight count} in
theorem Wanted.scheduled {scan : Scan} (linked : Linked view.tree) (best bestHeight : Nat)
    (bestEntry : Entry) (bestFound : view.tree[best]? = some bestEntry)
    (bestHere : bestEntry.nHeight = bestHeight) (low number common : Nat)
    (bottom : AncestorAt view.tree best bestHeight low common)
    (within : low + number ≤ bestHeight) (before after : CNodeState)
    (known : after.pindexBestKnownBlock = some best)
    (later : after.pindexLastCommonBlock = some scan.pindexLastCommonBlock)
    (met : lastCommonBlock view (processBlockAvailability view before) best = some common)
    (wanted : Wanted view mapBlocksInFlight count (low + blockDownloadWindow) common
      (ancestorsFrom view.tree best bestHeight low number) scan) :
    Scheduled view mapBlocksInFlight count before after scan.vBlocks := by
  have scanned := mem_ancestorsFrom linked best bestHeight bestEntry bestFound bestHere low number
  have heights := ancestorsFrom_heights view linked best bestHeight bestEntry bestFound bestHere low
    number within
  have ascending : (scan.vBlocks.map view.height).Pairwise (· < ·) := by
    apply List.Pairwise.sublist (wanted.part.map view.height)
    rw [heights]
    exact pairwise_lt_range'
  have commonHeight := height_eq view common low bottom.there
  constructor
  · intro pindex taken
    obtain ⟨height, _, _, ancestor⟩ := scanned pindex within (wanted.part.subset taken)
    exact ⟨best, _, known, ancestor.reached⟩
  · intro pindex taken
    exact (wanted.missing pindex taken).1
  · intro pindex taken
    exact (wanted.missing pindex taken).2.1
  · intro pindex taken
    refine ⟨best, common, scan.pindexLastCommonBlock, known, met, later, ?_, ?_⟩
    · rw [commonHeight]
      exact (wanted.missing pindex taken).2.2
    · obtain same | above := wanted.common
      · rw [same]
      · obtain ⟨height, higher, _, ancestor⟩ := scanned _ within above
        rw [commonHeight, height_eq view _ height ancestor.there]
        exact Nat.le_of_lt higher
  · exact ascending
  · exact List.Nodup.of_map view.height (ascending.imp fun less => Nat.ne_of_lt less)
  · exact wanted.few

theorem processBlockAvailability_best (state : CNodeState) (located : Located view state)
    (pindex : Nat)
    (known : (processBlockAvailability view state).pindexBestKnownBlock = some pindex) :
    pindex < view.tree.length := by
  unfold processBlockAvailability at known
  split at known
  · exact located.best pindex known
  · split at known
    · exact located.best pindex known
    · rename_i itOld there
      have old := located.filed _ itOld there
      split at known
      · dsimp only at known
        split at known
        · rw [← some.inj known]
          exact old
        · rename_i best had
          split at known
          · rw [← some.inj known]
            exact old
          · rw [← some.inj known]
            exact located.best best had
      · exact located.best pindex known

theorem processBlockAvailability_common (state : CNodeState) :
    (processBlockAvailability view state).pindexLastCommonBlock = state.pindexLastCommonBlock := by
  unfold processBlockAvailability
  split
  · rfl
  · split
    · rfl
    · split
      · rfl
      · rfl

theorem lastCommonBlock_spec (before state : CNodeState) (located : Located view before)
    (same : state.pindexLastCommonBlock = before.pindexLastCommonBlock) (best : Nat)
    (bestEntry : Entry) (bestFound : view.tree[best]? = some bestEntry) :
    ∃ common height, lastCommonBlock view state best = some common ∧
      AncestorAt view.tree best bestEntry.nHeight height common := by
  obtain ⟨parents, built⟩ := located.built
  have linked := run_linked _ view.tree built
  have rooted := run_oneRoot parents view.tree built
  have guessed : ∃ guess, commonGuess view state best = some guess ∧
      guess < view.tree.length := by
    unfold commonGuess
    rw [same]
    cases had : before.pindexLastCommonBlock with
    | some pindex => exact ⟨pindex, rfl, located.common pindex had⟩
    | none =>
      have positive : 0 < view.vChain.length := length_pos_iff.mpr located.active.1
      have inside : min (view.height best) (view.vChain.length - 1) < view.vChain.length := by
        omega
      exact ⟨_, getElem?_eq_getElem inside,
        located.active.2 _ (getElem_mem inside)⟩
  obtain ⟨guess, chosen, inside⟩ := guessed
  rcases lastCommonAncestor_spec linked rooted guess best _ bestEntry
    (getElem?_eq_getElem inside) bestFound with ⟨common, height, met, ancestor⟩
  refine ⟨common, height, ?_, ancestor⟩
  unfold lastCommonBlock
  rw [chosen, bind_some, met]
  rfl

theorem scheduleBlocks_scheduled (before : CNodeState) (located : Located view before)
    (positive : 0 < count.toNat) (nodeStaller : NodeId) :
    ∃ after vBlocks staller,
      scheduleBlocks view mapBlocksInFlight nodeid count (processBlockAvailability view before) []
        nodeStaller = some (after, vBlocks, staller) ∧
      Scheduled view mapBlocksInFlight count before after vBlocks := by
  have valid := processBlockAvailability_best view before located
  have kept := processBlockAvailability_common view before
  unfold scheduleBlocks
  cases known : (processBlockAvailability view before).pindexBestKnownBlock with
  | none => exact ⟨_, [], nodeStaller, rfl, scheduled_nil view mapBlocksInFlight count _ _⟩
  | some best =>
    have tip : ∃ tip, view.vChain.getLast? = some tip :=
      isSome_iff_exists.mp (getLast?_isSome.mpr located.active.1)
    obtain ⟨tip, last⟩ := tip
    dsimp only
    rw [last, bind_some]
    by_cases behind : (view.record best).nChainWork < (view.record tip).nChainWork
    · rw [if_pos behind]
      exact ⟨_, [], nodeStaller, rfl, scheduled_nil view mapBlocksInFlight count _ _⟩
    · have entry : ∃ entry, view.tree[best]? = some entry :=
        ⟨_, getElem?_eq_getElem (valid best known)⟩
      obtain ⟨bestEntry, bestFound⟩ := entry
      rcases lastCommonBlock_spec view before _ located kept best bestEntry bestFound with
        ⟨common, low, met, ancestor⟩
      rw [if_neg behind, met, bind_some]
      by_cases same : common = best
      · rw [if_pos same]
        exact ⟨_, [], nodeStaller, rfl, scheduled_nil view mapBlocksInFlight count _ _⟩
      · obtain ⟨parents, built⟩ := located.built
        have linked := run_linked _ view.tree built
        have bestHeight := height_eq view best _ ⟨_, bestFound, rfl⟩
        have commonHeight := height_eq view common low ancestor.there
        have within := ancestor.within
        rw [if_neg same, bestHeight, commonHeight]
        generalize here : bestEntry.nHeight = top at ancestor within ⊢
        have lowest : low ≤ min top (low + blockDownloadWindow + 1) := by omega
        rw [downloadLoop_eq view mapBlocksInFlight nodeid count (low + blockDownloadWindow) linked
          best top bestEntry bestFound here (min top (low + blockDownloadWindow + 1))
          (Nat.min_le_left _ _) _ low common _ ancestor lowest (Nat.le_add_left _ _),
          map_some]
        have start : Wanted view mapBlocksInFlight count (low + blockDownloadWindow) common []
            { pindexLastCommonBlock := common, waitingfor := -1, vBlocks := [],
              nodeStaller := nodeStaller } :=
          ⟨List.Sublist.refl [], by simp, Nat.zero_le _, Or.inl rfl⟩
        have wanted := scan_wanted nodeid start positive (ancestorsFrom view.tree best top low
          (min top (low + blockDownloadWindow + 1) - low))
        rw [nil_append] at wanted
        refine ⟨_, _, _, rfl, ?_⟩
        exact Wanted.scheduled linked best top bestEntry bestFound here low _ common ancestor
          (by omega) before _ rfl rfl met wanted

/-- There is always a result, and its blocks are ancestors of the best known block without data and
not in flight, in the window, with ascending heights and not more than asked for. -/
theorem next_blocks_are_missing_ancestors (view : DownloadView) (peers : PeerStates)
    (nodeid : NodeId) (count : UInt32) (nodeStaller : NodeId) (before : CNodeState)
    (known : peers.state nodeid = some before) (located : Located view before) :
    ∃ done after, findNextBlocksToDownload view peers nodeid count [] nodeStaller = some done ∧
      done.peers.state nodeid = some after ∧
      done.peers.mapBlocksInFlight = peers.mapBlocksInFlight ∧
      Scheduled view peers.mapBlocksInFlight count before after done.vBlocks := by
  unfold findNextBlocksToDownload
  by_cases zero : count = 0
  · rw [if_pos zero]
    exact ⟨_, before, rfl, known, rfl, scheduled_nil view peers.mapBlocksInFlight count _ _⟩
  · have positive : 0 < count.toNat := by
      apply Nat.pos_of_ne_zero
      intro same
      exact zero (UInt32.toNat_inj.mp same)
    rcases scheduleBlocks_scheduled view peers.mapBlocksInFlight nodeid count before located
      positive nodeStaller with ⟨after, vBlocks, staller, done, scheduled⟩
    rw [if_neg zero, known, bind_some, done, map_some]
    exact ⟨_, after, rfl, AList.lookup_insert _, rfl, scheduled⟩

end Schedule

/-- The active chain ends with one branch that is here; of the other one the headers are known. -/
def branchView : DownloadView where
  tree := twoBranches
  record := fun pindex =>
    { phashBlock := BitVec.ofNat 256 (pindex + 100)
      nChainWork := pindex + 1
      nChainTx := if pindex ∈ [0, 1, 2, 4] then 1 else 0
      nStatus := if pindex ∈ [0, 1, 2, 4] then 13 else 2 }
  mapBlockIndex := fun hash => if hash = 106 then some 6 else none
  vChain := [0, 1, 2, 4]

/-- The peer has announced the last block of the other branch. -/
def announcingPeer : CNodeState := { CNodeState.fresh with hashLastUnknownBlock := 106 }

def branchPeers : PeerStates :=
  { PeerStates.empty with
    mapNodeState := (∅ : AList fun _ : NodeId => CNodeState).insert 1 announcingPeer
    mapBlocksInFlight := (∅ : AList fun _ : Uint256 => Place).insert 105 (2, 0) }

theorem branch_blocks_are_scheduled :
    ∃ done after, findNextBlocksToDownload branchView branchPeers 1 16 [] (-1) = some done ∧
      done.vBlocks = [3, 6] ∧
      Scheduled branchView branchPeers.mapBlocksInFlight 16 announcingPeer after done.vBlocks := by
  have located : Located branchView announcingPeer := by
    refine ⟨⟨[0, 1, 2, 2, 3, 5], by decide +kernel⟩, ?_, ⟨by decide, by decide +kernel⟩, ?_, ?_⟩
    · intro hash pindex there
      unfold branchView at there
      dsimp only at there
      split at there
      · rw [← some.inj there]
        decide
      · cases there
    · intro pindex nothing
      cases nothing
    · intro pindex nothing
      cases nothing
  rcases next_blocks_are_missing_ancestors branchView branchPeers 1 16 (-1) announcingPeer rfl
    located with ⟨done, after, found, _, _, scheduled⟩
  have blocks : (findNextBlocksToDownload branchView branchPeers 1 16 [] (-1)).map
      Scheduling.vBlocks = some [3, 6] := by decide +kernel
  rw [found] at blocks
  exact ⟨done, after, found, some.inj blocks, scheduled⟩

end ZenonCore.DownloadSchedule
