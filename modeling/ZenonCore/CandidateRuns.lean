import ZenonCore.CandidateCompleteness

/-!
# Runs of the block index

Blocks arrive in any order and are marked and reconsidered at any time.
-/

namespace ZenonCore.CandidateRuns

open BlockIndex BlockIndexShape CandidateCompleteness List Finset
open Library.Runs

variable {state after : IndexState}

section Receiving

/-- A step that only adds entries and links some that were not linked, each
of which gets its place. -/
structure Grown (state after : IndexState) : Prop where
  tip : after.tip = state.tip
  parents : ∀ pindex, pindex < state.count →
    (after.entry pindex).pprev = (state.entry pindex).pprev
  kept : ∀ pindex, state.linked pindex = true → after.entry pindex = state.entry pindex
  candidates : state.setBlockIndexCandidates ⊆ after.setBlockIndexCandidates
  added : ∀ pindex ∈ after.setBlockIndexCandidates, after.linked pindex = true
  placed : ∀ pindex, after.linked pindex = true → state.linked pindex = false →
    after.belowTip pindex = true ∨ pindex ∈ after.setBlockIndexCandidates

variable {queue : List Nat}

theorem Grown.linked (grown : Grown state after) {pindex : Nat}
    (linked : state.linked pindex = true) : after.linked pindex = true := by
  rw [IndexState.linked, grown.kept pindex linked]
  exact linked

theorem Grown.chainOf (shape : Shape state queue) (grown : Grown state after) {pindex : Nat}
    (linked : state.linked pindex = true) :
    chainOf after.entry pindex = chainOf state.entry pindex := by
  have inside := shape.lt_count linked
  exact chainOf_congr shape.grows pindex fun other older => grown.parents other (by omega)

theorem Grown.sortsBelow (grown : Grown state after) {pa pb : Nat}
    (first : state.linked pa = true) (second : state.linked pb = true) :
    sortsBelow after.entry pa pb = sortsBelow state.entry pa pb := by
  apply sortsBelow_congr
  · rw [grown.kept pa first]
  · rw [grown.kept pb second]
  · rw [grown.kept pa first]
  · rw [grown.kept pb second]

theorem Grown.choice (shape : Shape state queue) (choice : Choice state)
    (grown : Grown state after) : Choice after where
  candidates := grown.added
  active := by
    intro tip isTip other member
    rw [grown.tip] at isTip
    have active := choice.active tip isTip
    rw [grown.chainOf shape (active tip (mem_chainOf_self tip)).1] at member
    obtain ⟨linked, unmarked, scripts⟩ := active other member
    unfold scriptsValid
    rw [grown.kept other linked]
    exact ⟨grown.linked linked, unmarked, scripts⟩
  placed := by
    intro pindex linked unmarked
    cases before : state.linked pindex with
    | false =>
      obtain below | member := grown.placed pindex linked before
      · exact Or.inl below
      · exact Or.inr (Or.inl member)
    | true =>
      rw [grown.kept pindex before] at unmarked
      rcases choice.placed pindex before unmarked with
        below | member | ⟨candidate, member, sound, below⟩
      · left
        obtain ⟨tip, isTip, lower⟩ := (belowTip_iff pindex).mp below
        have tipLinked := (choice.active tip isTip tip (mem_chainOf_self tip)).1
        rw [← grown.sortsBelow before tipLinked] at lower
        exact (belowTip_iff pindex).mpr ⟨tip, grown.tip.trans isTip, lower⟩
      · exact Or.inr (Or.inl (grown.candidates member))
      · have candidateLinked := choice.candidates candidate member
        right
        right
        refine ⟨candidate, grown.candidates member, ?_, ?_⟩
        · intro other inChain
          rw [grown.chainOf shape candidateLinked] at inChain
          unfold scriptsValid
          rw [grown.kept other (linked_of_mem_chainOf shape candidateLinked inChain)]
          exact sound other inChain
        · rw [grown.sortsBelow before candidateLinked]
          exact below

theorem addToBlockIndex_grown (shape : Shape state []) (choice : Choice state)
    (pprev : Option Nat) (nBlockProof : Nat) :
    Grown state (addToBlockIndex state pprev nBlockProof) where
  tip := rfl
  parents := fun pindex inside => by rw [addToBlockIndex_old _ _ _ (by omega)]
  kept := fun pindex linked => by
    have inside := shape.lt_count linked
    exact addToBlockIndex_old _ _ _ (by omega)
  candidates := Finset.Subset.refl _
  added := fun pindex member => by
    rw [(addToBlockIndex_data shape pprev nBlockProof pindex).1]
    exact choice.candidates pindex member
  placed := fun pindex linked before => by
    rw [(addToBlockIndex_data shape pprev nBlockProof pindex).1, before] at linked
    cases linked

theorem linkEntry_grown {pindex : Nat} (shape : Shape state (pindex :: queue))
    (choice : Choice state) : Grown state (linkEntry state pindex).1 := by
  obtain ⟨data, missing, _⟩ := shape.queued pindex mem_cons_self
  have transactions := (shape.received pindex data).1
  have different : ∀ other, state.linked other = true → other ≠ pindex := by
    intro other linked same
    rw [same, missing] at linked
    cases linked
  have inserted : ∀ other, other ∈ (linkEntry state pindex).1.setBlockIndexCandidates ↔
      other ∈ state.setBlockIndexCandidates ∨
        other = pindex ∧ (linkEntry state pindex).1.belowTip pindex = false := by
    intro other
    change other ∈ (if (linkEntry state pindex).1.belowTip pindex then _ else _) ↔ _
    split
    · rename_i below
      simp [below]
    · rename_i notBelow
      rw [mem_insert, or_comm]
      simp [notBelow]
  constructor
  · rfl
  · exact fun other _ => (linkEntry_kept other).1
  · exact fun other linked => linkEntry_other other (different other linked)
  · exact fun other member => (inserted other).mpr (Or.inl member)
  · intro other member
    rw [linkEntry_linked transactions]
    obtain before | ⟨same, _⟩ := (inserted other).mp member
    · exact Or.inr (choice.candidates other before)
    · exact Or.inl same
  · intro other linked before
    obtain same | already := (linkEntry_linked transactions other).mp linked
    · cases below : (linkEntry state pindex).1.belowTip other with
      | true => exact Or.inl rfl
      | false =>
        right
        apply (inserted other).mpr
        rw [same] at below
        exact Or.inr ⟨same, below⟩
    · rw [before] at already
      cases already

theorem linkQueue_spec (fuel : Nat) (queue : List Nat) (shape : Shape state queue)
    (choice : Choice state)
    (enough : queue.length + state.mapBlocksUnlinked.length ≤ fuel) :
    Shape (linkQueue fuel queue state) [] ∧ Choice (linkQueue fuel queue state) := by
  induction fuel generalizing state queue with
  | zero =>
    have empty : queue = [] := eq_nil_of_length_eq_zero (by omega)
    rw [empty] at shape ⊢
    exact ⟨shape, choice⟩
  | succ fuel ih =>
    cases queue with
    | nil => exact ⟨shape, choice⟩
    | cons pindex rest =>
      have size := @linkEntry_size state pindex rest
      have less : (rest ++ (linkEntry state pindex).2).length +
          (linkEntry state pindex).1.mapBlocksUnlinked.length ≤ fuel := by
        rw [length_cons] at enough
        omega
      exact ih (rest ++ (linkEntry state pindex).2) (linkEntry_shape shape)
        ((linkEntry_grown shape choice).choice shape choice) less

theorem noted_grown (shape : Shape state []) (choice : Choice state) {pindexNew nTx : Nat}
    (usable : (state.entry pindexNew).failed = false)
    (missing : (state.entry pindexNew).fHaveData = false) (pairs : List (Nat × Nat)) :
    Grown state { noted state pindexNew nTx with mapBlocksUnlinked := pairs } := by
  have kept := @noted_kept state pindexNew nTx shape usable missing
  exact
    { tip := rfl
      parents := fun pindex _ => (kept pindex).1
      kept := fun pindex linked => by
        apply noted_other
        intro same
        rw [same] at linked
        rw [(shape.linked pindexNew linked).1] at missing
        cases missing
      candidates := Finset.Subset.refl _
      added := fun pindex member => by
        change (noted state pindexNew nTx).linked pindex = true
        rw [(kept pindex).2.2]
        exact choice.candidates pindex member
      placed := fun pindex linked before => by
        change (noted state pindexNew nTx).linked pindex = true at linked
        rw [(kept pindex).2.2, before] at linked
        cases linked }

theorem receivedBlockTransactions_spec (shape : Shape state []) (choice : Choice state)
    {pindexNew nTx : Nat} (inside : pindexNew < state.count) (transactions : 0 < nTx)
    (usable : (state.entry pindexNew).failed = false)
    (missing : (state.entry pindexNew).fHaveData = false)
    (parentUsable : ∀ pprev, (state.entry pindexNew).pprev = some pprev →
      (state.entry pprev).failed = false) :
    Shape (receivedBlockTransactions state pindexNew nTx) [] ∧
      Choice (receivedBlockTransactions state pindexNew nTx) := by
  have new := @noted_new state pindexNew nTx usable
  have placedBy := noted_shape shape inside transactions usable missing
  have grown := @noted_grown state shape choice _ nTx usable missing
  have sameParent := @noted_parentLinked state _ nTx shape usable missing pindexNew
  change Shape (if (noted state pindexNew nTx).parentLinked pindexNew then _ else _) [] ∧
    Choice (if (noted state pindexNew nTx).parentLinked pindexNew then _ else _)
  rw [sameParent]
  cases ready : state.parentLinked pindexNew with
  | true =>
    have noteShape := placedBy [pindexNew] [] (Or.inl ⟨rfl, rfl, ready⟩)
    rw [append_nil] at noteShape
    exact linkQueue_spec _ [pindexNew] noteShape
      ((grown state.mapBlocksUnlinked).choice shape choice) (by
        rw [length_singleton, Nat.add_comm])
  | false =>
    rw [if_neg Bool.false_ne_true]
    have unready : ∃ pprev, (state.entry pindexNew).pprev = some pprev ∧
        state.linked pprev = false := by
      by_contra absent
      rw [← Bool.not_eq_true, parentLinked_iff] at ready
      apply ready
      intro pprev isParent
      by_contra unlinked
      exact absent ⟨pprev, isParent, by simpa using unlinked⟩
    obtain ⟨pprev, isParent, unlinked⟩ := unready
    have parentValid : ((noted state pindexNew nTx).entry pprev).isValid blockValidTree =
        true := by
      have older := (shape.grows pindexNew pprev isParent).1
      rw [noted_other pprev (by omega), CBlockIndex.isValid, parentUsable pprev isParent]
      exact decide_eq_true (shape.tree pprev)
    have noteShape := placedBy [] [(pprev, pindexNew)]
      (Or.inr ⟨rfl, pprev, rfl, isParent, unlinked⟩)
    have noteChoice := (grown (state.mapBlocksUnlinked ++ [(pprev, pindexNew)])).choice
      shape choice
    rw [← new.1] at isParent
    unfold noted at isParent
    rw [isParent]
    dsimp only
    change Shape (if ((noted state pindexNew nTx).entry pprev).isValid blockValidTree then _
        else _) [] ∧
      Choice (if ((noted state pindexNew nTx).entry pprev).isValid blockValidTree then _
        else _)
    rw [parentValid, if_pos rfl]
    exact ⟨noteShape, noteChoice⟩

end Receiving

section Marking

variable {pindex : Nat}

theorem activeDownTo_descends (shape : Shape state []) (other : Nat)
    (walked : other ∈ activeDownTo state pindex) :
    state.contains pindex = true ∧ state.contains other = true ∧
      pindex ∈ chainOf state.entry other := by
  unfold activeDownTo at walked
  cases isTip : state.tip with
  | none =>
    rw [isTip] at walked
    cases walked
  | some tip =>
    rw [isTip] at walked
    simp only at walked
    split at walked
    · rename_i active
      obtain ⟨same, isSame, inChain⟩ := (contains_iff pindex).mp active
      rw [isTip] at isSame
      rw [← Option.some.inj isSame] at inChain
      obtain above | isBlock := mem_append.mp walked
      · have otherInChain := takeWhile_subset _ above
        have newer := takeWhile_newer _ pindex (chainOf_decreasing shape.grows tip) inChain
          other above
        exact ⟨active, (contains_iff other).mpr ⟨tip, isTip, otherInChain⟩,
          chainOf_of_le shape.grows tip other pindex otherInChain inChain
            (Nat.le_of_lt newer)⟩
      · rw [List.mem_singleton.mp isBlock]
        exact ⟨active, active, mem_chainOf_self pindex⟩
    · cases walked

variable (other : Nat)

theorem invalidateBlock_entry :
    (invalidateBlock state pindex).entry other =
      if other ∈ activeDownTo state pindex then
        { (if other = pindex then { state.entry pindex with fFailedValid := true }
          else state.entry other) with fFailedChild := true }
      else if other = pindex then { state.entry pindex with fFailedValid := true }
      else state.entry other := rfl

theorem invalidateBlock_kept (different : other ≠ pindex)
    (stays : other ∉ activeDownTo state pindex) :
    (invalidateBlock state pindex).entry other = state.entry other := by
  rw [invalidateBlock_entry, if_neg stays, if_neg different]

theorem invalidateBlock_same (shape : Shape state []) (choice : Choice state)
    (inside : pindex < state.count) : SameIndex state (invalidateBlock state pindex) where
  count := rfl
  entry := fun other => by
    rw [invalidateBlock_entry]
    by_cases isBlock : other = pindex
    · subst isBlock
      rw [if_pos rfl]
      split
      · exact ⟨rfl, rfl, rfl, rfl, rfl, rfl, Nat.le_refl _⟩
      · exact ⟨rfl, rfl, rfl, rfl, rfl, rfl, Nat.le_refl _⟩
    · rw [if_neg isBlock]
      split
      · exact ⟨rfl, rfl, rfl, rfl, rfl, rfl, Nat.le_refl _⟩
      · exact SameData.refl _
  unlinked := rfl
  fresh := fun other outside => by
    apply invalidateBlock_kept other (by omega)
    intro walked
    rcases (contains_iff other).mp (activeDownTo_descends shape other walked).2.1 with
      ⟨tip, isTip, inChain⟩
    have bound := shape.lt_count (choice.active tip isTip other inChain).1
    omega

theorem mem_invalidateBlock :
    other ∈ (invalidateBlock state pindex).setBlockIndexCandidates ↔
      (other ∈ state.setBlockIndexCandidates ∧ other ∉ pindex :: activeDownTo state pindex) ∨
      other < state.count ∧
        (((invalidateBlock state pindex).entry other).isValid blockValidTransactions &&
          (invalidateBlock state pindex).linked other &&
          !(invalidateBlock state pindex).belowTip other) = true := by
  change other ∈ _ ∪ _ ↔ _
  rw [Finset.mem_union, Finset.mem_filter, Finset.mem_filter, Finset.mem_range]
  exact Iff.rfl

theorem isValid_of_linked (shape : Shape state []) (linked : state.linked pindex = true)
    (unmarked : (state.entry pindex).failed = false) :
    (state.entry pindex).isValid blockValidTransactions = true := by
  unfold CBlockIndex.isValid
  rw [unmarked]
  exact decide_eq_true (shape.received pindex (shape.linked pindex linked).1).2

theorem choice_invalidateBlock (shape : Shape state []) (choice : Choice state)
    (inside : pindex < state.count) : Choice (invalidateBlock state pindex) := by
  have same := invalidateBlock_same shape choice inside
  have clear : ∀ tip, (invalidateBlock state pindex).tip = some tip →
      ∀ other ∈ chainOf state.entry tip, state.contains other = true ∧
        other ≠ pindex ∧ other ∉ activeDownTo state pindex := by
    intro tip isTip other inChain
    change (if state.contains pindex then _ else _) = some tip at isTip
    cases active : state.contains pindex with
    | true =>
      rw [active, if_pos rfl] at isTip
      obtain ⟨old, isOld, inOld⟩ := (contains_iff pindex).mp active
      have before := (shape.grows pindex tip isTip).1
      have bound := chainOf_le shape.grows tip other inChain
      refine ⟨(contains_iff other).mpr ⟨old, isOld, chainOf_trans shape.grows inOld
        ((mem_chainOf_iff shape.grows isTip other).mpr (Or.inr inChain))⟩, by omega, ?_⟩
      intro walked
      have above := chainOf_le shape.grows other pindex
        (activeDownTo_descends shape other walked).2.2
      omega
    | false =>
      rw [active, if_neg Bool.false_ne_true] at isTip
      have isActive := (contains_iff other).mpr ⟨tip, isTip, inChain⟩
      refine ⟨isActive, fun isBlock => ?_, fun walked => ?_⟩
      · rw [isBlock, active] at isActive
        cases isActive
      · rw [(activeDownTo_descends shape other walked).1] at active
        cases active
  constructor
  · intro other member
    rw [same.linked]
    obtain ⟨before, _⟩ | ⟨_, again⟩ := (mem_invalidateBlock other).mp member
    · exact choice.candidates other before
    · simp only [Bool.and_eq_true, same.linked] at again
      exact again.1.2
  · intro tip isTip other member
    rw [same.chainOf shape.grows] at member
    obtain ⟨isActive, different, stays⟩ := clear tip isTip other member
    obtain ⟨old, isOld, inOld⟩ := (contains_iff other).mp isActive
    obtain ⟨linked, unmarked, scripts⟩ := choice.active old isOld other inOld
    rw [same.linked, invalidateBlock_kept other different stays]
    exact ⟨linked, unmarked, scriptsValid_of_same same scripts⟩
  · intro other linked unmarked
    cases below : (invalidateBlock state pindex).belowTip other with
    | true => exact Or.inl below
    | false =>
      right
      left
      apply (mem_invalidateBlock other).mpr
      right
      have afterShape := same.shape shape
      refine ⟨afterShape.lt_count linked, ?_⟩
      rw [isValid_of_linked afterShape linked unmarked, linked, below]
      rfl

/-- The marked ancestors of a reconsidered block sort below the tip, if their chains are complete.
-/
def AncestorsBelow (state : IndexState) (pindex : Nat) : Prop :=
  ∀ other ∈ chainOf state.entry pindex, other ≠ pindex → state.linked other = true →
    (state.entry other).failed = true → state.belowTip other = true

/-- The entries of which `ReconsiderBlock` clears the marks. -/
def cleared (state : IndexState) (pindex other : Nat) : Bool :=
  (!(state.entry other).isValid blockValidTransactions &&
      (chainOf state.entry other).contains pindex) ||
    (chainOf state.entry pindex).contains other

def clearMarks (entry : CBlockIndex) : CBlockIndex :=
  { entry with fFailedValid := false, fFailedChild := false }

theorem reconsiderBlock_entry :
    (reconsiderBlock state pindex).entry other =
      if cleared state pindex other then clearMarks (state.entry other)
      else state.entry other := rfl

theorem reconsiderBlock_same (shape : Shape state []) :
    SameIndex state (reconsiderBlock state pindex) where
  count := rfl
  entry := fun other => by
    rw [reconsiderBlock_entry]
    split
    · exact ⟨rfl, rfl, rfl, rfl, rfl, rfl, Nat.le_refl _⟩
    · exact SameData.refl _
  unlinked := rfl
  fresh := fun other outside => by
    rw [reconsiderBlock_entry]
    split
    · rw [shape.fresh other outside]
      rfl
    · rfl

/-- Of what descends from the block the loop puts everything above the tip
among the candidates. -/
theorem reconsiderBlock_placed (shape : Shape state []) (hasTip : state.tip.isSome = true)
    (other : Nat) (descends : pindex ∈ chainOf state.entry other)
    (linked : state.linked other = true) (marked : (state.entry other).failed = true)
    (notActive : state.contains other = false) :
    state.belowTip other = true ∨
      other ∈ (reconsiderBlock state pindex).setBlockIndexCandidates := by
  obtain ⟨tip, isTip⟩ := Option.isSome_iff_exists.mp hasTip
  have different : other ≠ tip := by
    intro same
    rw [same, (contains_iff tip).mpr ⟨tip, isTip, mem_chainOf_self tip⟩] at notActive
    cases notActive
  obtain below | above := @sortsBelow_total state.entry _ _ different
  · exact Or.inl ((belowTip_iff other).mpr ⟨tip, isTip, below⟩)
  · right
    apply Finset.mem_union_right
    apply Finset.mem_filter.mpr
    refine ⟨Finset.mem_range.mpr (shape.lt_count linked), ?_⟩
    have notValid : (state.entry other).isValid blockValidTransactions = false := by
      rw [CBlockIndex.isValid, marked]
      rfl
    have again : (clearMarks (state.entry other)).isValid blockValidTransactions = true :=
      decide_eq_true (shape.received other (shape.linked other linked).1).2
    change ((_ && _) && (clearMarks (state.entry other)).isValid blockValidTransactions && _ &&
      _) = true
    rw [notValid, again, linked, isTip, List.contains_eq_mem, decide_eq_true descends]
    exact above

theorem reconsiderBlock_unmarked (unmarked : (state.entry other).failed = false) :
    ((reconsiderBlock state pindex).entry other).failed = false := by
  rw [reconsiderBlock_entry]
  split
  · rfl
  · exact unmarked

theorem choice_reconsiderBlock (shape : Shape state []) (choice : Choice state)
    (hasTip : state.tip.isSome = true)
    (ancestors : AncestorsBelow state pindex) : Choice (reconsiderBlock state pindex) := by
  have same := @reconsiderBlock_same state pindex shape
  have belowTip : ∀ other, state.belowTip other = true →
      (reconsiderBlock state pindex).belowTip other = true := by
    intro other below
    obtain ⟨tip, isTip, lower⟩ := (belowTip_iff other).mp below
    rw [← same.sortsBelow] at lower
    exact (belowTip_iff other).mpr ⟨tip, isTip, lower⟩
  constructor
  · intro other member
    rw [same.linked]
    obtain before | again := mem_union.mp member
    · exact choice.candidates other before
    · have test := (Finset.mem_filter.mp again).2
      simp only [Bool.and_eq_true] at test
      exact test.1.2
  · intro tip isTip other member
    rw [same.chainOf shape.grows] at member
    obtain ⟨linked, unmarked, scripts⟩ := choice.active tip isTip other member
    rw [same.linked]
    exact ⟨linked, reconsiderBlock_unmarked other unmarked, scriptsValid_of_same same scripts⟩
  · intro other linked unmarked
    rw [same.linked] at linked
    cases before : (state.entry other).failed with
    | false =>
      apply (choice.placed other linked before).carry same.sortsBelow
      · exact fun below => Or.inl (belowTip other below)
      · exact fun candidate member _ => Or.inl (mem_union_left _ member)
      · intro candidate sound
        exact sound.carry same shape.grows fun another _ clear _ =>
          reconsiderBlock_unmarked another clear
    | true =>
      have isCleared : cleared state pindex other = true := by
        by_contra stays
        rw [reconsiderBlock_entry, if_neg stays, before] at unmarked
        cases unmarked
      by_cases descends : pindex ∈ chainOf state.entry other
      · have notActive : state.contains other = false := by
          by_contra active
          obtain ⟨tip, isTip, inChain⟩ := (contains_iff other).mp (by simpa using active)
          rw [(choice.active tip isTip other inChain).2.1] at before
          cases before
        rcases reconsiderBlock_placed shape hasTip other descends linked before notActive with
          below | member
        · exact Or.inl (belowTip other below)
        · exact Or.inr (Or.inl member)
      · rw [cleared, contains_eq_mem, decide_eq_false descends, Bool.and_false,
          Bool.false_or, contains_eq_mem, decide_eq_true_eq] at isCleared
        have different : other ≠ pindex := by
          intro isBlock
          rw [isBlock] at descends
          exact descends (mem_chainOf_self pindex)
        exact Or.inl (belowTip other (ancestors other isCleared different linked before))

end Marking

/-- A connected block is not found invalid later, and a reconsidered block's marked ancestors sort
below the tip. -/
def Allowed (state : IndexState) : Event → Prop
  | .activateBestChain outcome => Consistent state outcome
  | .reconsiderBlock pindex => AncestorsBelow state pindex
  | _ => True

theorem step_spec (shape : Shape state []) (choice : Choice state) (event : Event)
    (allowed : Allowed state event) (taken : step state event = some after) :
    Shape after [] ∧ Choice after := by
  unfold step at taken
  split at taken
  · rename_i can
    rw [← Option.some.inj taken]
    cases event with
    | addToBlockIndex pprev nBlockProof =>
      simp only [possible, Bool.and_eq_true, decide_eq_true_eq] at can
      have known : ∀ parent, pprev = some parent → parent < state.count := by
        intro parent isParent
        rw [isParent] at can
        exact of_decide_eq_true can.2
      exact ⟨addToBlockIndex_shape shape pprev nBlockProof can.1 known,
        (addToBlockIndex_grown shape choice pprev nBlockProof).choice shape choice⟩
    | receivedBlockTransactions pindexNew nTx =>
      simp only [possible, Bool.and_eq_true, decide_eq_true_eq, Bool.not_eq_true'] at can
      obtain ⟨⟨⟨⟨inside, transactions⟩, missing⟩, usable⟩, parent⟩ := can
      apply receivedBlockTransactions_spec shape choice inside transactions usable missing
      intro pprev isParent
      rw [isParent] at parent
      simpa using parent
    | activateBestChain outcome =>
      have activates := activateBestChain_spec outcome allowed shape choice
      exact ⟨activates.1.shape shape, activates.2.1⟩
    | invalidateBlock pindex =>
      simp only [possible, Bool.and_eq_true, decide_eq_true_eq] at can
      exact ⟨(invalidateBlock_same shape choice can.1.1).shape shape,
        choice_invalidateBlock shape choice can.1.1⟩
    | reconsiderBlock pindex =>
      simp only [possible, Bool.and_eq_true, decide_eq_true_eq] at can
      exact ⟨(reconsiderBlock_same shape).shape shape,
        choice_reconsiderBlock shape choice can.2 allowed⟩
  · cases taken

theorem emptyIndex_choice : Choice emptyIndex where
  candidates := fun _ member => by cases member
  active := fun _ isTip => by cases isTip
  placed := fun _ linked => by cases linked

theorem run_spec (events : List Event) (allowed : AllSteps step Allowed emptyIndex events)
    (reached : run step emptyIndex events = some state) : Shape state [] ∧ Choice state :=
  invariant_of_guarded_run step Allowed (fun state => Shape state [] ∧ Choice state)
    (fun _ event _ both allowed taken => step_spec both.1 both.2 event allowed taken)
    emptyIndex state events ⟨emptyIndex_shape, emptyIndex_choice⟩ allowed reached

/-- All the transactions of an entry and its ancestors are here, and none of
them is marked. -/
def FullyAvailable (state : IndexState) (pindex : Nat) : Prop :=
  ∀ other ∈ chainOf state.entry pindex,
    (state.entry other).fHaveData = true ∧ (state.entry other).failed = false

theorem FullyAvailable.linked (shape : Shape state []) {pindex : Nat}
    (available : FullyAvailable state pindex) :
    state.linked pindex = true ∧ (state.entry pindex).failed = false :=
  ⟨(linked_iff_received shape pindex).mpr fun other member => (available other member).1,
    (available pindex (mem_chainOf_self pindex)).2⟩

theorem sound_available (shape : Shape state []) (choice : Choice state) {candidate : Nat}
    (member : candidate ∈ state.setBlockIndexCandidates) (sound : Sound state candidate) :
    FullyAvailable state candidate := by
  have data := (linked_iff_received shape candidate).mp (choice.candidates candidate member)
  exact fun other inChain => ⟨data other inChain, (sound other inChain).1⟩

/-- In every state that a run with allowed steps reaches: what can be used and is not below the tip
is a candidate, or below a candidate that was connected before; a block behind an ancestor without
data waits for its parent; and where a round ends the loop, what can be used and is not below the
tip is a candidate with no more work. -/
theorem candidates_are_complete (events : List Event)
    (allowed : AllSteps step Allowed emptyIndex events)
    (reached : run step emptyIndex events = some state) :
    (∀ pindex, FullyAvailable state pindex → state.belowTip pindex = false →
      pindex ∈ state.setBlockIndexCandidates ∨
        ∃ candidate ∈ state.setBlockIndexCandidates,
          sortsBelow state.entry pindex candidate = true ∧ FullyAvailable state candidate ∧
            ∀ other ∈ chainOf state.entry candidate, scriptsValid state other) ∧
    (∀ pindex, (state.entry pindex).fHaveData = true →
      (∃ other ∈ chainOf state.entry pindex, (state.entry other).fHaveData = false) →
      ∃ pprev, (state.entry pindex).pprev = some pprev ∧
        (pprev, pindex) ∈ state.mapBlocksUnlinked) ∧
    ∀ outcome, Consistent state outcome → (activateBestChain outcome state).2 = true →
      ∀ pindex, FullyAvailable (activateBestChain outcome state).1 pindex →
        ((activateBestChain outcome state).1.belowTip pindex = false →
          pindex ∈ (activateBestChain outcome state).1.setBlockIndexCandidates) ∧
        ∃ tip, (activateBestChain outcome state).1.tip = some tip ∧
          ((activateBestChain outcome state).1.entry pindex).nChainWork ≤
            ((activateBestChain outcome state).1.entry tip).nChainWork := by
  obtain ⟨shape, choice⟩ := run_spec events allowed reached
  refine ⟨fun pindex available notBelow => ?_, fun pindex data behind => ?_,
    fun outcome consistent ends pindex available => ?_⟩
  · obtain ⟨linked, unmarked⟩ := available.linked shape
    rcases choice.placed pindex linked unmarked with
      below | member | ⟨candidate, member, sound, lower⟩
    · rw [notBelow] at below
      cases below
    · exact Or.inl member
    · right
      exact ⟨candidate, member, lower, sound_available shape choice member sound,
        fun other inChain => (sound other inChain).2⟩
  · have unlinked : state.linked pindex = false := by
      rw [← Bool.not_eq_true, linked_iff_received shape]
      intro allData
      obtain ⟨other, inChain, missing⟩ := behind
      rw [allData other inChain] at missing
      cases missing
    obtain queued | waiting := shape.waits pindex data unlinked
    · cases queued
    · exact waiting
  · have activates := activateBestChain_spec outcome consistent shape choice
    have settled := activates.2.2 ends
    obtain ⟨linked, unmarked⟩ := available.linked (activates.1.shape shape)
    refine ⟨fun notBelow => ?_, settled.work_le activates.2.1 linked unmarked⟩
    obtain below | member := settled.candidate activates.2.1 linked unmarked
    · rw [notBelow] at below
      cases below
    · exact member

def allConnect (_ : Nat) : ConnectOutcome := .connected

def lateParent : List Event :=
  [.addToBlockIndex none 1, .receivedBlockTransactions 0 1, .activateBestChain allConnect,
    .addToBlockIndex (some 0) 1, .addToBlockIndex (some 1) 1, .receivedBlockTransactions 2 1,
    .receivedBlockTransactions 1 1, .activateBestChain allConnect]

def usable (state : IndexState) (pindex : Nat) : Bool :=
  (chainOf state.entry pindex).all (fun other =>
    (state.entry other).fHaveData && !(state.entry other).failed) && !state.belowTip pindex

theorem usable_iff (pindex : Nat) :
    usable state pindex = true ↔ FullyAvailable state pindex ∧ state.belowTip pindex = false := by
  simp only [usable, FullyAvailable, Bool.and_eq_true, all_eq_true, Bool.not_eq_true']

theorem lateParent_allowed : AllSteps step Allowed emptyIndex lateParent := by
  apply (all_steps_of_events step (fun event => ∀ state, Allowed state event) emptyIndex
    lateParent ?_).mono fun state _ guard => guard state
  intro event member state
  simp only [lateParent, List.mem_cons, List.not_mem_nil, or_false] at member
  obtain same | same | same | same | same | same | same | same := member
  · rw [same]; trivial
  · rw [same]; trivial
  · rw [same]; intro _ invalid; cases invalid
  · rw [same]; trivial
  · rw [same]; trivial
  · rw [same]; trivial
  · rw [same]; trivial
  · rw [same]; intro _ invalid; cases invalid

theorem late_parent_frees_the_block :
    ∃ state, run step emptyIndex lateParent = some state ∧ FullyAvailable state 2 ∧
      (2 ∈ state.setBlockIndexCandidates ∨ ∃ candidate ∈ state.setBlockIndexCandidates,
        sortsBelow state.entry 2 candidate = true) := by
  have checked : ((run step emptyIndex lateParent).any fun state => usable state 2) = true := by
    decide +kernel
  obtain ⟨state, reached, isUsable⟩ := (Option.any_eq_true _ _).mp checked
  obtain ⟨available, notBelow⟩ := (usable_iff 2).mp isUsable
  refine ⟨state, reached, available, ?_⟩
  rcases (candidates_are_complete lateParent lateParent_allowed reached).1 2 available notBelow with
    member | ⟨candidate, member, lower, _⟩
  · exact Or.inl member
  · exact Or.inr ⟨candidate, member, lower⟩

def failedReorganisation : List Event :=
  [.addToBlockIndex none 1, .receivedBlockTransactions 0 1, .activateBestChain allConnect,
    .addToBlockIndex (some 0) 1, .receivedBlockTransactions 1 1, .activateBestChain allConnect,
    .addToBlockIndex (some 1) 1, .receivedBlockTransactions 2 1, .activateBestChain allConnect,
    .addToBlockIndex (some 0) 2, .receivedBlockTransactions 3 1, .addToBlockIndex (some 3) 2,
    .receivedBlockTransactions 4 1,
    .activateBestChain fun pindex => if pindex = 3 then .invalid else .connected]

/-- A block without data is reconsidered after its parent was marked. -/
def reconsideredChild : List Event :=
  [.addToBlockIndex none 1, .receivedBlockTransactions 0 1, .activateBestChain allConnect,
    .addToBlockIndex (some 0) 1, .receivedBlockTransactions 1 1, .activateBestChain allConnect,
    .addToBlockIndex (some 1) 1, .invalidateBlock 1, .reconsiderBlock 2]

/-- A block on the way back to the old tip, after a failed reorganisation, is no candidate; nor is
the parent of a header that was reconsidered. -/
theorem forgotten_blocks :
    (∃ state, run step emptyIndex failedReorganisation = some state ∧ FullyAvailable state 1 ∧
      state.belowTip 1 = false ∧ 1 ∉ state.setBlockIndexCandidates ∧
      state.mapBlocksUnlinked = []) ∧
    ∃ state, run step emptyIndex reconsideredChild = some state ∧
      (activateBestChain allConnect state).2 = true ∧
      FullyAvailable (activateBestChain allConnect state).1 1 ∧
      (activateBestChain allConnect state).1.belowTip 1 = false ∧
      (activateBestChain allConnect state).1.tip = some 0 ∧
      ((activateBestChain allConnect state).1.entry 0).nChainWork <
        ((activateBestChain allConnect state).1.entry 1).nChainWork ∧
      1 ∉ (activateBestChain allConnect state).1.setBlockIndexCandidates ∧
      (activateBestChain allConnect state).1.mapBlocksUnlinked = [] := by
  have failed : ((run step emptyIndex failedReorganisation).any fun state => usable state 1 &&
      decide (1 ∉ state.setBlockIndexCandidates ∧ state.mapBlocksUnlinked = [])) = true := by
    decide +kernel
  have reconsidered : ((run step emptyIndex reconsideredChild).any fun state =>
      usable (activateBestChain allConnect state).1 1 &&
        decide ((activateBestChain allConnect state).2 = true ∧
          (activateBestChain allConnect state).1.tip = some 0 ∧
          ((activateBestChain allConnect state).1.entry 0).nChainWork <
            ((activateBestChain allConnect state).1.entry 1).nChainWork ∧
          1 ∉ (activateBestChain allConnect state).1.setBlockIndexCandidates ∧
          (activateBestChain allConnect state).1.mapBlocksUnlinked = [])) = true := by
    decide +kernel
  constructor
  · obtain ⟨state, reached, facts⟩ := (Option.any_eq_true _ _).mp failed
    simp only [Bool.and_eq_true, decide_eq_true_eq, usable_iff] at facts
    exact ⟨state, reached, facts.1.1, facts.1.2, facts.2⟩
  · obtain ⟨state, reached, facts⟩ := (Option.any_eq_true _ _).mp reconsidered
    simp only [Bool.and_eq_true, decide_eq_true_eq, usable_iff] at facts
    exact ⟨state, reached, facts.2.1, facts.1.1, facts.1.2, facts.2.2⟩

end ZenonCore.CandidateRuns
