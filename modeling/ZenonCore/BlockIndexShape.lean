import Mathlib.Data.List.Pairwise
import ZenonCore.BlockIndex

/-!
# The shape of the block index

The order of the candidates, the chains of the entries, and what holds of counts and waiting
entries.
-/

namespace ZenonCore.BlockIndexShape

open BlockIndex List

section Order

variable {entry : Nat → CBlockIndex}

theorem sortsBelow_iff (pa pb : Nat) :
    sortsBelow entry pa pb = true ↔
      (entry pa).nChainWork < (entry pb).nChainWork ∨
      (entry pa).nChainWork = (entry pb).nChainWork ∧
        ((entry pb).nSequenceId < (entry pa).nSequenceId ∨
          (entry pa).nSequenceId = (entry pb).nSequenceId ∧ pb < pa) := by
  unfold sortsBelow
  split
  · exact iff_of_false Bool.false_ne_true (by omega)
  split
  · exact iff_of_true rfl (by omega)
  split
  · exact iff_of_false Bool.false_ne_true (by omega)
  split
  · exact iff_of_true rfl (by omega)
  · rw [decide_eq_true_iff]
    omega

theorem sortsBelow_irrefl (pindex : Nat) : sortsBelow entry pindex pindex = false := by
  rw [← Bool.not_eq_true, sortsBelow_iff]
  omega

theorem sortsBelow_trans {first second third : Nat} (lower : sortsBelow entry first second = true)
    (upper : sortsBelow entry second third = true) : sortsBelow entry first third = true := by
  rw [sortsBelow_iff] at lower upper ⊢
  omega

theorem sortsBelow_total {first second : Nat} (different : first ≠ second) :
    sortsBelow entry first second = true ∨ sortsBelow entry second first = true := by
  rw [sortsBelow_iff, sortsBelow_iff]
  omega

theorem sortsBelow_or_eq {first second : Nat}
    (notAbove : sortsBelow entry second first = false) :
    sortsBelow entry first second = true ∨ first = second := by
  by_cases same : first = second
  · exact Or.inr same
  · obtain below | contrary := @sortsBelow_total entry _ _ same
    · exact Or.inl below
    · rw [notAbove] at contrary
      cases contrary

theorem sortsBelow_congr {entry' : Nat → CBlockIndex} {pa pb : Nat}
    (workA : (entry' pa).nChainWork = (entry pa).nChainWork)
    (workB : (entry' pb).nChainWork = (entry pb).nChainWork)
    (idA : (entry' pa).nSequenceId = (entry pa).nSequenceId)
    (idB : (entry' pb).nSequenceId = (entry pb).nSequenceId) :
    sortsBelow entry' pa pb = sortsBelow entry pa pb := by
  unfold sortsBelow
  rw [workA, workB, idA, idB]

theorem work_le_of_not_sortsBelow {pa pb : Nat} (notBelow : sortsBelow entry pa pb = false) :
    (entry pb).nChainWork ≤ (entry pa).nChainWork := by
  rw [← Bool.not_eq_true, sortsBelow_iff] at notBelow
  omega

end Order

section Chains

def Grows (entry : Nat → CBlockIndex) : Prop :=
  ∀ pindex pprev, (entry pindex).pprev = some pprev →
    pprev < pindex ∧ (entry pprev).nChainWork < (entry pindex).nChainWork

variable {entry : Nat → CBlockIndex}

theorem chainFrom_fuel (grows : Grows entry) (pindex fuel more : Nat) (enough : pindex < fuel)
    (least : fuel ≤ more) : chainFrom entry fuel pindex = chainFrom entry more pindex := by
  induction fuel generalizing pindex more with
  | zero => omega
  | succ fuel ih =>
    cases more with
    | zero => omega
    | succ more =>
      simp only [chainFrom]
      cases parent : (entry pindex).pprev with
      | none => rfl
      | some pprev =>
        have before := (grows pindex pprev parent).1
        simp only
        rw [ih pprev more (by omega) (by omega)]

theorem chainOf_root {pindex : Nat} (root : (entry pindex).pprev = none) :
    chainOf entry pindex = [pindex] := by
  simp only [chainOf, chainFrom, root]

theorem chainOf_cons (grows : Grows entry) {pindex pprev : Nat}
    (parent : (entry pindex).pprev = some pprev) :
    chainOf entry pindex = pindex :: chainOf entry pprev := by
  have before := (grows pindex pprev parent).1
  rw [chainOf, chainFrom, parent]
  exact congrArg (cons pindex)
    (chainFrom_fuel grows pprev (pprev + 1) pindex (by omega) (by omega)).symm

theorem mem_chainOf_self (pindex : Nat) : pindex ∈ chainOf entry pindex :=
  mem_cons_self

theorem chain_induction (grows : Grows entry) {property : Nat → Prop}
    (root : ∀ pindex, (entry pindex).pprev = none → property pindex)
    (child : ∀ pindex pprev, (entry pindex).pprev = some pprev → property pprev →
      property pindex) (pindex : Nat) : property pindex := by
  induction pindex using Nat.strong_induction_on with
  | _ pindex ih =>
    cases parent : (entry pindex).pprev with
    | none => exact root pindex parent
    | some pprev => exact child pindex pprev parent (ih pprev (grows pindex pprev parent).1)

theorem mem_chainOf_iff (grows : Grows entry) {pindex pprev : Nat}
    (parent : (entry pindex).pprev = some pprev) (other : Nat) :
    other ∈ chainOf entry pindex ↔ other = pindex ∨ other ∈ chainOf entry pprev := by
  rw [chainOf_cons grows parent, mem_cons]

theorem chainOf_le (grows : Grows entry) (pindex other : Nat)
    (member : other ∈ chainOf entry pindex) : other ≤ pindex := by
  revert member
  induction pindex using chain_induction grows with
  | root pindex root =>
    rw [chainOf_root root, mem_singleton]
    exact fun same => Nat.le_of_eq same
  | child pindex pprev parent ih =>
    rw [mem_chainOf_iff grows parent]
    intro member
    have before := (grows pindex pprev parent).1
    obtain same | older := member
    · exact Nat.le_of_eq same
    · have bound := ih older
      omega

theorem chainOf_decreasing (grows : Grows entry) (pindex : Nat) :
    (chainOf entry pindex).Pairwise fun later earlier => earlier < later := by
  induction pindex using chain_induction grows with
  | root pindex root =>
    rw [chainOf_root root]
    exact pairwise_singleton _ _
  | child pindex pprev parent ih =>
    rw [chainOf_cons grows parent, pairwise_cons]
    refine ⟨fun other member => ?_, ih⟩
    have bound := chainOf_le grows pprev other member
    have before := (grows pindex pprev parent).1
    omega

theorem chainOf_of_le (grows : Grows entry) (pindex first second : Nat)
    (inFirst : first ∈ chainOf entry pindex) (inSecond : second ∈ chainOf entry pindex)
    (older : second ≤ first) : second ∈ chainOf entry first := by
  revert inFirst inSecond
  induction pindex using chain_induction grows with
  | root pindex root =>
    rw [chainOf_root root, mem_singleton, mem_singleton]
    intro isFirst isSecond
    rw [isFirst, isSecond]
    exact mem_chainOf_self pindex
  | child pindex pprev parent ih =>
    intro inFirst inSecond
    obtain isFirst | inFirst := (mem_chainOf_iff grows parent first).mp inFirst
    · rw [isFirst]
      exact inSecond
    · obtain isSecond | inSecond := (mem_chainOf_iff grows parent second).mp inSecond
      · have bound := chainOf_le grows pprev first inFirst
        have before := (grows pindex pprev parent).1
        omega
      · exact ih inFirst inSecond

theorem chainOf_trans (grows : Grows entry) {pindex middle other : Nat}
    (upper : middle ∈ chainOf entry pindex) (lower : other ∈ chainOf entry middle) :
    other ∈ chainOf entry pindex := by
  revert upper
  induction pindex using chain_induction grows with
  | root pindex root =>
    rw [chainOf_root root, mem_singleton]
    intro same
    rw [same, chainOf_root root] at lower
    exact lower
  | child pindex pprev parent ih =>
    intro upper
    obtain same | upper := (mem_chainOf_iff grows parent middle).mp upper
    · rw [same] at lower
      exact lower
    · exact (mem_chainOf_iff grows parent other).mpr (Or.inr (ih upper))

theorem chainOf_congr {entry' : Nat → CBlockIndex} (grows : Grows entry) (pindex : Nat)
    (same : ∀ other, other ≤ pindex → (entry' other).pprev = (entry other).pprev) :
    chainOf entry' pindex = chainOf entry pindex := by
  have general : ∀ fuel pindex, (∀ other, other ≤ pindex →
      (entry' other).pprev = (entry other).pprev) →
      chainFrom entry' fuel pindex = chainFrom entry fuel pindex := by
    intro fuel
    induction fuel with
    | zero => exact fun _ _ => rfl
    | succ fuel ih =>
      intro pindex same
      simp only [chainFrom, same pindex (Nat.le_refl pindex)]
      cases parent : (entry pindex).pprev with
      | none => rfl
      | some pprev =>
        have before := (grows pindex pprev parent).1
        simp only
        rw [ih pprev fun other older => same other (by omega)]
  exact general (pindex + 1) pindex same

end Chains

section Waiting

/-- What holds of the entries, while those of the queue are about to be
linked. -/
structure Shape (state : IndexState) (queue : List Nat) : Prop where
  fresh : ∀ pindex, state.count ≤ pindex → state.entry pindex = newEntry none 0
  grows : Grows state.entry
  linked : ∀ pindex, state.linked pindex = true →
    (state.entry pindex).fHaveData = true ∧ state.parentLinked pindex = true
  received : ∀ pindex, (state.entry pindex).fHaveData = true →
    0 < (state.entry pindex).nTx ∧ blockValidTransactions ≤ (state.entry pindex).nValidity
  tree : ∀ pindex, blockValidTree ≤ (state.entry pindex).nValidity
  waits : ∀ pindex, (state.entry pindex).fHaveData = true → state.linked pindex = false →
    pindex ∈ queue ∨
      ∃ pprev, (state.entry pindex).pprev = some pprev ∧ (pprev, pindex) ∈ state.mapBlocksUnlinked
  queued : ∀ pindex ∈ queue, (state.entry pindex).fHaveData = true ∧
    state.linked pindex = false ∧ state.parentLinked pindex = true
  unlinked : ∀ pair ∈ state.mapBlocksUnlinked, (state.entry pair.2).pprev = some pair.1 ∧
    (state.entry pair.2).fHaveData = true ∧ state.linked pair.2 = false ∧
    state.linked pair.1 = false
  once : (queue ++ state.mapBlocksUnlinked.map Prod.snd).Nodup

theorem parentLinked_iff (state : IndexState) (pindex : Nat) :
    state.parentLinked pindex = true ↔
      ∀ pprev, (state.entry pindex).pprev = some pprev → state.linked pprev = true := by
  unfold IndexState.parentLinked
  cases (state.entry pindex).pprev with
  | none => simp
  | some pprev => simp

variable {state : IndexState}

theorem Shape.lt_count {queue : List Nat} (shape : Shape state queue) {pindex : Nat}
    (linked : state.linked pindex = true) : pindex < state.count := by
  by_contra outside
  rw [IndexState.linked, shape.fresh pindex (by omega)] at linked
  cases linked

theorem linked_iff_received (shape : Shape state []) (pindex : Nat) :
    state.linked pindex = true ↔
      ∀ other ∈ chainOf state.entry pindex, (state.entry other).fHaveData = true := by
  have waiting : ∀ pindex, (state.entry pindex).fHaveData = true →
      state.linked pindex = false → ∃ pprev, (state.entry pindex).pprev = some pprev ∧
        state.linked pprev = false := by
    intro pindex data unlinked
    obtain queued | ⟨pprev, parent, pair⟩ := shape.waits pindex data unlinked
    · cases queued
    · exact ⟨pprev, parent, (shape.unlinked _ pair).2.2.2⟩
  induction pindex using chain_induction shape.grows with
  | root pindex root =>
    rw [chainOf_root root, forall_mem_singleton]
    constructor
    · exact fun linked => (shape.linked pindex linked).1
    · intro data
      by_contra unlinked
      obtain ⟨pprev, parent, _⟩ := waiting pindex data (by simpa using unlinked)
      rw [root] at parent
      cases parent
  | child pindex pprev parent ih =>
    rw [chainOf_cons shape.grows parent, forall_mem_cons]
    constructor
    · intro linked
      obtain ⟨data, parentLinked⟩ := shape.linked pindex linked
      exact ⟨data, ih.mp ((parentLinked_iff state pindex).mp parentLinked pprev parent)⟩
    · intro both
      by_contra unlinked
      obtain ⟨other, isParent, missing⟩ := waiting pindex both.1 (by simpa using unlinked)
      rw [parent] at isParent
      rw [← Option.some.inj isParent, ih.mpr both.2] at missing
      cases missing

theorem linked_of_mem_chainOf {queue : List Nat} (shape : Shape state queue)
    {pindex other : Nat} (linked : state.linked pindex = true)
    (member : other ∈ chainOf state.entry pindex) : state.linked other = true := by
  revert linked member
  induction pindex using chain_induction shape.grows with
  | root pindex root =>
    rw [chainOf_root root, mem_singleton]
    intro linked same
    rw [same]
    exact linked
  | child pindex pprev parent ih =>
    intro linked member
    obtain same | older := (mem_chainOf_iff shape.grows parent other).mp member
    · rw [same]
      exact linked
    · have parentLinked := (parentLinked_iff state pindex).mp (shape.linked pindex linked).2
      exact ih (parentLinked pprev parent) older

/-- What a change of marks and validity levels leaves alone. -/
structure SameData (first second : CBlockIndex) : Prop where
  pprev : second.pprev = first.pprev
  nChainWork : second.nChainWork = first.nChainWork
  nSequenceId : second.nSequenceId = first.nSequenceId
  nTx : second.nTx = first.nTx
  nChainTx : second.nChainTx = first.nChainTx
  fHaveData : second.fHaveData = first.fHaveData
  nValidity : first.nValidity ≤ second.nValidity

theorem SameData.refl (pindex : CBlockIndex) : SameData pindex pindex :=
  ⟨rfl, rfl, rfl, rfl, rfl, rfl, Nat.le_refl _⟩

theorem SameData.raise (pindex : CBlockIndex) (nUpTo : Nat) :
    SameData pindex (pindex.raiseValidity nUpTo) := by
  unfold CBlockIndex.raiseValidity
  split
  · exact SameData.refl pindex
  · split
    · rename_i lower
      exact ⟨rfl, rfl, rfl, rfl, rfl, rfl, Nat.le_of_lt lower⟩
    · exact SameData.refl pindex

structure SameIndex (first second : IndexState) : Prop where
  count : second.count = first.count
  entry : ∀ pindex, SameData (first.entry pindex) (second.entry pindex)
  unlinked : second.mapBlocksUnlinked = first.mapBlocksUnlinked
  fresh : ∀ pindex, first.count ≤ pindex → second.entry pindex = first.entry pindex

theorem SameIndex.trans {middle last : IndexState} (first : SameIndex state middle)
    (second : SameIndex middle last) : SameIndex state last where
  count := second.count.trans first.count
  entry := fun pindex =>
    { pprev := (second.entry pindex).pprev.trans (first.entry pindex).pprev
      nChainWork := (second.entry pindex).nChainWork.trans (first.entry pindex).nChainWork
      nSequenceId := (second.entry pindex).nSequenceId.trans (first.entry pindex).nSequenceId
      nTx := (second.entry pindex).nTx.trans (first.entry pindex).nTx
      nChainTx := (second.entry pindex).nChainTx.trans (first.entry pindex).nChainTx
      fHaveData := (second.entry pindex).fHaveData.trans (first.entry pindex).fHaveData
      nValidity := Nat.le_trans (first.entry pindex).nValidity (second.entry pindex).nValidity }
  unlinked := second.unlinked.trans first.unlinked
  fresh := fun pindex outside =>
    (second.fresh pindex (first.count.symm ▸ outside)).trans (first.fresh pindex outside)

theorem SameIndex.refl (state : IndexState) : SameIndex state state :=
  ⟨rfl, fun _ => SameData.refl _, rfl, fun _ _ => rfl⟩

variable {after : IndexState}

theorem SameIndex.linked (same : SameIndex state after) (pindex : Nat) :
    after.linked pindex = state.linked pindex := by
  unfold IndexState.linked
  rw [(same.entry pindex).nChainTx]

theorem SameIndex.parentLinked (same : SameIndex state after) (pindex : Nat) :
    after.parentLinked pindex = state.parentLinked pindex := by
  rw [Bool.eq_iff_iff, parentLinked_iff, parentLinked_iff, (same.entry pindex).pprev]
  simp only [same.linked]

theorem SameIndex.sortsBelow (same : SameIndex state after) (pa pb : Nat) :
    sortsBelow after.entry pa pb = sortsBelow state.entry pa pb :=
  sortsBelow_congr (same.entry pa).nChainWork (same.entry pb).nChainWork
    (same.entry pa).nSequenceId (same.entry pb).nSequenceId

theorem SameIndex.chainOf (same : SameIndex state after) (grows : Grows state.entry)
    (pindex : Nat) : chainOf after.entry pindex = chainOf state.entry pindex :=
  chainOf_congr grows pindex fun other _ => (same.entry other).pprev

theorem SameIndex.shape (same : SameIndex state after) {queue : List Nat}
    (shape : Shape state queue) : Shape after queue where
  fresh := fun pindex outside => by
    rw [same.count] at outside
    rw [same.fresh pindex outside, shape.fresh pindex outside]
  grows := fun pindex pprev parent => by
    rw [(same.entry pindex).pprev] at parent
    rw [(same.entry pindex).nChainWork, (same.entry pprev).nChainWork]
    exact shape.grows pindex pprev parent
  linked := fun pindex linked => by
    rw [same.linked] at linked
    rw [(same.entry pindex).fHaveData, same.parentLinked]
    exact shape.linked pindex linked
  received := fun pindex data => by
    rw [(same.entry pindex).fHaveData] at data
    rw [(same.entry pindex).nTx]
    exact ⟨(shape.received pindex data).1,
      Nat.le_trans (shape.received pindex data).2 (same.entry pindex).nValidity⟩
  tree := fun pindex => Nat.le_trans (shape.tree pindex) (same.entry pindex).nValidity
  waits := fun pindex data unlinked => by
    rw [(same.entry pindex).fHaveData] at data
    rw [same.linked] at unlinked
    rw [(same.entry pindex).pprev, same.unlinked]
    exact shape.waits pindex data unlinked
  queued := fun pindex member => by
    rw [(same.entry pindex).fHaveData, same.linked, same.parentLinked]
    exact shape.queued pindex member
  unlinked := fun pair member => by
    rw [same.unlinked] at member
    rw [(same.entry pair.2).pprev, (same.entry pair.2).fHaveData, same.linked, same.linked]
    exact shape.unlinked pair member
  once := by
    rw [same.unlinked]
    exact shape.once

end Waiting

section Growing

variable {state : IndexState}

theorem emptyIndex_shape : Shape emptyIndex [] where
  fresh := fun _ _ => rfl
  grows := fun _ _ parent => by cases parent
  linked := fun _ linked => by cases linked
  received := fun _ data => by cases data
  tree := fun _ => Nat.le_refl _
  waits := fun _ data => by cases data
  queued := fun _ member => by cases member
  unlinked := fun _ member => by cases member
  once := nodup_nil

theorem addToBlockIndex_old (pprev : Option Nat) (nBlockProof pindex : Nat)
    (old : pindex ≠ state.count) :
    (addToBlockIndex state pprev nBlockProof).entry pindex = state.entry pindex := if_neg old

theorem addToBlockIndex_new (pprev : Option Nat) (nBlockProof : Nat) :
    (addToBlockIndex state pprev nBlockProof).entry state.count = newEntry pprev
      ((match pprev with
        | none => 0
        | some pprev => (state.entry pprev).nChainWork) + nBlockProof) := if_pos rfl

theorem addToBlockIndex_data (shape : Shape state []) (pprev : Option Nat)
    (nBlockProof pindex : Nat) :
    (addToBlockIndex state pprev nBlockProof).linked pindex = state.linked pindex ∧
      ((addToBlockIndex state pprev nBlockProof).entry pindex).fHaveData =
        (state.entry pindex).fHaveData := by
  unfold IndexState.linked
  by_cases new : pindex = state.count
  · rw [new, addToBlockIndex_new, shape.fresh state.count (Nat.le_refl _)]
    exact ⟨rfl, rfl⟩
  · rw [addToBlockIndex_old pprev nBlockProof pindex new]
    exact ⟨rfl, rfl⟩

theorem addToBlockIndex_shape (shape : Shape state []) (pprev : Option Nat) (nBlockProof : Nat)
    (proof : 0 < nBlockProof) (known : ∀ parent, pprev = some parent → parent < state.count) :
    Shape (addToBlockIndex state pprev nBlockProof) [] := by
  have data := addToBlockIndex_data shape pprev nBlockProof
  have old : ∀ pindex, (state.entry pindex).fHaveData = true → pindex ≠ state.count := by
    intro pindex hasData same
    rw [same, shape.fresh state.count (Nat.le_refl _)] at hasData
    cases hasData
  exact
    { fresh := fun pindex outside => by
        change state.count + 1 ≤ pindex at outside
        rw [addToBlockIndex_old _ _ _ (by omega)]
        exact shape.fresh pindex (by omega)
      grows := fun pindex parent isParent => by
        by_cases new : pindex = state.count
        · rw [new, addToBlockIndex_new] at isParent ⊢
          simp only [newEntry] at isParent ⊢
          have before := known parent isParent
          rw [addToBlockIndex_old _ _ _ (by omega), isParent]
          simp only
          omega
        · rw [addToBlockIndex_old _ _ _ new] at isParent ⊢
          have grown := shape.grows pindex parent isParent
          have inside : pindex < state.count := by
            by_contra outside
            rw [shape.fresh pindex (by omega)] at isParent
            cases isParent
          rw [addToBlockIndex_old _ _ _ (by omega)]
          exact grown
      linked := fun pindex linked => by
        rw [(data pindex).1] at linked
        obtain ⟨hasData, parentLinked⟩ := shape.linked pindex linked
        rw [parentLinked_iff] at parentLinked ⊢
        rw [(data pindex).2, addToBlockIndex_old _ _ _ (old pindex hasData)]
        exact ⟨hasData, fun parent isParent =>
          (data parent).1.trans (parentLinked parent isParent)⟩
      received := fun pindex hasData => by
        rw [(data pindex).2] at hasData
        rw [addToBlockIndex_old _ _ _ (old pindex hasData)]
        exact shape.received pindex hasData
      tree := fun pindex => by
        by_cases new : pindex = state.count
        · rw [new, addToBlockIndex_new]
          exact Nat.le_refl _
        · rw [addToBlockIndex_old _ _ _ new]
          exact shape.tree pindex
      waits := fun pindex hasData unlinked => by
        rw [(data pindex).2] at hasData
        rw [(data pindex).1] at unlinked
        rw [addToBlockIndex_old _ _ _ (old pindex hasData)]
        exact shape.waits pindex hasData unlinked
      queued := fun pindex member => by cases member
      unlinked := fun pair member => by
        obtain ⟨parent, hasData, child, missing⟩ := shape.unlinked pair member
        rw [(data pair.2).1, (data pair.2).2, (data pair.1).1,
          addToBlockIndex_old _ _ _ (old pair.2 hasData)]
        exact ⟨parent, hasData, child, missing⟩
      once := shape.once }

variable {pindex : Nat} {queue : List Nat}

theorem linkEntry_other (other : Nat) (different : other ≠ pindex) :
    (linkEntry state pindex).1.entry other = state.entry other := if_neg different

theorem linkEntry_kept (other : Nat) :
    ((linkEntry state pindex).1.entry other).pprev = (state.entry other).pprev ∧
      ((linkEntry state pindex).1.entry other).nChainWork = (state.entry other).nChainWork ∧
      ((linkEntry state pindex).1.entry other).fHaveData = (state.entry other).fHaveData ∧
      ((linkEntry state pindex).1.entry other).nTx = (state.entry other).nTx ∧
      ((linkEntry state pindex).1.entry other).nValidity = (state.entry other).nValidity ∧
      ((linkEntry state pindex).1.entry other).failed = (state.entry other).failed := by
  by_cases same : other = pindex
  · subst same
    simp only [linkEntry, IndexState.setEntry, if_pos, CBlockIndex.failed, and_self]
  · rw [linkEntry_other other same]
    simp only [and_self]

theorem linkEntry_linked (transactions : 0 < (state.entry pindex).nTx) (other : Nat) :
    (linkEntry state pindex).1.linked other = true ↔
      other = pindex ∨ state.linked other = true := by
  by_cases same : other = pindex
  · subst same
    simp only [linkEntry, IndexState.linked, IndexState.setEntry, if_pos, true_or, iff_true,
      bne_iff_ne]
    omega
  · rw [IndexState.linked, linkEntry_other other same]
    simp only [same, false_or]
    rfl

theorem linkEntry_shape (shape : Shape state (pindex :: queue)) :
    Shape (linkEntry state pindex).1 (queue ++ (linkEntry state pindex).2) := by
  obtain ⟨ownData, _, ownParent⟩ := shape.queued pindex mem_cons_self
  have transactions := (shape.received pindex ownData).1
  have linked := linkEntry_linked transactions
  have unlinkedBefore : ∀ other, (linkEntry state pindex).1.linked other = false →
      other ≠ pindex ∧ state.linked other = false := by
    intro other missing
    rw [← Bool.not_eq_true, linked, not_or] at missing
    exact ⟨missing.1, by simpa using missing.2⟩
  have unlinkedAfter : ∀ other, other ≠ pindex → state.linked other = false →
      (linkEntry state pindex).1.linked other = false := by
    intro other different missing
    rw [← Bool.not_eq_true, linked, not_or]
    exact ⟨different, by simp [missing]⟩
  have parents : ∀ other, state.parentLinked other = true →
      (linkEntry state pindex).1.parentLinked other = true := by
    intro other before
    rw [parentLinked_iff] at before ⊢
    intro pprev isParent
    rw [(linkEntry_kept other).1] at isParent
    exact (linked pprev).mpr (Or.inr (before pprev isParent))
  have notHere : ∀ other ∈ queue ++ state.mapBlocksUnlinked.map Prod.snd, other ≠ pindex := by
    intro other member same
    rw [same] at member
    exact (nodup_cons.mp shape.once).1 member
  exact
    { fresh := fun other outside => by
        have different : other ≠ pindex := by
          intro same
          rw [same] at outside
          rw [shape.fresh pindex outside] at ownData
          cases ownData
        rw [linkEntry_other other different]
        exact shape.fresh other outside
      grows := fun other pprev isParent => by
        rw [(linkEntry_kept other).1] at isParent
        rw [(linkEntry_kept other).2.1, (linkEntry_kept pprev).2.1]
        exact shape.grows other pprev isParent
      linked := fun other isLinked => by
        rw [(linkEntry_kept other).2.2.1]
        obtain same | before := (linked other).mp isLinked
        · rw [same]
          exact ⟨ownData, parents pindex ownParent⟩
        · exact ⟨(shape.linked other before).1, parents other (shape.linked other before).2⟩
      received := fun other data => by
        rw [(linkEntry_kept other).2.2.1] at data
        rw [(linkEntry_kept other).2.2.2.1, (linkEntry_kept other).2.2.2.2.1]
        exact shape.received other data
      tree := fun other => by
        rw [(linkEntry_kept other).2.2.2.2.1]
        exact shape.tree other
      waits := fun other data missing => by
        rw [(linkEntry_kept other).2.2.1] at data
        obtain ⟨different, before⟩ := unlinkedBefore other missing
        rw [(linkEntry_kept other).1]
        obtain inQueue | ⟨pprev, isParent, pair⟩ := shape.waits other data before
        · left
          exact mem_append_left _ ((mem_cons.mp inQueue).resolve_left different)
        · by_cases here : pprev = pindex
          · left
            apply mem_append_right
            exact mem_map.mpr ⟨(pprev, other), mem_filter.mpr ⟨pair, by simp [here]⟩, rfl⟩
          · right
            exact ⟨pprev, isParent, mem_filter.mpr ⟨pair, by simp [here]⟩⟩
      queued := fun other member => by
        rw [(linkEntry_kept other).2.2.1]
        obtain inQueue | waited := mem_append.mp member
        · obtain ⟨data, missing, parent⟩ := shape.queued other (mem_cons_of_mem _ inQueue)
          exact ⟨data, unlinkedAfter other
            (notHere other (mem_append_left _ inQueue)) missing, parents other parent⟩
        · obtain ⟨pair, inFilter, isOther⟩ := mem_map.mp waited
          obtain ⟨inUnlinked, here⟩ := mem_filter.mp inFilter
          obtain ⟨isParent, data, missing, _⟩ := shape.unlinked pair inUnlinked
          subst isOther
          have different := notHere pair.2
            (mem_append_right _ (mem_map_of_mem inUnlinked))
          refine ⟨data, unlinkedAfter pair.2 different missing, ?_⟩
          rw [parentLinked_iff]
          intro pprev parent
          rw [(linkEntry_kept pair.2).1, isParent] at parent
          rw [← Option.some.inj parent]
          exact (linked pair.1).mpr (Or.inl (by simpa using here))
      unlinked := fun pair member => by
        obtain ⟨inUnlinked, elsewhere⟩ := mem_filter.mp member
        obtain ⟨isParent, data, child, missing⟩ := shape.unlinked pair inUnlinked
        rw [(linkEntry_kept pair.2).1, (linkEntry_kept pair.2).2.2.1]
        exact ⟨isParent, data,
          unlinkedAfter pair.2 (notHere pair.2
            (mem_append_right _ (mem_map_of_mem inUnlinked))) child,
          unlinkedAfter pair.1 (by simpa using elsewhere) missing⟩
      once := by
        have before := (nodup_cons.mp shape.once).2
        have split : (state.mapBlocksUnlinked.map Prod.snd).Perm
            ((state.mapBlocksUnlinked.filter fun pair => pair.1 == pindex).map Prod.snd ++
              (state.mapBlocksUnlinked.filter fun pair => pair.1 != pindex).map Prod.snd) := by
          rw [← map_append]
          exact ((filter_append_perm (fun pair : Nat × Nat => pair.1 == pindex)
            state.mapBlocksUnlinked).symm).map Prod.snd
        have after := ((split.append_left queue).nodup_iff).mp before
        rw [← append_assoc] at after
        exact after }

theorem linkEntry_size :
    (queue ++ (linkEntry state pindex).2).length +
        (linkEntry state pindex).1.mapBlocksUnlinked.length =
      queue.length + state.mapBlocksUnlinked.length := by
  have split := (filter_append_perm (fun pair : Nat × Nat => pair.1 == pindex)
    state.mapBlocksUnlinked).length_eq
  rw [length_append] at split
  simp only [linkEntry, length_append, length_map]
  change _ + (filter (fun pair : Nat × Nat => !(pair.1 == pindex)) _).length = _
  omega

def noted (state : IndexState) (pindexNew nTx : Nat) : IndexState :=
  state.setEntry pindexNew
    ({ state.entry pindexNew with nTx := nTx, nChainTx := 0, fHaveData := true }.raiseValidity
      blockValidTransactions)

section Noting

variable {pindexNew nTx : Nat}

theorem noted_other (other : Nat) (different : other ≠ pindexNew) :
    (noted state pindexNew nTx).entry other = state.entry other := if_neg different

theorem noted_new (usable : (state.entry pindexNew).failed = false) :
    let entry := (noted state pindexNew nTx).entry pindexNew
    entry.pprev = (state.entry pindexNew).pprev ∧
      entry.nChainWork = (state.entry pindexNew).nChainWork ∧
      entry.nTx = nTx ∧ entry.nChainTx = 0 ∧ entry.fHaveData = true ∧
      blockValidTransactions ≤ entry.nValidity ∧ entry.failed = false := by
  have unmarked := usable
  unfold CBlockIndex.failed at unmarked
  simp only [noted, IndexState.setEntry, if_pos, CBlockIndex.raiseValidity, CBlockIndex.failed,
    unmarked]
  split
  · rename_i impossible
    cases impossible
  · split
    · exact ⟨rfl, rfl, rfl, rfl, rfl, Nat.le_refl _, unmarked⟩
    · rename_i enough
      exact ⟨rfl, rfl, rfl, rfl, rfl, Nat.le_of_not_lt enough, unmarked⟩

theorem noted_kept (shape : Shape state []) (usable : (state.entry pindexNew).failed = false)
    (missing : (state.entry pindexNew).fHaveData = false) (other : Nat) :
    ((noted state pindexNew nTx).entry other).pprev = (state.entry other).pprev ∧
      ((noted state pindexNew nTx).entry other).nChainWork = (state.entry other).nChainWork ∧
      (noted state pindexNew nTx).linked other = state.linked other := by
  by_cases same : other = pindexNew
  · subst same
    have new := @noted_new state other nTx usable
    refine ⟨new.1, new.2.1, ?_⟩
    have before : state.linked other = false := by
      by_contra linked
      have data := (shape.linked other (by simpa using linked)).1
      rw [missing] at data
      cases data
    rw [before, IndexState.linked, new.2.2.2.1]
    rfl
  · unfold IndexState.linked
    rw [noted_other other same]
    exact ⟨rfl, rfl, rfl⟩

theorem noted_parentLinked (shape : Shape state [])
    (usable : (state.entry pindexNew).failed = false)
    (missing : (state.entry pindexNew).fHaveData = false) (other : Nat) :
    (noted state pindexNew nTx).parentLinked other = state.parentLinked other := by
  rw [Bool.eq_iff_iff, parentLinked_iff, parentLinked_iff,
    (noted_kept shape usable missing other).1]
  simp only [(@noted_kept state pindexNew nTx shape usable missing _).2.2]

theorem noted_shape (shape : Shape state []) (inside : pindexNew < state.count)
    (transactions : 0 < nTx) (usable : (state.entry pindexNew).failed = false)
    (missing : (state.entry pindexNew).fHaveData = false) (queue : List Nat)
    (pairs : List (Nat × Nat))
    (placed : queue = [pindexNew] ∧ pairs = [] ∧ state.parentLinked pindexNew = true ∨
      queue = [] ∧ ∃ pprev, pairs = [(pprev, pindexNew)] ∧
        (state.entry pindexNew).pprev = some pprev ∧ state.linked pprev = false) :
    Shape
      { noted state pindexNew nTx with
        mapBlocksUnlinked := state.mapBlocksUnlinked ++ pairs } queue := by
  have kept := @noted_kept state pindexNew nTx shape usable missing
  have new := @noted_new state pindexNew nTx usable
  have notLinked : state.linked pindexNew = false := by
    rw [← (kept pindexNew).2.2, IndexState.linked, new.2.2.2.1]
    rfl
  have data : ∀ other, ((noted state pindexNew nTx).entry other).fHaveData = true ↔
      other = pindexNew ∨ (state.entry other).fHaveData = true := by
    intro other
    by_cases same : other = pindexNew
    · rw [same, new.2.2.2.2.1]
      simp
    · rw [noted_other other same]
      simp [same]
  have newChild : pindexNew ∉ state.mapBlocksUnlinked.map Prod.snd := by
    intro member
    obtain ⟨pair, inUnlinked, same⟩ := mem_map.mp member
    have hasData := (shape.unlinked pair inUnlinked).2.1
    rw [same, missing] at hasData
    cases hasData
  exact
    { fresh := fun other outside => by
        change state.count ≤ other at outside
        change (noted state pindexNew nTx).entry other = _
        rw [noted_other other (by omega)]
        exact shape.fresh other outside
      grows := fun other pprev isParent => by
        change ((noted state pindexNew nTx).entry other).pprev = _ at isParent
        change _ ∧ ((noted state pindexNew nTx).entry pprev).nChainWork <
          ((noted state pindexNew nTx).entry other).nChainWork
        rw [(kept other).1] at isParent
        rw [(kept other).2.1, (kept pprev).2.1]
        exact shape.grows other pprev isParent
      linked := fun other isLinked => by
        change (noted state pindexNew nTx).linked other = true at isLinked
        change ((noted state pindexNew nTx).entry other).fHaveData = true ∧
          (noted state pindexNew nTx).parentLinked other = true
        rw [(kept other).2.2] at isLinked
        rw [noted_parentLinked shape usable missing, data other]
        exact ⟨Or.inr (shape.linked other isLinked).1, (shape.linked other isLinked).2⟩
      received := fun other hasData => by
        change 0 < ((noted state pindexNew nTx).entry other).nTx ∧
          _ ≤ ((noted state pindexNew nTx).entry other).nValidity
        by_cases same : other = pindexNew
        · rw [same, new.2.2.1]
          exact ⟨transactions, new.2.2.2.2.2.1⟩
        · rw [noted_other other same]
          exact shape.received other (((data other).mp hasData).resolve_left same)
      tree := fun other => by
        change _ ≤ ((noted state pindexNew nTx).entry other).nValidity
        by_cases same : other = pindexNew
        · rw [same]
          exact Nat.le_trans (by decide) new.2.2.2.2.2.1
        · rw [noted_other other same]
          exact shape.tree other
      waits := fun other hasData unlinked => by
        change (noted state pindexNew nTx).linked other = false at unlinked
        change _ ∨ ∃ pprev, ((noted state pindexNew nTx).entry other).pprev = some pprev ∧ _
        rw [(kept other).2.2] at unlinked
        rw [(kept other).1]
        obtain same | before := (data other).mp hasData
        · subst same
          obtain ⟨isQueue, _⟩ | ⟨_, pprev, isPairs, isParent, _⟩ := placed
          · rw [isQueue]
            exact Or.inl (mem_singleton.mpr rfl)
          · right
            rw [isPairs]
            exact ⟨pprev, isParent, mem_append_right _ (mem_singleton.mpr rfl)⟩
        · obtain impossible | ⟨pprev, isParent, pair⟩ := shape.waits other before unlinked
          · cases impossible
          · exact Or.inr ⟨pprev, isParent, mem_append_left _ pair⟩
      queued := fun other member => by
        change ((noted state pindexNew nTx).entry other).fHaveData = true ∧
          (noted state pindexNew nTx).linked other = false ∧
          (noted state pindexNew nTx).parentLinked other = true
        rw [noted_parentLinked shape usable missing, data other, (kept other).2.2]
        obtain ⟨isQueue, _, ready⟩ | ⟨isQueue, _⟩ := placed
        · rw [isQueue, mem_singleton] at member
          rw [member]
          exact ⟨Or.inl rfl, notLinked, ready⟩
        · rw [isQueue] at member
          cases member
      unlinked := fun pair member => by
        change ((noted state pindexNew nTx).entry pair.2).pprev = some pair.1 ∧
          ((noted state pindexNew nTx).entry pair.2).fHaveData = true ∧
          (noted state pindexNew nTx).linked pair.2 = false ∧
          (noted state pindexNew nTx).linked pair.1 = false
        rw [(kept pair.2).1, (kept pair.2).2.2, (kept pair.1).2.2, data pair.2]
        obtain before | added := mem_append.mp member
        · obtain ⟨isParent, hasData, child, parent⟩ := shape.unlinked pair before
          exact ⟨isParent, Or.inr hasData, child, parent⟩
        · obtain ⟨_, isPairs, _⟩ | ⟨_, pprev, isPairs, isParent, parent⟩ := placed
          · rw [isPairs] at added
            cases added
          · rw [isPairs, mem_singleton] at added
            rw [added]
            exact ⟨isParent, Or.inl rfl, notLinked, parent⟩
      once := by
        have before := shape.once
        rw [nil_append] at before
        rw [map_append]
        obtain ⟨isQueue, isPairs, _⟩ | ⟨isQueue, pprev, isPairs, _⟩ := placed
        · rw [isQueue, isPairs, map_nil, append_nil, singleton_append,
            nodup_cons]
          exact ⟨newChild, before⟩
        · rw [isQueue, isPairs, nil_append, map_singleton,
            nodup_append_comm, singleton_append, nodup_cons]
          exact ⟨newChild, before⟩ }

end Noting

end Growing

end ZenonCore.BlockIndexShape
