import Mathlib.Tactic.SplitIfs
import ZenonCore.Library.Ancestors
import ZenonCore.Library.Runs

/-!
# The skip list of the block index

`GetAncestor` and `BuildSkip`. Pointers are positions in the list of entries; a null pointer
that is followed has no result.
-/

namespace ZenonCore.SkipList

open Ancestors Library.Runs

abbrev Pointer := Option Nat

/-- What the walk reads of a `CBlockIndex`; a height is never negative. -/
structure Entry where
  pprev : Pointer
  pskip : Pointer
  nHeight : Nat
deriving DecidableEq, Repr

abbrev Tree := List Entry

def invertLowestOne (n : Nat) : Nat := n &&& (n - 1)

def getSkipHeight (height : Nat) : Nat :=
  if height < 2 then 0
  else if height % 2 = 1 then invertLowestOne (invertLowestOne (height - 1)) + 1
  else invertLowestOne height

def followsSkip (height heightWalk : Nat) : Bool :=
  let heightSkip := getSkipHeight heightWalk
  let heightSkipPrev := getSkipHeight (heightWalk - 1)
  decide (heightSkip = height) ||
    (decide (height < heightSkip) &&
      !(decide (heightSkipPrev + 2 < heightSkip) && decide (height ≤ heightSkipPrev)))

theorem invertLowestOne_le (n : Nat) : invertLowestOne n ≤ n - 1 := Nat.and_le_right

theorem getSkipHeight_lt (height : Nat) (positive : 0 < height) : getSkipHeight height < height := by
  unfold getSkipHeight
  have once := invertLowestOne_le height
  have before := invertLowestOne_le (height - 1)
  have twice := invertLowestOne_le (invertLowestOne (height - 1))
  split_ifs <;> omega

def walk (tree : Tree) (height : Nat) (pindexWalk : Pointer) (heightWalk : Nat) : Option Pointer :=
  if height < heightWalk then
    match pindexWalk.bind fun pindex => tree[pindex]? with
    | none => none
    | some entry =>
      if followsSkip height heightWalk then walk tree height entry.pskip (getSkipHeight heightWalk)
      else walk tree height entry.pprev (heightWalk - 1)
  else some pindexWalk
termination_by heightWalk
decreasing_by
  · exact getSkipHeight_lt heightWalk (by omega)
  · omega

def getAncestor (tree : Tree) (pindex : Nat) (height : Int) : Option Pointer :=
  match tree[pindex]? with
  | none => none
  | some entry =>
    if entry.nHeight < height ∨ height < 0 then some none
    else walk tree height.toNat (some pindex) entry.nHeight

def buildSkip (tree : Tree) (pprev nHeight : Nat) : Option Pointer :=
  getAncestor tree pprev (getSkipHeight nHeight)

def addToBlockIndex (tree : Tree) : Pointer → Option Tree
  | none => some (tree ++ [{ pprev := none, pskip := none, nHeight := 0 }])
  | some pprev =>
    match tree[pprev]? with
    | none => none
    | some parent =>
      (buildSkip tree pprev (parent.nHeight + 1)).map fun pskip =>
        tree ++ [{ pprev := some pprev, pskip := pskip, nHeight := parent.nHeight + 1 }]

section Invariant

/-- The entry reached by following `pprev` a number of times. -/
def follow (tree : Tree) (steps pindex : Nat) : Pointer := up Entry.pprev tree steps pindex

/-- Every entry is one above its parent, and its skip is its ancestor at the
height of the skip. -/
structure Linked (tree : Tree) : Prop where
  forest : Forest Entry.pprev Entry.nHeight tree
  skips : ∀ pindex entry, tree[pindex]? = some entry → 0 < entry.nHeight →
    entry.pskip = follow tree (entry.nHeight - getSkipHeight entry.nHeight) pindex

theorem followsSkip_height (height heightWalk : Nat) (skips : followsSkip height heightWalk = true) :
    height ≤ getSkipHeight heightWalk := by
  unfold followsSkip at skips
  rw [Bool.or_eq_true, Bool.and_eq_true, decide_eq_true_eq, decide_eq_true_eq] at skips
  obtain same | ⟨less, _⟩ := skips
  · exact Nat.le_of_eq same.symm
  · exact Nat.le_of_lt less

variable (tree : Tree)

theorem walk_eq (linked : Linked tree) (height heightWalk pindex : Nat) (entry : Entry)
    (found : tree[pindex]? = some entry) (here : entry.nHeight = heightWalk)
    (within : height ≤ heightWalk) :
    walk tree height (some pindex) heightWalk = some (follow tree (heightWalk - height) pindex) := by
  induction heightWalk using Nat.strongRecOn generalizing pindex entry with
  | _ heightWalk ih =>
    rw [walk]
    by_cases above : height < heightWalk
    · rw [if_pos above, Option.bind_some, found]
      dsimp only
      -- the rest of the walk, from the entry at the height it has come to
      have rest : ∀ pointer lower, lower < heightWalk → height ≤ lower →
          pointer = follow tree (heightWalk - lower) pindex →
          walk tree height pointer lower = some (follow tree (heightWalk - height) pindex) := by
        intro pointer lower less least same
        rcases up_exists tree linked.forest (heightWalk - lower) pindex entry found (by omega) with
          ⟨above, other, reached, there, sum⟩
        have split : heightWalk - height = heightWalk - lower + (lower - height) := by omega
        have further : follow tree (heightWalk - height) pindex =
            follow tree (lower - height) above := by
          unfold follow
          rw [split, up_add, reached, Option.bind_some]
        unfold follow at same
        rw [further, same, reached]
        exact ih lower less above other there (by omega) least
      split_ifs with skips
      · apply rest _ _ (getSkipHeight_lt heightWalk (by omega)) (followsSkip_height _ _ skips)
        rw [← here]
        exact linked.skips pindex entry found (by omega)
      · apply rest _ _ (by omega) (by omega)
        have once : heightWalk - (heightWalk - 1) = 1 := by omega
        unfold follow
        rw [once, up, found, Option.bind_some]
        cases entry.pprev with
        | none => rfl
        | some above => rfl
    · have same : heightWalk - height = 0 := by omega
      rw [if_neg above, same]
      rfl

theorem getAncestor_eq (linked : Linked tree) (pindex : Nat) (entry : Entry)
    (found : tree[pindex]? = some entry) (height : Nat) (within : height ≤ entry.nHeight) :
    getAncestor tree pindex height = some (follow tree (entry.nHeight - height) pindex) := by
  unfold getAncestor
  rw [found]
  dsimp only
  rw [if_neg (by omega), Int.toNat_natCast]
  exact walk_eq tree linked height entry.nHeight pindex entry found rfl within

theorem linked_nil : Linked [] where
  forest := by
    intro pindex entry found
    cases found
  skips := by
    intro pindex entry found
    cases found

theorem follow_append (tree later : Tree) (linked : Linked tree) (pindex : Nat) (entry : Entry)
    (found : tree[pindex]? = some entry) (steps : Nat) (within : steps ≤ entry.nHeight) :
    follow (tree ++ later) steps pindex = follow tree steps pindex := by
  obtain ⟨above, _, reached, _, _⟩ := up_exists tree linked.forest steps pindex entry found within
  unfold follow
  rw [reached]
  exact up_append tree later steps pindex above reached

theorem linked_concat (linked : Linked tree) (entry : Entry)
    (placed : Placed Entry.pprev Entry.nHeight tree entry)
    (skip : 0 < entry.nHeight → entry.pskip =
      follow (tree ++ [entry]) (entry.nHeight - getSkipHeight entry.nHeight) tree.length) :
    Linked (tree ++ [entry]) where
  forest := forest_append tree linked.forest entry placed
  skips := by
    intro pindex other found positive
    obtain before | ⟨last, same⟩ := getElem?_concat_cases tree entry other pindex found
    · rw [follow_append tree [entry] linked pindex other before _ (Nat.sub_le _ _)]
      exact linked.skips pindex other before positive
    · rw [last, same]
      exact skip (same ▸ positive)

theorem addToBlockIndex_linked (linked : Linked tree) (pprev : Pointer)
    (known : ∀ parent, pprev = some parent → ∃ above, tree[parent]? = some above) :
    ∃ entry, addToBlockIndex tree pprev = some (tree ++ [entry]) ∧ Linked (tree ++ [entry]) := by
  cases pprev with
  | none =>
    refine ⟨{ pprev := none, pskip := none, nHeight := 0 }, rfl, ?_⟩
    have placed : Placed Entry.pprev Entry.nHeight tree
        { pprev := none, pskip := none, nHeight := 0 } := rfl
    apply linked_concat tree linked _ placed
    intro positive
    exact absurd positive (Nat.lt_irrefl 0)
  | some parent =>
    obtain ⟨above, found⟩ := known parent rfl
    have lower := getSkipHeight_lt (above.nHeight + 1) (Nat.succ_pos _)
    have built := getAncestor_eq tree linked parent above found
      (getSkipHeight (above.nHeight + 1)) (Nat.lt_succ_iff.mp lower)
    have added : addToBlockIndex tree (some parent) = some (tree ++
        [{ pprev := some parent
           pskip := follow tree (above.nHeight - getSkipHeight (above.nHeight + 1)) parent
           nHeight := above.nHeight + 1 }]) := by
      unfold addToBlockIndex buildSkip
      dsimp only
      rw [found]
      dsimp only
      rw [built, Option.map_some]
    refine ⟨_, added, ?_⟩
    apply linked_concat tree linked
    · exact ⟨above, found, rfl⟩
    · intro _
      have steps : above.nHeight + 1 - getSkipHeight (above.nHeight + 1) =
          above.nHeight - getSkipHeight (above.nHeight + 1) + 1 := by omega
      dsimp only
      unfold follow
      rw [steps, up, List.getElem?_concat_length, Option.bind_some, Option.bind_some]
      exact (follow_append tree _ linked parent above found _ (Nat.sub_le _ _)).symm

end Invariant

theorem run_linked (parents : List Pointer) (tree : Tree)
    (built : run addToBlockIndex [] parents = some tree) : Linked tree := by
  apply invariant_of_run addToBlockIndex Linked _ [] tree parents linked_nil built
  intro before pprev after linked added
  have known : ∀ parent, pprev = some parent → ∃ above, before[parent]? = some above := by
    intro parent named
    cases found : before[parent]? with
    | some above => exact ⟨above, rfl⟩
    | none =>
      rw [named] at added
      unfold addToBlockIndex at added
      dsimp only at added
      rw [found] at added
      cases added
  obtain ⟨entry, same, after⟩ := addToBlockIndex_linked before linked pprev known
  rw [same] at added
  cases added
  exact after

/-- `GetAncestor` returns the entry reached by following `pprev` to the height, and null if that is
negative or above the entry. So it does for the skip of any entry that is added. -/
theorem getAncestor_follows_pprev (parents : List Pointer) (tree : Tree)
    (built : run addToBlockIndex [] parents = some tree) (pindex : Nat) (entry : Entry)
    (found : tree[pindex]? = some entry) :
    (∀ height : Int, height < 0 ∨ entry.nHeight < height →
      getAncestor tree pindex height = some none) ∧
      (∀ height : Nat, height ≤ entry.nHeight → ∃ ancestor reached,
        getAncestor tree pindex height = some (some ancestor) ∧
          follow tree (entry.nHeight - height) pindex = some ancestor ∧
          tree[ancestor]? = some reached ∧ reached.nHeight = height) ∧
      ∃ after, run addToBlockIndex [] (parents ++ [some pindex]) = some after := by
  have linked := run_linked parents tree built
  refine ⟨?_, ?_, ?_⟩
  · intro height outside
    unfold getAncestor
    rw [found]
    exact if_pos (Or.comm.mp outside)
  · intro height within
    rcases up_exists tree linked.forest (entry.nHeight - height) pindex entry found
      (Nat.sub_le _ _) with ⟨ancestor, reached, followed, there, sum⟩
    refine ⟨ancestor, reached, ?_, followed, there, by omega⟩
    rw [getAncestor_eq tree linked pindex entry found height within]
    exact congrArg some followed
  · have known : ∀ parent, some pindex = some parent → ∃ above, tree[parent]? = some above := by
      intro parent same
      rw [← Option.some.inj same]
      exact ⟨entry, found⟩
    obtain ⟨added, taken, _⟩ := addToBlockIndex_linked tree linked (some pindex) known
    exact ⟨_, run_snoc_some addToBlockIndex [] tree _ parents (some pindex) built taken⟩

def twoBranches : Tree :=
  [{ pprev := none, pskip := none, nHeight := 0 },
    { pprev := some 0, pskip := some 0, nHeight := 1 },
    { pprev := some 1, pskip := some 0, nHeight := 2 },
    { pprev := some 2, pskip := some 1, nHeight := 3 },
    { pprev := some 2, pskip := some 1, nHeight := 3 },
    { pprev := some 3, pskip := some 0, nHeight := 4 },
    { pprev := some 5, pskip := some 1, nHeight := 5 }]

theorem twoBranches_ancestors :
    getAncestor twoBranches 6 6 = some none ∧ ∃ ancestor reached,
      getAncestor twoBranches 6 (2 : Nat) = some (some ancestor) ∧
        follow twoBranches 3 6 = some ancestor ∧
        twoBranches[ancestor]? = some reached ∧ reached.nHeight = 2 := by
  have built : run addToBlockIndex []
      [none, some 0, some 1, some 2, some 2, some 3, some 5] = some twoBranches := by
    decide +kernel
  have follows := getAncestor_follows_pprev _ twoBranches built 6
    { pprev := some 5, pskip := some 1, nHeight := 5 } rfl
  exact ⟨follows.1 6 (Or.inr (by decide)), follows.2.1 2 (by decide)⟩

end ZenonCore.SkipList
