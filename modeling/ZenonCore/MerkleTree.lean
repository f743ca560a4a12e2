import ZenonCore.Library.MerkleTrees
import ZenonCore.Primitives

/-!
# The merkle tree of a block

`BuildMerkleTree`, `GetMerkleBranch` and `CheckMerkleBranch` on one list of levels. A block
has less than 2²⁵ transactions, so no `int` overflows.
-/

namespace ZenonCore.MerkleTree

open MerkleTrees Primitives List

structure MerkleState where
  vMerkleTree : List Uint256
  mutated : Bool
deriving DecidableEq, Repr

variable (hash : Uint256 → Uint256 → Uint256)

def combineAt (j nSize : Nat) (state : MerkleState) (k : Nat) : MerkleState :=
  let i := 2 * k
  let i2 := min (i + 1) (nSize - 1)
  let left := state.vMerkleTree.getD (j + i) 0
  let right := state.vMerkleTree.getD (j + i2) 0
  { vMerkleTree := state.vMerkleTree ++ [hash left right]
    mutated := state.mutated || (i2 == i + 1 && (i2 + 1 == nSize && decide (left = right))) }

def buildLevels (nSize j : Nat) (state : MerkleState) : MerkleState :=
  if 1 < nSize then
    buildLevels ((nSize + 1) / 2) (j + nSize)
      ((List.range ((nSize + 1) / 2)).foldl (combineAt hash j nSize) state)
  else state
termination_by nSize

def leaves (vtx : List CTransaction) : List Uint256 := vtx.map fun tx => tx.hash

/-- What `BuildMerkleTree` leaves in the block and in its argument. -/
def builtTree (vtx : List CTransaction) : MerkleState :=
  buildLevels hash vtx.length 0 { vMerkleTree := leaves vtx, mutated := false }

def buildMerkleTree (vtx : List CTransaction) : Uint256 × Bool :=
  ((builtTree hash vtx).vMerkleTree.getLastD 0, (builtTree hash vtx).mutated)

def branchFrom (vMerkleTree : List Uint256) (nSize j nIndex : Nat) : List Uint256 :=
  if 1 < nSize then
    vMerkleTree.getD (j + min (nIndex ^^^ 1) (nSize - 1)) 0 ::
      branchFrom vMerkleTree ((nSize + 1) / 2) (j + nSize) (nIndex / 2)
  else []
termination_by nSize

/-- `GetMerkleBranch` of a block with the tree it holds, empty until it is built. -/
def getMerkleBranch (vMerkleTree : List Uint256) (vtx : List CTransaction) (nIndex : Nat) :
    List Uint256 :=
  branchFrom (if vMerkleTree.isEmpty then (builtTree hash vtx).vMerkleTree else vMerkleTree)
    vtx.length 0 nIndex

def foldBranch : Uint256 → List Uint256 → Int → Uint256
  | node, [], _ => node
  | node, sibling :: rest, nIndex =>
    foldBranch (if nIndex % 2 = 1 then hash sibling node else hash node sibling) rest (nIndex / 2)

def checkMerkleBranch (node : Uint256) (vMerkleBranch : List Uint256) (nIndex : Int) : Uint256 :=
  if nIndex = -1 then 0 else foldBranch hash node vMerkleBranch nIndex

section Levels

theorem getD_level (before level behind : List Uint256) (i : Nat) (inside : i < level.length) :
    (before ++ (level ++ behind)).getD (before.length + i) 0 = level.getD i 0 := by
  rw [getD_append_right _ _ _ _ (Nat.le_add_right _ _), Nat.add_sub_cancel_left,
    getD_append _ _ _ _ inside]

variable (before level : List Uint256)

theorem foldl_combineAt (mutated : Bool) (count : Nat)
    (rounds : count ≤ (level.length + 1) / 2) :
    (range count).foldl (combineAt hash before.length level.length)
        { vMerkleTree := before ++ level, mutated := mutated } =
      { vMerkleTree := before ++ (level ++ (range count).map fun k =>
          hash (level.getD (2 * k) 0) (level.getD (min (2 * k + 1) (level.length - 1)) 0))
        mutated := mutated || (range count).any fun k =>
          min (2 * k + 1) (level.length - 1) == 2 * k + 1 &&
            (min (2 * k + 1) (level.length - 1) + 1 == level.length &&
              decide (level.getD (2 * k) 0 =
                level.getD (min (2 * k + 1) (level.length - 1)) 0)) } := by
  induction count with
  | zero =>
    rw [range_zero, foldl_nil, map_nil, append_nil, any_nil,
      Bool.or_false]
  | succ count ih =>
    have first : 2 * count < level.length := by omega
    have second : min (2 * count + 1) (level.length - 1) < level.length := by omega
    rw [range_succ, foldl_append, ih (Nat.le_of_succ_le rounds), foldl_cons,
      foldl_nil, combineAt]
    dsimp only
    rw [getD_level _ _ _ _ first, getD_level _ _ _ _ second, map_append, any_append,
      map_singleton, any_cons, any_nil, Bool.or_false, Bool.or_assoc,
      append_assoc, append_assoc]

theorem round_eq (mutated : Bool) :
    (range ((level.length + 1) / 2)).foldl (combineAt hash before.length level.length)
        { vMerkleTree := before ++ level, mutated := mutated } =
      { vMerkleTree := (before ++ level) ++ nextLevel hash level
        mutated := mutated || endsTwice level } := by
  rw [foldl_combineAt hash before level mutated _ (Nat.le_refl _), endsTwice_eq level 0, nextLevel,
    pairs_eq level 0, map_map, append_assoc]
  rfl

theorem buildLevels_eq (found : Bool) :
    buildLevels hash level.length before.length
        { vMerkleTree := before ++ level, mutated := found } =
      { vMerkleTree := before ++ (levels hash level).flatten
        mutated := found || mutated hash level } := by
  induction level using levels.induct hash generalizing before found with
  | case1 level short =>
    rw [buildLevels, if_neg (Nat.not_lt.mpr short), levels_short level short,
      flatten_singleton, mutated_short level short, Bool.or_false]
  | case2 level long ih =>
    have more := Nat.not_le.mp long
    have next := ih (before ++ level) (found || endsTwice level)
    rw [nextLevel_length, length_append] at next
    rw [buildLevels, if_pos more, round_eq, next, levels_long level more, flatten_cons,
      append_assoc, mutated_long level more, Bool.or_assoc]

theorem builtTree_eq (vtx : List CTransaction) :
    builtTree hash vtx =
      { vMerkleTree := (levels hash (leaves vtx)).flatten
        mutated := mutated hash (leaves vtx) } := by
  have length : vtx.length = (leaves vtx).length := (length_map _).symm
  have built := buildLevels_eq hash [] (leaves vtx) false
  unfold builtTree
  rw [length]
  exact built

theorem buildMerkleTree_eq (vtx : List CTransaction) :
    buildMerkleTree hash vtx =
      ((root hash (leaves vtx)).getD 0, mutated hash (leaves vtx)) := by
  unfold buildMerkleTree
  rw [builtTree_eq, ← getLast?_levels, getLastD_eq_getLast?]

theorem branchFrom_eq (nIndex : Nat) :
    branchFrom (before ++ (levels hash level).flatten) level.length before.length nIndex =
      branch hash 0 level nIndex := by
  induction level using levels.induct hash generalizing before nIndex with
  | case1 level short =>
    rw [branchFrom, if_neg (Nat.not_lt.mpr short), branch, if_pos short]
  | case2 level long ih =>
    have more := Nat.not_le.mp long
    have next := ih (before ++ level) (nIndex / 2)
    rw [nextLevel_length, length_append, append_assoc] at next
    rw [levels_long level more, flatten_cons, branchFrom, if_pos more, next,
      getD_level _ _ _ _ (by omega)]
    conv_rhs => rw [branch, if_neg long]

end Levels

theorem foldBranch_eq (node : Uint256) (vMerkleBranch : List Uint256) (nIndex : Nat) :
    foldBranch hash node vMerkleBranch nIndex = climb hash node vMerkleBranch nIndex := by
  induction vMerkleBranch generalizing node nIndex with
  | nil => rfl
  | cons sibling rest ih =>
    have half : (nIndex : Int) / 2 = (nIndex / 2 : Nat) := rfl
    have odd : (nIndex : Int) % 2 = 1 ↔ nIndex % 2 = 1 := by omega
    rw [foldBranch, climb, half, ih]
    simp only [odd]

theorem getMerkleBranch_eq (vMerkleTree : List Uint256) (vtx : List CTransaction) (nIndex : Nat)
    (built : vMerkleTree = [] ∨ vMerkleTree = (builtTree hash vtx).vMerkleTree) :
    getMerkleBranch hash vMerkleTree vtx nIndex = branch hash 0 (leaves vtx) nIndex := by
  have length : vtx.length = (leaves vtx).length := (length_map _).symm
  have tree : (if vMerkleTree.isEmpty then (builtTree hash vtx).vMerkleTree else vMerkleTree) =
      [] ++ (levels hash (leaves vtx)).flatten := by
    obtain empty | whole := built
    · rw [empty, builtTree_eq]
      rfl
    · rw [whole, builtTree_eq]
      exact ite_self _
  unfold getMerkleBranch
  rw [tree, length]
  exact branchFrom_eq hash [] (leaves vtx) nIndex

/-- The branch of any transaction leads from its hash to the root, whether the
tree was built before or not. -/
theorem branch_leads_to_root (vtx : List CTransaction) (vMerkleTree : List Uint256)
    (built : vMerkleTree = [] ∨ vMerkleTree = (builtTree hash vtx).vMerkleTree) (nIndex : Nat)
    (tx : CTransaction) (found : vtx[nIndex]? = some tx) :
    checkMerkleBranch hash tx.hash (getMerkleBranch hash vMerkleTree vtx nIndex) nIndex =
      (buildMerkleTree hash vtx).1 := by
  have inside : nIndex < (leaves vtx).length := by
    rw [leaves, length_map]
    exact (List.getElem?_eq_some_iff.mp found).1
  have leaf : (leaves vtx).getD nIndex 0 = tx.hash := by
    rw [leaves, getD_eq_getElem?_getD, getElem?_map, found]
    rfl
  have climbs : root hash (leaves vtx) =
      some (climb hash ((leaves vtx).getD nIndex 0) (branch hash 0 (leaves vtx) nIndex) nIndex) :=
    climb_branch 0 (leaves vtx) nIndex inside
  unfold checkMerkleBranch
  rw [if_neg (by omega), foldBranch_eq, getMerkleBranch_eq hash vMerkleTree vtx nIndex built,
    buildMerkleTree_eq, climbs, leaf, Option.getD_some]

/-- A function of two nodes in the place of the hash, and transactions by their hashes. -/
def mixed (left right : Uint256) : Uint256 := 3 * left + 5 * right + 1000

def numbered (hashes : List Uint256) : List CTransaction :=
  hashes.map fun hash => { hash := hash, nVersion := 1, vin := [], vout := [], nLockTime := 0 }

/-- The last of five transactions is combined with itself twice. -/
theorem fifth_leads_to_root :
    checkMerkleBranch mixed 5 (getMerkleBranch mixed [] (numbered [1, 2, 3, 4, 5]) 4) (4 : Nat) =
      (buildMerkleTree mixed (numbered [1, 2, 3, 4, 5])).1 :=
  branch_leads_to_root mixed (numbered [1, 2, 3, 4, 5]) [] (Or.inl rfl) 4 _ rfl

end ZenonCore.MerkleTree
