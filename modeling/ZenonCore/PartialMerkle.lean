import ZenonCore.CheckBlock
import ZenonCore.MerkleTree

/-!
# Partial merkle trees

`CPartialMerkleTree`: building and extracting descend the same tree, the second on whatever a
peer has sent. At most `MAX_BLOCK_SIZE_CURRENT / 60` transactions keep every width an
`unsigned int`.
-/

namespace ZenonCore.PartialMerkle

open MerkleTrees MerkleTree Primitives List
open CheckBlock (maxBlockSizeCurrent)

structure CPartialMerkleTree (α : Type) where
  nTransactions : Nat
  vBits : List Bool
  vHash : List α
  fBad : Bool
deriving DecidableEq, Repr

structure Traversal (α : Type) where
  fBad : Bool
  nBitsUsed : Nat
  nHashUsed : Nat
  vMatch : List α
deriving DecidableEq, Repr

/-- What `ExtractMatches` returns, and leaves in its argument and in the flag. -/
structure Extracted (α : Type) where
  root : α
  vMatch : List α
  fBad : Bool
deriving DecidableEq, Repr

section Source

variable {α : Type} [Zero α] (hash : α → α → α)

def calcTreeWidth (nTransactions height : Nat) : Nat :=
  (nTransactions + (1 <<< height) - 1) >>> height

def calcHash (nTransactions : Nat) (vTxid : List α) : Nat → Nat → α
  -- hash at height 0 is the txids themselves
  | 0, pos => vTxid.getD pos 0
  | height + 1, pos =>
    let left := calcHash nTransactions vTxid height (pos * 2)
    let right :=
      if pos * 2 + 1 < calcTreeWidth nTransactions height then
        calcHash nTransactions vTxid height (pos * 2 + 1)
      else left
    hash left right

def parentOfMatch (nTransactions height pos : Nat) (vMatch : List Bool) : Bool :=
  let first := pos <<< height
  let last := min ((pos + 1) <<< height) nTransactions
  (List.range' first (last - first)).any fun p => vMatch.getD p false

def traverseAndBuild (vTxid : List α) (vMatch : List Bool) :
    Nat → Nat → CPartialMerkleTree α → CPartialMerkleTree α
  | 0, pos, tree =>
    { tree with
      vBits := tree.vBits ++ [parentOfMatch tree.nTransactions 0 pos vMatch]
      vHash := tree.vHash ++ [calcHash hash tree.nTransactions vTxid 0 pos] }
  | height + 1, pos, tree =>
    let fParentOfMatch := parentOfMatch tree.nTransactions (height + 1) pos vMatch
    let flagged := { tree with vBits := tree.vBits ++ [fParentOfMatch] }
    if !fParentOfMatch then
      { flagged with
        vHash := tree.vHash ++ [calcHash hash tree.nTransactions vTxid (height + 1) pos] }
    else
      let left := traverseAndBuild vTxid vMatch height (pos * 2) flagged
      if pos * 2 + 1 < calcTreeWidth tree.nTransactions height then
        traverseAndBuild vTxid vMatch height (pos * 2 + 1) left
      else left

/-- Uses a stored hash; at height 0 it may be a matched txid. -/
def useHash (tree : CPartialMerkleTree α) (fMatched : Bool) (state : Traversal α) :
    α × Traversal α :=
  match tree.vHash[state.nHashUsed]? with
  | none => (0, { state with fBad := true })
  | some stored =>
    (stored,
      { state with
        nHashUsed := state.nHashUsed + 1
        vMatch := if fMatched then state.vMatch ++ [stored] else state.vMatch })

def traverseAndExtract (tree : CPartialMerkleTree α) :
    Nat → Nat → Traversal α → α × Traversal α
  | height, pos, state =>
    match tree.vBits[state.nBitsUsed]? with
    | none => (0, { state with fBad := true })
    | some fParentOfMatch =>
      let state := { state with nBitsUsed := state.nBitsUsed + 1 }
      match height with
      | 0 => useHash tree fParentOfMatch state
      | height + 1 =>
        if !fParentOfMatch then useHash tree false state
        else
          let left := traverseAndExtract tree height (pos * 2) state
          let right :=
            if pos * 2 + 1 < calcTreeWidth tree.nTransactions height then
              traverseAndExtract tree height (pos * 2 + 1) left.2
            else left
          (hash left.1 right.1, right.2)

theorem calcTreeWidth_eq (nTransactions height : Nat) :
    calcTreeWidth nTransactions height = (nTransactions + 2 ^ height - 1) / 2 ^ height := by
  unfold calcTreeWidth
  rw [Nat.shiftLeft_eq, Nat.one_mul, Nat.shiftRight_eq_div_pow]

theorem lt_calcTreeWidth (nTransactions height pos : Nat) :
    pos < calcTreeWidth nTransactions height ↔ pos * 2 ^ height < nTransactions := by
  have positive : 0 < 2 ^ height := Nat.two_pow_pos height
  rw [calcTreeWidth_eq, ← Nat.succ_le_iff, Nat.le_div_iff_mul_le positive, Nat.succ_mul]
  omega

/-- The loop `while (CalcTreeWidth(nHeight) > 1) nHeight++`. -/
def treeHeight (nTransactions nHeight : Nat) : Nat :=
  if 1 < calcTreeWidth nTransactions nHeight then treeHeight nTransactions (nHeight + 1)
  else nHeight
termination_by nTransactions - nHeight
decreasing_by
  rename_i wide
  have leaf := (lt_calcTreeWidth nTransactions nHeight 1).mp wide
  have power : nHeight < 2 ^ nHeight := Nat.lt_two_pow_self
  omega

def ofMatches (vTxid : List α) (vMatch : List Bool) : CPartialMerkleTree α :=
  traverseAndBuild hash vTxid vMatch (treeHeight vTxid.length 0) 0
    { nTransactions := vTxid.length, vBits := [], vHash := [], fBad := false }

def extractMatches (tree : CPartialMerkleTree α) : Extracted α :=
  if tree.nTransactions = 0 then { root := 0, vMatch := [], fBad := tree.fBad }
  else if tree.nTransactions > maxBlockSizeCurrent / 60 then
    { root := 0, vMatch := [], fBad := tree.fBad }
  else if tree.vHash.length > tree.nTransactions then
    { root := 0, vMatch := [], fBad := tree.fBad }
  else if tree.vBits.length < tree.vHash.length then
    { root := 0, vMatch := [], fBad := tree.fBad }
  else
    let extracted :=
      traverseAndExtract hash tree (treeHeight tree.nTransactions 0) 0
        { fBad := tree.fBad, nBitsUsed := 0, nHashUsed := 0, vMatch := [] }
    let hashMerkleRoot := extracted.1
    let state := extracted.2
    let failed := { root := 0, vMatch := state.vMatch, fBad := state.fBad }
    if state.fBad then failed
    -- all bits but the padding of the last byte
    else if (state.nBitsUsed + 7) / 8 ≠ (tree.vBits.length + 7) / 8 then failed
    else if state.nHashUsed ≠ tree.vHash.length then failed
    else { root := hashMerkleRoot, vMatch := state.vMatch, fBad := state.fBad }

end Source

section Leaves

variable {β : Type}

def below (leaves : List β) (height pos : Nat) : List β :=
  (leaves.drop (pos * 2 ^ height)).take (2 ^ height)

variable (leaves : List β)

theorem below_split (height pos : Nat) :
    below leaves (height + 1) pos =
      below leaves height (pos * 2) ++ below leaves height (pos * 2 + 1) := by
  have twice : 2 ^ (height + 1) = 2 ^ height + 2 ^ height := by
    rw [Nat.pow_succ]
    omega
  have start : pos * 2 ^ (height + 1) = pos * 2 * 2 ^ height := by
    rw [Nat.pow_succ, Nat.mul_comm (2 ^ height) 2, Nat.mul_assoc]
  have middle : (pos * 2 + 1) * 2 ^ height = pos * 2 * 2 ^ height + 2 ^ height := by
    rw [Nat.add_mul, Nat.one_mul]
  unfold below
  rw [start, middle, twice, take_add, drop_drop]

theorem below_outside (height pos : Nat)
    (outside : ¬ pos < calcTreeWidth leaves.length height) : below leaves height pos = [] := by
  rw [lt_calcTreeWidth] at outside
  unfold below
  rw [drop_of_length_le (Nat.not_lt.mp outside), take_nil]

theorem below_all (height : Nat) (within : leaves.length ≤ 2 ^ height) :
    below leaves height 0 = leaves := by
  unfold below
  rw [Nat.zero_mul, drop_zero, take_of_length_le within]

theorem below_map {γ : Type} (f : β → γ) (leaves : List β) (height pos : Nat) :
    below (leaves.map f) height pos = (below leaves height pos).map f := by
  unfold below
  rw [← map_drop, map_take]

theorem below_zero (pos : Nat) (leaf : β) (found : leaves[pos]? = some leaf) :
    below leaves 0 pos = [leaf] := by
  obtain ⟨inside, same⟩ := List.getElem?_eq_some_iff.mp found
  unfold below
  rw [pow_zero, Nat.mul_one, drop_eq_getElem_cons inside, same]
  rfl

theorem range_getD (default : β) (first count : Nat)
    (inside : first + count ≤ leaves.length) :
    (range' first count).map (fun p => leaves.getD p default) =
      (leaves.drop first).take count := by
  induction count generalizing first with
  | zero => simp
  | succ count ih =>
    have more : first < leaves.length := by omega
    rw [range'_succ, map_cons, ih (first + 1) (by omega),
      drop_eq_getElem_cons more, take_succ_cons, getD_eq_getElem _ _ more]

theorem parentOfMatch_eq (vMatch : List Bool) (height pos : Nat)
    (inside : pos < calcTreeWidth vMatch.length height) :
    parentOfMatch vMatch.length height pos vMatch = (below vMatch height pos).any id := by
  rw [lt_calcTreeWidth] at inside
  have first : pos <<< height = pos * 2 ^ height := Nat.shiftLeft_eq pos height
  have last : (pos + 1) <<< height = pos * 2 ^ height + 2 ^ height := by
    rw [Nat.shiftLeft_eq, Nat.add_mul, Nat.one_mul]
  have size : min (pos * 2 ^ height + 2 ^ height) vMatch.length - pos * 2 ^ height =
      min (2 ^ height) (vMatch.length - pos * 2 ^ height) := by
    rw [← Nat.sub_min_sub_right, Nat.add_sub_cancel_left]
  have bound := Nat.min_le_right (2 ^ height) (vMatch.length - pos * 2 ^ height)
  have slice := range_getD vMatch false (pos * 2 ^ height)
    (min (2 ^ height) (vMatch.length - pos * 2 ^ height)) (by omega)
  have whole : (vMatch.drop (pos * 2 ^ height)).take
      (min (2 ^ height) (vMatch.length - pos * 2 ^ height)) = below vMatch height pos := by
    unfold below
    rw [← length_drop, ← take_eq_take_min]
  unfold parentOfMatch
  rw [first, last]
  dsimp only
  rw [size, ← whole, ← slice, any_map]
  rfl

def matched (marked : List (β × Bool)) : List β := (marked.filter Prod.snd).map Prod.fst

theorem matched_append (first second : List (β × Bool)) :
    matched (first ++ second) = matched first ++ matched second := by
  unfold matched
  rw [filter_append, map_append]

theorem matched_none (marked : List (β × Bool)) (nothing : marked.any Prod.snd = false) :
    matched marked = [] := by
  have empty : marked.filter Prod.snd = [] := by
    apply filter_eq_nil_iff.mpr
    intro leaf member holds
    rw [any_eq_false] at nothing
    exact nothing leaf member holds
  unfold matched
  rw [empty, map_nil]

theorem flag_eq (marked : List (β × Bool)) (height pos : Nat)
    (inside : pos < calcTreeWidth marked.length height) :
    parentOfMatch marked.length height pos (marked.map Prod.snd) =
      (below marked height pos).any Prod.snd := by
  have length : marked.length = (marked.map Prod.snd).length := (length_map _).symm
  rw [length] at inside ⊢
  rw [parentOfMatch_eq _ height pos inside, below_map, any_map]
  rfl

end Leaves

section Build

variable {α : Type} [Zero α] (hash : α → α → α)

/-- The bits and hashes of a node, wherever they stand, make the traversal return its hash and
append its matched leaves. -/
structure Encodes (marked : List (α × Bool)) (height pos : Nat) (bits : List Bool)
    (hashes : List α) : Prop where
  size : hashes.length ≤ (below marked height pos).length
  flagged : hashes.length ≤ bits.length
  extracted : ∀ (tree : CPartialMerkleTree α) (before after : List Bool) (used later : List α)
    (state : Traversal α), tree.nTransactions = marked.length →
    tree.vBits = before ++ (bits ++ after) → tree.vHash = used ++ (hashes ++ later) →
    state.nBitsUsed = before.length → state.nHashUsed = used.length →
    traverseAndExtract hash tree height pos state =
      (calcHash hash marked.length (marked.map Prod.fst) height pos,
        { state with
          nBitsUsed := state.nBitsUsed + bits.length
          nHashUsed := state.nHashUsed + hashes.length
          vMatch := state.vMatch ++ matched (below marked height pos) })

theorem getElem?_between {β : Type} (before after : List β) (item : β) (position : Nat)
    (here : position = before.length) : (before ++ ([item] ++ after))[position]? = some item := by
  rw [here, getElem?_append_right (Nat.le_refl _), Nat.sub_self]
  rfl

variable (marked : List (α × Bool))

variable (height pos : Nat)

theorem encodes_unmatched (inside : pos < calcTreeWidth marked.length height)
    (nothing : (below marked height pos).any Prod.snd = false) :
    Encodes hash marked height pos [false]
      [calcHash hash marked.length (marked.map Prod.fst) height pos] where
  size := by
    rw [lt_calcTreeWidth] at inside
    have positive : 0 < 2 ^ height := Nat.two_pow_pos height
    unfold below
    rw [length_take, length_drop, length_singleton]
    omega
  flagged := Nat.le_refl _
  extracted := by
    intro tree before after used later state _ bits hashes bitsUsed hashUsed
    have bit : tree.vBits[state.nBitsUsed]? = some false := by
      rw [bits]
      exact getElem?_between before after false _ bitsUsed
    have stored : tree.vHash[state.nHashUsed]? =
        some (calcHash hash marked.length (marked.map Prod.fst) height pos) := by
      rw [hashes]
      exact getElem?_between used later _ _ hashUsed
    rw [matched_none _ nothing, append_nil, traverseAndExtract, bit]
    cases height with
    | zero =>
      dsimp only
      unfold useHash
      dsimp only
      rw [stored]
      rfl
    | succ height =>
      dsimp only
      rw [if_pos (by rfl)]
      unfold useHash
      dsimp only
      rw [stored]
      rfl

theorem encodes_leaf (pos : Nat) (leaf : α)
    (found : marked[pos]? = some (leaf, true)) :
    Encodes hash marked 0 pos [true] [calcHash hash marked.length (marked.map Prod.fst) 0 pos] where
  size := by
    rw [below_zero marked pos _ found]
    exact Nat.le_refl _
  flagged := Nat.le_refl _
  extracted := by
    intro tree before after used later state _ bits hashes bitsUsed hashUsed
    have bit : tree.vBits[state.nBitsUsed]? = some true := by
      rw [bits]
      exact getElem?_between before after true _ bitsUsed
    have stored : tree.vHash[state.nHashUsed]? =
        some (calcHash hash marked.length (marked.map Prod.fst) 0 pos) := by
      rw [hashes]
      exact getElem?_between used later _ _ hashUsed
    have value : calcHash hash marked.length (marked.map Prod.fst) 0 pos = leaf := by
      rw [calcHash, getD_eq_getElem?_getD, getElem?_map, found]
      rfl
    rw [value] at stored
    rw [below_zero marked pos _ found, traverseAndExtract, bit, value]
    dsimp only
    unfold useHash
    dsimp only
    rw [stored]
    rfl

theorem traversal_ext {β : Type} (state : Traversal β) (bits bits' hashes hashes' : Nat)
    (first second : List β) (sameBits : bits = bits') (sameHashes : hashes = hashes')
    (same : first = second) :
    ({ state with
        nBitsUsed := bits
        nHashUsed := hashes
        vMatch := first } : Traversal β) =
      { state with
        nBitsUsed := bits'
        nHashUsed := hashes'
        vMatch := second } := by
  rw [sameBits, sameHashes, same]

theorem encodes_node (leftBits rightBits : List Bool)
    (leftHashes rightHashes : List α)
    (two : pos * 2 + 1 < calcTreeWidth marked.length height)
    (left : Encodes hash marked height (pos * 2) leftBits leftHashes)
    (right : Encodes hash marked height (pos * 2 + 1) rightBits rightHashes) :
    Encodes hash marked (height + 1) pos (true :: (leftBits ++ rightBits))
      (leftHashes ++ rightHashes) where
  size := by
    have leftSize := left.size
    have rightSize := right.size
    rw [below_split, length_append, length_append]
    omega
  flagged := by
    have leftFlagged := left.flagged
    have rightFlagged := right.flagged
    rw [length_cons, length_append, length_append]
    omega
  extracted := by
    intro tree before after used later state count bits hashes bitsUsed hashUsed
    have bit : tree.vBits[state.nBitsUsed]? = some true := by
      rw [bits]
      exact getElem?_between before (leftBits ++ rightBits ++ after) true _ bitsUsed
    have first := left.extracted tree (before ++ [true]) (rightBits ++ after) used
      (rightHashes ++ later) { state with nBitsUsed := state.nBitsUsed + 1 } count
      (by rw [bits]; simp) (by rw [hashes]; simp) (by simp [bitsUsed]) hashUsed
    have second := right.extracted tree (before ++ [true] ++ leftBits) after (used ++ leftHashes)
      later { state with
        nBitsUsed := state.nBitsUsed + 1 + leftBits.length
        nHashUsed := state.nHashUsed + leftHashes.length
        vMatch := state.vMatch ++ matched (below marked height (pos * 2)) } count
      (by rw [bits]; simp) (by rw [hashes]; simp) (by simp [bitsUsed]; omega) (by simp [hashUsed])
    rw [traverseAndExtract, bit]
    dsimp only
    rw [if_neg (by simp), first, count, if_pos two, second, calcHash, if_pos two]
    refine Prod.ext rfl ?_
    apply traversal_ext
    · simp only [length_cons, length_append]
      omega
    · simp only [length_append]
      omega
    · rw [below_split, matched_append, append_assoc]

theorem encodes_single (bits : List Bool)
    (hashes : List α) (one : ¬ pos * 2 + 1 < calcTreeWidth marked.length height)
    (left : Encodes hash marked height (pos * 2) bits hashes) :
    Encodes hash marked (height + 1) pos (true :: bits) hashes where
  size := by
    have leftSize := left.size
    rw [below_split, length_append]
    omega
  flagged := Nat.le_succ_of_le left.flagged
  extracted := by
    intro tree before after used later state count vBits vHash bitsUsed hashUsed
    have bit : tree.vBits[state.nBitsUsed]? = some true := by
      rw [vBits]
      exact getElem?_between before (bits ++ after) true _ bitsUsed
    have first := left.extracted tree (before ++ [true]) after used later
      { state with nBitsUsed := state.nBitsUsed + 1 } count
      (by rw [vBits]; simp) vHash (by simp [bitsUsed]) hashUsed
    rw [traverseAndExtract, bit]
    dsimp only
    rw [if_neg (by simp), first, count, if_neg one, calcHash, if_neg one]
    refine Prod.ext rfl ?_
    apply traversal_ext
    · dsimp only
      rw [length_cons]
      omega
    · rfl
    · rw [below_split, below_outside marked height (pos * 2 + 1) one, append_nil]

theorem traverseAndBuild_encodes (fBad : Bool) (height pos : Nat)
    (vBits : List Bool) (vHash : List α) (inside : pos < calcTreeWidth marked.length height) :
    ∃ bits hashes, traverseAndBuild hash (marked.map Prod.fst) (marked.map Prod.snd) height pos
        { nTransactions := marked.length, vBits := vBits, vHash := vHash, fBad := fBad } =
        { nTransactions := marked.length
          vBits := vBits ++ bits
          vHash := vHash ++ hashes
          fBad := fBad } ∧
      Encodes hash marked height pos bits hashes := by
  induction height generalizing pos vBits vHash with
  | zero =>
    rw [traverseAndBuild, flag_eq marked 0 pos inside]
    refine ⟨_, _, rfl, ?_⟩
    have there := inside
    rw [lt_calcTreeWidth, pow_zero, Nat.mul_one] at there
    have found := getElem?_eq_getElem there
    rw [below_zero marked pos _ found, any_cons, any_nil, Bool.or_false]
    cases flagged : (marked[pos]).2 with
    | false =>
      apply encodes_unmatched hash marked 0 pos inside
      rw [below_zero marked pos _ found, any_cons, any_nil, Bool.or_false, flagged]
    | true =>
      apply encodes_leaf hash marked pos (marked[pos]).1
      rw [found, ← flagged]
  | succ height ih =>
    rw [traverseAndBuild, flag_eq marked (height + 1) pos inside]
    cases flagged : (below marked (height + 1) pos).any Prod.snd with
    | false => exact ⟨_, _, rfl, encodes_unmatched hash marked (height + 1) pos inside flagged⟩
    | true =>
      have leftInside : pos * 2 < calcTreeWidth marked.length height := by
        rw [lt_calcTreeWidth, Nat.pow_succ, Nat.mul_comm _ 2, ← Nat.mul_assoc] at inside
        rw [lt_calcTreeWidth]
        exact inside
      obtain ⟨leftBits, leftHashes, leftBuilt, left⟩ :=
        ih (pos * 2) (vBits ++ [true]) vHash leftInside
      dsimp only
      rw [if_neg (by simp), leftBuilt]
      by_cases two : pos * 2 + 1 < calcTreeWidth marked.length height
      · obtain ⟨rightBits, rightHashes, rightBuilt, right⟩ :=
          ih (pos * 2 + 1) (vBits ++ [true] ++ leftBits) (vHash ++ leftHashes) two
        rw [if_pos two, rightBuilt]
        refine ⟨true :: (leftBits ++ rightBits), leftHashes ++ rightHashes, ?_, ?_⟩
        · simp
        · exact encodes_node hash marked height pos leftBits rightBits leftHashes rightHashes
            two left right
      · rw [if_neg two]
        refine ⟨true :: leftBits, leftHashes, ?_, ?_⟩
        · simp
        · exact encodes_single hash marked height pos leftBits leftHashes two left

end Build

section Root

variable {α : Type} [Zero α] (hash : α → α → α)

/-- The root of the tree above the txids, or 0 if there are none. -/
def merkleRoot (vTxid : List α) : α := (root hash vTxid).getD 0

theorem calcHash_eq (vTxid : List α) (height pos : Nat)
    (inside : pos < calcTreeWidth vTxid.length height) :
    calcHash hash vTxid.length vTxid height pos = (levelAt hash vTxid height).getD pos 0 := by
  induction height generalizing pos with
  | zero => rfl
  | succ height ih =>
    have width : calcTreeWidth vTxid.length height = (levelAt hash vTxid height).length := by
      rw [levelAt_length, calcTreeWidth_eq]
    have next : calcTreeWidth vTxid.length (height + 1) =
        ((levelAt hash vTxid height).length + 1) / 2 := by
      rw [calcTreeWidth_eq, ← @levelAt_length α hash, levelAt, nextLevel_length]
    rw [next] at inside
    rw [calcHash, levelAt, nextLevel_getD _ 0 pos inside, ih (pos * 2) (by omega), width,
      Nat.mul_comm 2 pos]
    by_cases two : pos * 2 + 1 < (levelAt hash vTxid height).length
    · have last : min (pos * 2 + 1) ((levelAt hash vTxid height).length - 1) = pos * 2 + 1 := by
        omega
      rw [if_pos two, ih (pos * 2 + 1) (by omega), last]
    · have last : min (pos * 2 + 1) ((levelAt hash vTxid height).length - 1) = pos * 2 := by
        omega
      rw [if_neg two, last]

theorem treeHeight_spec (nTransactions nHeight : Nat)
    (long : ∀ lower, lower < nHeight → 1 < calcTreeWidth nTransactions lower) :
    calcTreeWidth nTransactions (treeHeight nTransactions nHeight) ≤ 1 ∧
      ∀ lower, lower < treeHeight nTransactions nHeight → 1 < calcTreeWidth nTransactions lower := by
  induction nHeight using treeHeight.induct nTransactions with
  | case1 nHeight wide ih =>
    rw [treeHeight, if_pos wide]
    apply ih
    intro lower less
    obtain here | before := Nat.lt_succ_iff_lt_or_eq.mp less
    · exact long lower here
    · rw [before]
      exact wide
  | case2 nHeight narrow =>
    rw [treeHeight, if_neg narrow]
    exact ⟨Nat.not_lt.mp narrow, long⟩

theorem calcHash_top (vTxid : List α) (nonempty : 0 < vTxid.length) :
    0 < calcTreeWidth vTxid.length (treeHeight vTxid.length 0) ∧
      vTxid.length ≤ 2 ^ treeHeight vTxid.length 0 ∧
      calcHash hash vTxid.length vTxid (treeHeight vTxid.length 0) 0 = merkleRoot hash vTxid := by
  obtain ⟨narrow, long⟩ := treeHeight_spec vTxid.length 0 (by simp)
  have inside : 0 < calcTreeWidth vTxid.length (treeHeight vTxid.length 0) := by
    rw [lt_calcTreeWidth, Nat.zero_mul]
    exact nonempty
  have within : vTxid.length ≤ 2 ^ treeHeight vTxid.length 0 := by
    have outside := Nat.not_lt.mpr narrow
    rw [lt_calcTreeWidth, Nat.one_mul] at outside
    exact Nat.not_lt.mp outside
  have single : (levelAt hash vTxid (treeHeight vTxid.length 0)).length ≤ 1 := by
    rw [levelAt_length, ← calcTreeWidth_eq]
    exact narrow
  obtain ⟨_, same⟩ := @levelAt_of_long α hash vTxid (treeHeight vTxid.length 0) (by
    intro lower less
    rw [levelAt_length, ← calcTreeWidth_eq]
    exact long lower less)
  refine ⟨inside, within, ?_⟩
  rw [calcHash_eq hash vTxid _ 0 inside]
  unfold merkleRoot
  rw [← same, root_short _ single, head?_eq_getElem?, getD_eq_getElem?_getD]

theorem extractMatches_ofMatches (marked : List (α × Bool)) (nonempty : 0 < marked.length)
    (bound : marked.length ≤ maxBlockSizeCurrent / 60) :
    extractMatches hash (ofMatches hash (marked.map Prod.fst) (marked.map Prod.snd)) =
      { root := merkleRoot hash (marked.map Prod.fst), vMatch := matched marked, fBad := false } := by
  have length : (marked.map Prod.fst).length = marked.length := length_map _
  obtain ⟨inside, within, top⟩ := calcHash_top hash (marked.map Prod.fst) (by omega)
  rw [length] at inside within top
  obtain ⟨bits, hashes, built, encoded⟩ := traverseAndBuild_encodes hash marked false
    (treeHeight marked.length 0) 0 [] [] inside
  have whole := below_all marked (treeHeight marked.length 0) within
  have size := encoded.size
  have flagged := encoded.flagged
  rw [whole] at size
  unfold ofMatches
  rw [length, built, nil_append, nil_append]
  have extracted := encoded.extracted
    { nTransactions := marked.length, vBits := bits, vHash := hashes, fBad := false } [] [] [] []
    { fBad := false, nBitsUsed := 0, nHashUsed := 0, vMatch := [] } rfl (by simp) (by simp) rfl rfl
  unfold extractMatches
  dsimp only at extracted ⊢
  rw [if_neg (by omega), if_neg (by omega), if_neg (by omega), if_neg (by omega), extracted, whole,
    top]
  simp

end Root

section Soundness

variable {α : Type} [Zero α] (hash : α → α → α)

def hashedPairs (tree : CPartialMerkleTree α) : Nat → Nat → Traversal α → List (α × α)
  | 0, _, _ => []
  | height + 1, pos, state =>
    match tree.vBits[state.nBitsUsed]? with
    | some true =>
      let state := { state with nBitsUsed := state.nBitsUsed + 1 }
      let left := traverseAndExtract hash tree height (pos * 2) state
      if pos * 2 + 1 < calcTreeWidth tree.nTransactions height then
        let right := traverseAndExtract hash tree height (pos * 2 + 1) left.2
        (left.1, right.1) :: (hashedPairs tree height (pos * 2) state ++
          hashedPairs tree height (pos * 2 + 1) left.2)
      else (left.1, left.1) :: hashedPairs tree height (pos * 2) state
    | _ => []

def extractedPairs (tree : CPartialMerkleTree α) : List (α × α) :=
  hashedPairs hash tree (treeHeight tree.nTransactions 0) 0
    { fBad := tree.fBad, nBitsUsed := 0, nHashUsed := 0, vMatch := [] }

variable (tree : CPartialMerkleTree α)

theorem useHash_fine (fMatched : Bool) (state : Traversal α)
    (fine : (useHash tree fMatched state).2.fBad = false) :
    state.fBad = false ∧ (useHash tree fMatched state).2.vMatch =
      if fMatched then state.vMatch ++ [(useHash tree fMatched state).1] else state.vMatch := by
  unfold useHash at fine ⊢
  cases stored : tree.vHash[state.nHashUsed]? with
  | none =>
    rw [stored] at fine
    cases fine
  | some value =>
    rw [stored] at fine
    exact ⟨fine, rfl⟩

theorem traverse_fine (height pos : Nat) (state : Traversal α)
    (fine : (traverseAndExtract hash tree height pos state).2.fBad = false) : state.fBad = false := by
  induction height generalizing pos state with
  | zero =>
    rw [traverseAndExtract] at fine
    cases bit : tree.vBits[state.nBitsUsed]? with
    | none =>
      rw [bit] at fine
      cases fine
    | some fParentOfMatch =>
      rw [bit] at fine
      exact (useHash_fine tree _ _ fine).1
  | succ height ih =>
    rw [traverseAndExtract] at fine
    cases bit : tree.vBits[state.nBitsUsed]? with
    | none =>
      rw [bit] at fine
      cases fine
    | some fParentOfMatch =>
      rw [bit] at fine
      cases fParentOfMatch with
      | false => exact (useHash_fine tree _ _ fine).1
      | true =>
        dsimp only at fine
        rw [if_neg (by simp)] at fine
        split at fine <;> dsimp only at fine
        · have left := ih (pos * 2 + 1) _ fine
          have before := ih (pos * 2) _ left
          exact before
        · have before := ih (pos * 2) _ fine
          exact before

variable (vTxid : List α)

theorem node_known (height pos : Nat)
    (long : ∀ lower, lower ≤ height → 1 < calcTreeWidth vTxid.length lower)
    (inside : pos < calcTreeWidth vTxid.length (height + 1)) :
    ((levelAt hash vTxid height).getD (2 * pos) 0,
      (levelAt hash vTxid height).getD
        (min (2 * pos + 1) ((levelAt hash vTxid height).length - 1)) 0) ∈ combined hash vTxid := by
  have widths : ∀ lower, (levelAt hash vTxid lower).length = calcTreeWidth vTxid.length lower := by
    intro lower
    rw [levelAt_length, calcTreeWidth_eq]
  obtain ⟨member, _⟩ := @levelAt_of_long α hash vTxid height (by
    intro lower less
    rw [widths]
    exact long lower (Nat.le_of_lt less))
  apply pairs_of_mem_levels vTxid _ member
  · rw [widths]
    exact long height (Nat.le_refl _)
  · apply mem_pairs_of_position
    rw [← nextLevel_length hash, ← levelAt, widths]
    exact inside

/-- A traversal that returns its node's hash has matched txids of the node in order, whatever its
bits. -/
theorem traverse_sound (count : tree.nTransactions = vTxid.length) (known : List (α × α))
    (free : CollisionFree hash known) (treeKnown : ∀ pair ∈ combined hash vTxid, pair ∈ known)
    (height pos : Nat) (state : Traversal α)
    (long : ∀ lower, lower < height → 1 < calcTreeWidth vTxid.length lower)
    (inside : pos < calcTreeWidth vTxid.length height)
    (hashed : ∀ pair ∈ hashedPairs hash tree height pos state, pair ∈ known)
    (fine : (traverseAndExtract hash tree height pos state).2.fBad = false)
    (same : (traverseAndExtract hash tree height pos state).1 =
      (levelAt hash vTxid height).getD pos 0) :
    ∃ found, (traverseAndExtract hash tree height pos state).2.vMatch = state.vMatch ++ found ∧
      found.Sublist (below vTxid height pos) := by
  induction height generalizing pos state with
  | zero =>
    rw [traverseAndExtract] at fine same ⊢
    cases bit : tree.vBits[state.nBitsUsed]? with
    | none =>
      rw [bit] at fine
      cases fine
    | some fParentOfMatch =>
      rw [bit] at fine same
      dsimp only at fine same ⊢
      obtain ⟨_, appended⟩ := useHash_fine tree fParentOfMatch _ fine
      have there := inside
      rw [lt_calcTreeWidth, pow_zero, Nat.mul_one] at there
      have leaf : below vTxid 0 pos = [vTxid.getD pos 0] := by
        apply below_zero
        rw [getD_eq_getElem _ _ there, getElem?_eq_getElem there]
      rw [appended, leaf, same]
      cases fParentOfMatch with
      | false => exact ⟨[], by simp, nil_sublist _⟩
      | true => exact ⟨_, rfl, List.Sublist.refl _⟩
  | succ height ih =>
    have width : calcTreeWidth vTxid.length height = (levelAt hash vTxid height).length := by
      rw [levelAt_length, calcTreeWidth_eq]
    have pair := node_known hash vTxid height pos
      (fun lower less => long lower (Nat.lt_succ_of_le less)) inside
    have next : calcTreeWidth vTxid.length (height + 1) =
        ((levelAt hash vTxid height).length + 1) / 2 := by
      rw [calcTreeWidth_eq, ← @levelAt_length α hash, levelAt, nextLevel_length]
    have node := @nextLevel_getD α hash (levelAt hash vTxid height) 0 pos
      (by rw [← next]; exact inside)
    rw [levelAt, node] at same
    rw [traverseAndExtract] at fine same ⊢
    rw [hashedPairs] at hashed
    cases bit : tree.vBits[state.nBitsUsed]? with
    | none =>
      rw [bit] at fine
      cases fine
    | some fParentOfMatch =>
      rw [bit] at fine same hashed
      cases fParentOfMatch with
      | false =>
        dsimp only at fine ⊢
        rw [if_pos (by rfl)] at fine ⊢
        obtain ⟨_, appended⟩ := useHash_fine tree false _ fine
        rw [appended]
        exact ⟨[], by simp, nil_sublist _⟩
      | true =>
        dsimp only at fine same hashed ⊢
        rw [if_neg (by simp)] at fine same ⊢
        rw [count] at fine same hashed ⊢
        have shorter : ∀ lower, lower < height → 1 < calcTreeWidth vTxid.length lower :=
          fun lower less => long lower (Nat.lt_succ_of_lt less)
        have leftInside : pos * 2 < calcTreeWidth vTxid.length height := by omega
        by_cases two : pos * 2 + 1 < calcTreeWidth vTxid.length height
        · rw [if_pos two] at fine same hashed ⊢
          dsimp only at fine same ⊢
          have last : min (2 * pos + 1) ((levelAt hash vTxid height).length - 1) =
              pos * 2 + 1 := by omega
          have equal := free _ (hashed _ mem_cons_self) _ (treeKnown _ pair) same
          rw [last, Nat.mul_comm 2 pos] at equal
          obtain ⟨leftSame, rightSame⟩ := Prod.mk.inj equal
          have leftFine := traverse_fine hash tree height (pos * 2 + 1) _ fine
          obtain ⟨first, leftMatch, leftBelow⟩ := ih (pos * 2) _ shorter leftInside
            (fun other member => hashed other
              (mem_cons_of_mem _ (mem_append_left _ member))) leftFine leftSame
          obtain ⟨second, rightMatch, rightBelow⟩ := ih (pos * 2 + 1) _ shorter two
            (fun other member => hashed other
              (mem_cons_of_mem _ (mem_append_right _ member))) fine rightSame
          refine ⟨first ++ second, ?_, ?_⟩
          · rw [rightMatch, leftMatch, append_assoc]
          · rw [below_split]
            exact leftBelow.append rightBelow
        · rw [if_neg two] at fine same hashed ⊢
          dsimp only at fine same ⊢
          have equal := free _ (hashed _ mem_cons_self) _ (treeKnown _ pair) same
          rw [Nat.mul_comm 2 pos] at equal
          obtain ⟨leftSame, _⟩ := Prod.mk.inj equal
          obtain ⟨first, leftMatch, leftBelow⟩ := ih (pos * 2) _ shorter leftInside
            (fun other member => hashed other (mem_cons_of_mem _ member)) fine leftSame
          refine ⟨first, leftMatch, ?_⟩
          rw [below_split, below_outside vTxid height (pos * 2 + 1) two, append_nil]
          exact leftBelow

theorem extractMatches_inv
    (nonzero : (extractMatches hash tree).root ≠ 0) :
    ∃ value state, traverseAndExtract hash tree (treeHeight tree.nTransactions 0) 0
        { fBad := tree.fBad, nBitsUsed := 0, nHashUsed := 0, vMatch := [] } = (value, state) ∧
      state.fBad = false ∧ (extractMatches hash tree).root = value ∧
      (extractMatches hash tree).vMatch = state.vMatch ∧ tree.nTransactions ≠ 0 := by
  obtain ⟨value, state, traversed⟩ : ∃ value state,
      traverseAndExtract hash tree (treeHeight tree.nTransactions 0) 0
        { fBad := tree.fBad, nBitsUsed := 0, nHashUsed := 0, vMatch := [] } = (value, state) :=
    ⟨_, _, rfl⟩
  refine ⟨value, state, traversed, ?_⟩
  unfold extractMatches at nonzero ⊢
  dsimp only at nonzero ⊢
  rw [traversed] at nonzero ⊢
  dsimp only at nonzero ⊢
  split_ifs at nonzero ⊢ with empty _ _ _ bad
  all_goals first
    | exact absurd rfl nonzero
    | exact ⟨Bool.eq_false_iff.mpr bad, rfl, rfl, empty⟩

/-- What `ExtractMatches` accepts for the root of a list of txids are txids of the
list in their order. -/
theorem extractMatches_sound (count : tree.nTransactions = vTxid.length)
    (free : CollisionFree hash (combined hash vTxid ++ extractedPairs hash tree))
    (nonzero : merkleRoot hash vTxid ≠ 0)
    (accepted : (extractMatches hash tree).root = merkleRoot hash vTxid) :
    (extractMatches hash tree).vMatch.Sublist vTxid := by
  rw [← accepted] at nonzero
  obtain ⟨value, state, traversed, fine, isRoot, isMatch, some_⟩ :=
    extractMatches_inv hash tree nonzero
  obtain ⟨inside, within, top⟩ := calcHash_top hash vTxid (by omega)
  obtain ⟨_, long⟩ := treeHeight_spec vTxid.length 0 (by simp)
  rw [calcHash_eq hash vTxid _ 0 inside] at top
  rw [count] at traversed
  have sound := traverse_sound hash tree vTxid count _ free
    (fun pair member => mem_append_left _ member) (treeHeight vTxid.length 0) 0
    { fBad := tree.fBad, nBitsUsed := 0, nHashUsed := 0, vMatch := [] } long inside
    (by
      intro pair member
      apply mem_append_right
      unfold extractedPairs
      rw [count]
      exact member)
    (by rw [traversed]; exact fine)
    (by rw [traversed, top, ← accepted, isRoot])
  obtain ⟨found, appended, sublist⟩ := sound
  rw [traversed] at appended
  rw [isMatch, appended, nil_append]
  rw [below_all vTxid _ within] at sublist
  exact sublist

end Soundness

theorem buildMerkleTree_root (digest : Uint256 → Uint256 → Uint256) (vtx : List CTransaction) :
    (buildMerkleTree digest vtx).1 = merkleRoot digest (leaves vtx) := by
  rw [buildMerkleTree_eq]
  rfl

/-- Every tree that is built extracts to the block's root and the matched txids; and whatever
extracts to a root other than 0, without two pairs that collide, matches txids of the block in their
order. -/
theorem partial_merkle_trees {α : Type} [Zero α] (hash : α → α → α) (vTxid : List α) :
    (∀ (digest : Uint256 → Uint256 → Uint256) (vtx : List CTransaction),
      (buildMerkleTree digest vtx).1 = merkleRoot digest (leaves vtx)) ∧
    (∀ vMatch : List Bool, vMatch.length = vTxid.length → 1 ≤ vTxid.length →
      vTxid.length ≤ maxBlockSizeCurrent / 60 →
      extractMatches hash (ofMatches hash vTxid vMatch) =
        { root := merkleRoot hash vTxid, vMatch := matched (vTxid.zip vMatch), fBad := false }) ∧
    ∀ tree : CPartialMerkleTree α, tree.nTransactions = vTxid.length →
      CollisionFree hash (combined hash vTxid ++ extractedPairs hash tree) →
      merkleRoot hash vTxid ≠ 0 → (extractMatches hash tree).root = merkleRoot hash vTxid →
      (extractMatches hash tree).vMatch.Sublist vTxid := by
  refine ⟨buildMerkleTree_root, ?_, ?_⟩
  · intro vMatch length nonempty bound
    have zipped : (vTxid.zip vMatch).length = vTxid.length := by
      rw [length_zip, length, Nat.min_self]
    have built := extractMatches_ofMatches hash (vTxid.zip vMatch) (by omega) (by omega)
    rw [map_fst_zip (Nat.le_of_eq length.symm), map_snd_zip (Nat.le_of_eq length)] at built
    exact built
  · intro tree count free nonzero accepted
    exact extractMatches_sound hash tree vTxid count free nonzero accepted

def mix (left right : Uint256) : Uint256 := left * 1000 + right + 1

/-- Three txids; the peer proves the last one, which is hashed with itself. -/
def proofOfLast : CPartialMerkleTree Uint256 :=
  { nTransactions := 3
    vBits := [true, false, true, true, false, false, false, false]
    vHash := [5007, 7]
    fBad := false }

theorem three_txids :
    extractMatches mix (ofMatches mix [5, 6, 7] [false, true, true]) =
      { root := merkleRoot mix [5, 6, 7], vMatch := [6, 7], fBad := false } ∧
    (extractMatches mix proofOfLast).vMatch = [7] ∧
    (extractMatches mix proofOfLast).vMatch.Sublist [5, 6, 7] := by
  obtain ⟨_, exact_, sound⟩ := partial_merkle_trees mix [5, 6, 7]
  refine ⟨exact_ [false, true, true] rfl (by decide) (by decide), by decide +kernel, ?_⟩
  exact sound proofOfLast rfl (by decide +kernel) (by decide +kernel) (by decide +kernel)

/-- One txid 0, which is the root too, and a proof with one byte of bits too many. -/
def longProof : CPartialMerkleTree Uint256 :=
  { nTransactions := 1
    vBits := List.replicate 16 true
    vHash := [7]
    fBad := false }

/-- The value for a failure is the root of that list, and the hash is matched. -/
theorem failure_is_a_root : longProof.nTransactions = [(0 : Uint256)].length ∧
    ∀ hash : Uint256 → Uint256 → Uint256,
      CollisionFree hash (combined hash [0] ++ extractedPairs hash longProof) ∧
      (extractMatches hash longProof).root = merkleRoot hash [0] ∧
      ¬ (extractMatches hash longProof).vMatch.Sublist [0] := by
  refine ⟨rfl, fun hash => ?_⟩
  have height : treeHeight 1 0 = 0 := by
    rw [treeHeight, if_neg (by decide)]
  have nothing : combined hash [0] ++ extractedPairs hash longProof = [] := by
    unfold extractedPairs
    rw [combined, if_pos (by decide)]
    unfold longProof
    dsimp only
    rw [height]
    rfl
  have traversed : traverseAndExtract hash longProof 0 0
      { fBad := false, nBitsUsed := 0, nHashUsed := 0, vMatch := [] } =
      (7, { fBad := false, nBitsUsed := 1, nHashUsed := 1, vMatch := [7] }) := rfl
  have extracted : extractMatches hash longProof =
      { root := 0, vMatch := [7], fBad := false } := by
    have count : longProof.nTransactions = 1 := rfl
    have flag : longProof.fBad = false := rfl
    unfold extractMatches
    rw [count, height, flag, traversed]
    decide
  rw [nothing, extracted]
  refine ⟨?_, ?_, by decide⟩
  · intro first member
    cases member
  · unfold merkleRoot
    rw [root_short _ (by decide)]
    rfl

end ZenonCore.PartialMerkle
