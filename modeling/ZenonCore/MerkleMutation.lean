import ZenonCore.ForkSerials
import ZenonCore.MerkleTree

/-!
# Malleability of the merkle tree

Different lists can have the same root; `BuildMerkleTree` reports one of them, and
`CheckBlock` then does not mark the header.
-/

namespace ZenonCore.MerkleMutation

open MerkleTrees MerkleTree Primitives List
open Validation Chainstate CheckBlock AcceptBlock
open BoundedReads BlockReads
open Chain (CBlockIndex)

section Lists

variable (hash : Uint256 → Uint256 → Uint256)

def hashedPairs (first second : List CTransaction) : List (Uint256 × Uint256) :=
  combined hash (leaves first) ++ combined hash (leaves second)

/-- The hash is injective on the transactions and the pairs of two lists, and no
transaction has the hash of a pair. -/
structure NoCollision (first second : List CTransaction) : Prop where
  transactions : ∀ tx ∈ first ++ second, ∀ other ∈ first ++ second,
    tx.hash = other.hash → tx = other
  nodes : CollisionFree hash (hashedPairs hash first second)
  apart : ∀ tx ∈ first ++ second, ∀ pair ∈ hashedPairs hash first second,
    tx.hash ≠ hash pair.1 pair.2

def DistinctSiblings (vtx : List CTransaction) : Prop :=
  ∀ level ∈ levels hash (leaves vtx), ∀ node, (node, node) ∉ siblings level

theorem leaves_ne (first second : List CTransaction)
    (transactions : ∀ tx ∈ first ++ second, ∀ other ∈ first ++ second,
      tx.hash = other.hash → tx = other) (different : first ≠ second) :
    leaves first ≠ leaves second := by
  intro same
  apply different
  apply ext_getElem
  · have lengths := congrArg length same
    rw [leaves, leaves, length_map, length_map] at lengths
    exact lengths
  · intro i left right
    apply transactions _ (mem_append_left _ (getElem_mem left)) _
      (mem_append_right _ (getElem_mem right))
    have entries := congrArg (fun hashes => hashes[i]?) same
    simp only [leaves, getElem?_map, getElem?_eq_getElem left,
      getElem?_eq_getElem right, Option.map_some] at entries
    exact Option.some.inj entries

variable (vtx : List CTransaction)

theorem root_of_leaves (nonempty : vtx ≠ []) :
    (root hash (leaves vtx)).isSome = true := by
  rw [← getLast?_levels, getLast?_isSome]
  intro nothing
  have empty := flatten_eq_nil_iff.mp nothing _ (self_mem_levels hash (leaves vtx))
  exact nonempty (map_eq_nil_iff.mp empty)

theorem mutation_reported (first second : List CTransaction) (firstNonempty : first ≠ [])
    (secondNonempty : second ≠ []) (free : NoCollision hash first second)
    (different : first ≠ second)
    (same : (buildMerkleTree hash first).1 = (buildMerkleTree hash second).1) :
    (buildMerkleTree hash first).2 = true ∨ (buildMerkleTree hash second).2 = true := by
  rw [buildMerkleTree_eq, buildMerkleTree_eq] at same ⊢
  have roots : root hash (leaves first) = root hash (leaves second) := by
    obtain ⟨top, is⟩ := Option.isSome_iff_exists.mp (root_of_leaves hash first firstNonempty)
    obtain ⟨other, its⟩ := Option.isSome_iff_exists.mp (root_of_leaves hash second secondNonempty)
    rw [is, its] at same ⊢
    exact congrArg some same
  apply mutated_of_same_root (hashedPairs hash first second) free.nodes
  · intro empty
    exact firstNonempty (map_eq_nil_iff.mp empty)
  · intro empty
    exact secondNonempty (map_eq_nil_iff.mp empty)
  · intro pair member
    exact mem_append_left _ member
  · intro pair member
    exact mem_append_right _ member
  · intro leaf member pair within
    rw [leaves, leaves, ← map_append] at member
    obtain ⟨tx, found, is⟩ := mem_map.mp member
    rw [← is]
    exact free.apart tx found pair within
  · exact leaves_ne first second free.transactions different
  · exact roots

theorem distinctSiblings_not_reported (distinct : DistinctSiblings hash vtx) : (buildMerkleTree hash vtx).2 = false := by
  rw [buildMerkleTree_eq, ← Bool.not_eq_true]
  intro twice
  obtain ⟨level, member, node, pair⟩ := siblings_of_mutated _ twice
  exact distinct level member node pair

theorem distinctSiblings_of_nodup (nodup : (leaves vtx).Nodup)
    (free : CollisionFree hash (combined hash (leaves vtx))) : DistinctSiblings hash vtx := by
  intro level member node
  have distinct := levels_nodup _ free (leaves vtx) (fun _ within => within) nodup level member
  exact siblings_distinct level distinct node

end Lists

section Blocks

variable (services : AcceptServices) (hash : Uint256 → Uint256 → Uint256)

def RefusedAsCorrupted {α : Type} (result : Validated α) : Prop :=
  ∃ state, result = .error (.rejected state) ∧ state.corruptionPossible = true

theorem refused_bind {α β : Type} (result : Validated α) (next : α → Validated β)
    (refused : RefusedAsCorrupted result) : RefusedAsCorrupted (result >>= next) := by
  obtain ⟨state, failed, corrupted⟩ := refused
  exact ⟨state, by rw [failed]; rfl, corrupted⟩

theorem refused_after {α : Type} (next : Unit → Validated α) (refused : RefusedAsCorrupted (next ())) :
    RefusedAsCorrupted ((.ok () : Validated Unit) >>= next) := refused

theorem checkHeader_cases (block : CBlock) :
    orDos (checkBlockHeader services.toServices block.toCBlockHeader block.isProofOfWork) 100
        "bad-header" true = .ok () ∨
      RefusedAsCorrupted (orDos (checkBlockHeader services.toServices block.toCBlockHeader
        block.isProofOfWork) 100 "bad-header" true) := by
  unfold checkBlockHeader require
  split_ifs
  · exact Or.inl rfl
  · exact Or.inr ⟨_, rfl, rfl⟩

/-- The root and the report of a list are such that `CheckBlock` refuses it. -/
def Suspect (block : CBlock) : Prop :=
  (services.buildMerkleTree block.vtx).1 ≠ block.hashMerkleRoot ∨
    (services.buildMerkleTree block.vtx).2 = true

theorem merkle_refused (block : CBlock) (suspect : Suspect services block) :
    RefusedAsCorrupted (do
      require (block.hashMerkleRoot == (services.buildMerkleTree block.vtx).1)
        (dosCorruption 100 "bad-txnmrklroot")
      require (!(services.buildMerkleTree block.vtx).2) (dosCorruption 100 "bad-txns-duplicate")) := by
  by_cases same : (block.hashMerkleRoot == (services.buildMerkleTree block.vtx).1) = true
  · obtain other | twice := suspect
    · exact absurd (beq_iff_eq.mp same).symm other
    · rw [same, twice]
      exact ⟨_, rfl, rfl⟩
  · rw [Bool.not_eq_true] at same
    rw [same]
    exact ⟨_, rfl, rfl⟩

theorem checkBlock_refuses (here : LocalState) (node : NodeState) (block : CBlock)
    (suspect : Suspect services block) :
    RefusedAsCorrupted (checkBlock services.toServices here node block true) := by
  unfold checkBlock
  obtain passed | refused := checkHeader_cases services block
  · rw [passed]
    apply refused_after
    apply refused_bind
    exact merkle_refused services block suspect
  · exact refused_bind _ _ refused

theorem checkBlockBasics_refuses (block : CBlock) (suspect : Suspect services block) :
    RefusedAsCorrupted (checkBlockBasics services.toServices block true) := by
  unfold checkBlockBasics
  obtain passed | refused := checkHeader_cases services block
  · rw [passed]
    apply refused_after
    apply refused_bind
    exact merkle_refused services block suspect
  · exact refused_bind _ _ refused

theorem markFailed_corrupted (store : BlockStore) (pindex : CBlockIndex) (state : CValidationState)
    (corrupted : state.corruptionPossible = true) :
    markFailed store pindex (.failed (.rejected state)) = store := by
  show (if state.isInvalid && !state.corruptionPossible then _ else store) = store
  rw [corrupted, Bool.not_true, Bool.and_false]
  rfl

variable (here : AcceptState)

theorem checkAccepted_refuses (node : NodeState) (block : CBlock)
    (pprev : CBlockIndex) (suspect : Suspect services block) :
    ∃ state, checkAccepted services here node block pprev false =
        .error (.failed (.rejected state)) ∧ state.corruptionPossible = true := by
  obtain ⟨state, failed, corrupted⟩ := checkBlockBasics_refuses services block suspect
  refine ⟨state, ?_, corrupted⟩
  unfold checkAccepted checkBlockReading
  rw [isProofOfStakeReading_eq, failed]
  rfl

theorem acceptNew_suspect (store : BlockStore) (block : CBlock)
    (pindexPrev pindex : CBlockIndex) (isPoS : Bool) (suspect : Suspect services block) :
    (acceptNew services here store block pindexPrev pindex isPoS false).1 = store := by
  rcases checkAccepted_refuses services here store.node block pindex.pprev suspect with
    ⟨state, failed, corrupted⟩
  unfold acceptNew
  rw [failed]
  exact markFailed_corrupted store pindex state corrupted

theorem acceptBlockHeader_marks_nothing (store after : BlockStore)
    (block : CBlock) (entry pindex : CBlockIndex)
    (accepted : acceptBlockHeader services here store block = .ok (after, entry))
    (failed : (after.nStatus pindex).fFailed = true) : (store.nStatus pindex).fFailed = true := by
  unfold acceptBlockHeader at accepted
  cases known : store.node.mapBlockIndex block.hash with
  | some found =>
    rw [known] at accepted
    simp only [bind_eq_ok, attempt_eq_ok, Except.ok.injEq, Prod.mk.injEq] at accepted
    obtain ⟨_, _, same, _⟩ := accepted
    rw [same]
    exact failed
  | none =>
    rw [known] at accepted
    simp only [bind_eq_ok] at accepted
    obtain ⟨pindexPrev, _, _, _, added⟩ := accepted
    unfold addToBlockIndex at added
    rw [known] at added
    simp only [bind_eq_ok, Except.ok.injEq, Prod.mk.injEq] at added
    obtain ⟨_, _, _, _, same, _⟩ := added
    rw [← same] at failed
    dsimp only at failed
    split_ifs at failed
    exact failed

theorem acceptBlock_marks_nothing (store : BlockStore) (block : CBlock)
    (suspect : Suspect services block) (unmarked : markedParent services store block = none)
    (pindex : CBlockIndex)
    (failed : ((acceptBlock services here store block false).1.nStatus pindex).fFailed = true) :
    (store.nStatus pindex).fFailed = true := by
  unfold acceptBlock andThen at failed
  rw [unmarked] at failed
  dsimp only at failed
  cases parent : (attempt (parentOf services store block) : Reading CBlockIndex) with
  | error stop =>
    rw [parent] at failed
    exact failed
  | ok pindexPrev =>
    rw [parent] at failed
    dsimp only at failed
    cases proofs : checkProofs services store block pindexPrev with
    | error stop =>
      rw [proofs] at failed
      exact failed
    | ok proof =>
      rw [proofs] at failed
      dsimp only at failed
      cases accepted : acceptBlockHeader services here (recordProof store block proof) block with
      | error stop =>
        rw [accepted] at failed
        exact failed
      | ok entry =>
        rw [accepted] at failed
        apply acceptBlockHeader_marks_nothing services here (recordProof store block proof)
          entry.1 block entry.2 pindex accepted
        dsimp only at failed
        split_ifs at failed with here
        · exact failed
        · rw [acceptNew_suspect services _ entry.1 block pindexPrev entry.2 _ suspect] at failed
          exact failed

/-- Different lists do not share a root without a report, and a list of distinct siblings is not
reported: whatever other list arrives under its header is refused without marking the header. -/
theorem malleability_detected (built : services.buildMerkleTree = buildMerkleTree hash) :
    (∀ first second, first ≠ [] → second ≠ [] → NoCollision hash first second → first ≠ second →
      (services.buildMerkleTree first).1 = (services.buildMerkleTree second).1 →
        (services.buildMerkleTree first).2 = true ∨ (services.buildMerkleTree second).2 = true) ∧
      (∀ vtx, DistinctSiblings hash vtx → (services.buildMerkleTree vtx).2 = false) ∧
      ∀ vtx (block : CBlock), vtx ≠ [] → block.vtx ≠ [] → DistinctSiblings hash vtx →
        NoCollision hash vtx block.vtx → vtx ≠ block.vtx →
        block.hashMerkleRoot = (services.buildMerkleTree vtx).1 →
          (∀ here node, RefusedAsCorrupted (checkBlock services.toServices here node block true)) ∧
            ∀ here store pindex, markedParent services store block = none →
              ((acceptBlock services here store block false).1.nStatus pindex).fFailed = true →
                (store.nStatus pindex).fFailed = true := by
  refine ⟨?_, ?_, ?_⟩
  · intro first second firstNonempty secondNonempty free different same
    rw [built] at same ⊢
    exact mutation_reported hash first second firstNonempty secondNonempty free different same
  · intro vtx distinct
    rw [built]
    exact distinctSiblings_not_reported hash vtx distinct
  · intro vtx block nonempty blockNonempty distinct free different header
    have suspect : Suspect services block := by
      by_cases same : (services.buildMerkleTree block.vtx).1 = block.hashMerkleRoot
      · right
        rw [header, built] at same
        rw [built]
        rcases mutation_reported hash vtx block.vtx nonempty blockNonempty free different
          same.symm with honest | other
        · rw [distinctSiblings_not_reported hash vtx distinct] at honest
          cases honest
        · exact other
      · exact Or.inl same
    constructor
    · intro here node
      exact checkBlock_refuses services here node block suspect
    · intro here store pindex unmarked failed
      exact acceptBlock_marks_nothing services here store block suspect unmarked pindex failed

/-- The main network, with a function of two nodes in the place of the hash. -/
def mixedAccepting : AcceptServices where
  toStakeServices :=
    { ForkSerials.mainnetAccepting.toStakeServices with buildMerkleTree := buildMerkleTree mixed }
  nearEnough := ForkSerials.mainnetAccepting.nearEnough
  fCheckpointsEnabled := ForkSerials.mainnetAccepting.fCheckpointsEnabled
  mapCheckpoints := ForkSerials.mainnetAccepting.mapCheckpoints
  computeNextStakeModifier := ForkSerials.mainnetAccepting.computeNextStakeModifier
  hashStakeModifier := ForkSerials.mainnetAccepting.hashStakeModifier
  maxReorg := ForkSerials.mainnetAccepting.maxReorg

theorem apart_of_all (hash : Uint256 → Uint256 → Uint256) (first second : List CTransaction)
    (all : ((first ++ second).all fun tx => (hashedPairs hash first second).all fun pair =>
      decide (tx.hash ≠ hash pair.1 pair.2)) = true) :
    ∀ tx ∈ first ++ second, ∀ pair ∈ hashedPairs hash first second,
      tx.hash ≠ hash pair.1 pair.2 := by
  intro tx member pair paired
  have ofTx := all_eq_true.mp all tx member
  exact of_decide_eq_true (all_eq_true.mp ofTx pair paired)

theorem distinct_one_two_three : DistinctSiblings mixed (numbered [1, 2, 3]) := by
  apply distinctSiblings_of_nodup
  · decide
  · decide +kernel

theorem repeated_third_collides_nowhere :
    NoCollision mixed (numbered [1, 2, 3]) (numbered [1, 2, 3, 3]) where
  transactions := by decide +kernel
  nodes := by decide +kernel
  apart := apart_of_all mixed _ _ (by decide +kernel)

/-- The third transaction of three repeated: the same root, and a report. -/
theorem repeated_third_reported :
    ((mixedAccepting.buildMerkleTree (numbered [1, 2, 3])).2 = true ∨
        (mixedAccepting.buildMerkleTree (numbered [1, 2, 3, 3])).2 = true) ∧
      (mixedAccepting.buildMerkleTree (numbered [1, 2, 3])).2 = false :=
  ⟨(malleability_detected mixedAccepting mixed rfl).1 (numbered [1, 2, 3])
      (numbered [1, 2, 3, 3]) (by decide) (by decide) repeated_third_collides_nowhere (by decide)
      (by decide +kernel),
    (malleability_detected mixedAccepting mixed rfl).2.1 _ distinct_one_two_three⟩

/-- The root of no transactions is zero, which may be the hash of a transaction. -/
theorem empty_list_not_reported :
    NoCollision mixed [] (numbered [0]) ∧ [] ≠ numbered [0] ∧
      buildMerkleTree mixed [] = (0, false) ∧ buildMerkleTree mixed (numbered [0]) = (0, false) := by
  exact ⟨⟨by decide, by decide +kernel, apart_of_all mixed _ _ (by decide +kernel)⟩, by decide,
    by decide +kernel, by decide +kernel⟩

end Blocks

end ZenonCore.MerkleMutation
