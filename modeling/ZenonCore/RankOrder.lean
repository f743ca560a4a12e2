import ZenonCore.WinnerRanks

/-!
# Ranks and the order of the masternode list

Sorting is by score alone: masternodes with one score come out in an order that depends on the
list.
-/

namespace ZenonCore.RankOrder

open Primitives Masternode BlockHashCache List
open Budget (exampleMasternode)
open MasternodePayments (exampleNode)
open MasternodeRanks WinnerRanks Library.Rankings

section Definitions

variable (view : RankView) (getBlockHash : Int → Option Uint256) (nBlockHeight minProtocol : Int)

def inOrder (vMasternodes : List CMasternode) : RankView :=
  { view with vMasternodes := vMasternodes }

/-- The entries of `vecMasternodeScores` of `GetMasternodeRanks`. -/
def rankedScores : List (UInt32 × CMasternode) :=
  view.vMasternodes.filterMap (rankedScore view getBlockHash nBlockHeight minProtocol)

/-- Both functions assign the same ranks for two orders of the list. -/
structure SameRanks (fOnlyActive : Bool)
    (sortMasternodes : List (UInt32 × CMasternode) → List (UInt32 × CMasternode))
    (first second : List CMasternode) : Prop where
  rank : ∀ vin, rankOf (inOrder view first) getBlockHash nBlockHeight minProtocol vin fOnlyActive =
    rankOf (inOrder view second) getBlockHash nBlockHeight minProtocol vin fOnlyActive
  ranks : getMasternodeRanks (inOrder view first) getBlockHash nBlockHeight minProtocol
      sortMasternodes =
    getMasternodeRanks (inOrder view second) getBlockHash nBlockHeight minProtocol sortMasternodes

/-- For every order of the list and every sort by the scores the ranks are the
same. -/
def OrderFree (fOnlyActive : Bool) : Prop :=
  ∀ sortScores sortMasternodes, SortsDown scoreKey sortScores →
    SortsDown scoreKey sortMasternodes →
      ∀ first second, first.Perm view.vMasternodes → second.Perm view.vMasternodes →
        SameRanks { view with sortScores := sortScores } getBlockHash nBlockHeight minProtocol
          fOnlyActive sortMasternodes first second

structure ScoresApart (fOnlyActive : Bool) : Prop where
  rank : ∀ first ∈ rankedBy view minProtocol fOnlyActive,
    ∀ second ∈ rankedBy view minProtocol fOnlyActive,
      scoreOf view getBlockHash nBlockHeight first.vin =
          scoreOf view getBlockHash nBlockHeight second.vin →
        first.vin.prevout = second.vin.prevout
  ranks : ∀ first ∈ rankedScores view getBlockHash nBlockHeight minProtocol,
    ∀ second ∈ rankedScores view getBlockHash nBlockHeight minProtocol,
      first.1 = second.1 → first = second

end Definitions

section Ranks

variable (view : RankView) (getBlockHash : Int → Option Uint256) (nBlockHeight minProtocol : Int)

theorem scoreKey_eq {α : Type} (first second : UInt32 × α) :
    scoreKey first = scoreKey second ↔ first.1 = second.1 :=
  UInt32.toNat_inj

theorem scoreOf_prevout (first second : CTxIn) (same : first.prevout = second.prevout) :
    scoreOf view getBlockHash nBlockHeight first = scoreOf view getBlockHash nBlockHeight second := by
  unfold scoreOf calculateScore
  rw [same]

theorem rank_same (fOnlyActive : Bool)
    (sortScores : List (UInt32 × CTxIn) → List (UInt32 × CTxIn))
    (sorts : SortsDown scoreKey sortScores)
    (apart : ScoresApart view getBlockHash nBlockHeight minProtocol fOnlyActive)
    (order : List CMasternode) (perm : order.Perm view.vMasternodes) (vin : CTxIn) :
    rankOf (inOrder { view with sortScores := sortScores } order) getBlockHash nBlockHeight
        minProtocol vin fOnlyActive =
      rankOf { view with sortScores := sortScores } getBlockHash nBlockHeight minProtocol vin
        fOnlyActive := by
  cases known : getBlockHash (toInt nBlockHeight) with
  | none =>
    rw [rankOf_unknown _ _ _ _ _ _ known, rankOf_unknown _ _ _ _ _ _ known]
  | some hash =>
    rw [rankOf_known _ _ _ _ _ _ hash known, rankOf_known _ _ _ _ _ _ hash known]
    have scores : (scoresOf view getBlockHash nBlockHeight
        (order.filter fun mn => !view.skips minProtocol fOnlyActive mn)).Perm
          (scoresOf view getBlockHash nBlockHeight (rankedBy view minProtocol fOnlyActive)) :=
      (perm.filter _).map _
    have sorted := sorts.map_unique (fun score => score.2.prevout) _ _ scores (by
      intro first firstIn second secondIn tied
      obtain ⟨own, ownIn, isFirst⟩ := mem_map.mp firstIn
      obtain ⟨other, otherIn, isSecond⟩ := mem_map.mp secondIn
      rw [scoreKey_eq] at tied
      rw [← isFirst, ← isSecond] at tied ⊢
      exact apart.rank own ownIn other otherIn tied)
    have found : ∀ scores : List (UInt32 × CTxIn),
        (scores.findIdx? fun score => score.2.prevout == vin.prevout) =
          (scores.map fun score => score.2.prevout).findIdx? fun prevout =>
            prevout == vin.prevout := by
      intro scores
      rw [findIdx?_map]
      rfl
    rw [found, found]
    exact congrArg (fun prevouts : List COutPoint =>
      rankAt (prevouts.findIdx? fun prevout => prevout == vin.prevout)) sorted

theorem ranks_same (sortMasternodes : List (UInt32 × CMasternode) → List (UInt32 × CMasternode))
    (sorts : SortsDown scoreKey sortMasternodes)
    (apart : ∀ first ∈ rankedScores view getBlockHash nBlockHeight minProtocol,
      ∀ second ∈ rankedScores view getBlockHash nBlockHeight minProtocol,
        first.1 = second.1 → first = second)
    (order : List CMasternode) (perm : order.Perm view.vMasternodes) :
    getMasternodeRanks (inOrder view order) getBlockHash nBlockHeight minProtocol sortMasternodes =
      getMasternodeRanks view getBlockHash nBlockHeight minProtocol sortMasternodes := by
  have scores : (order.filterMap (rankedScore view getBlockHash nBlockHeight minProtocol)).Perm
      (rankedScores view getBlockHash nBlockHeight minProtocol) := perm.filterMap _
  have sorted := sorts.map_unique id _ _ scores (by
    intro first firstIn second secondIn tied
    exact apart first firstIn second secondIn ((scoreKey_eq first second).mp tied))
  rw [map_id, map_id] at sorted
  unfold getMasternodeRanks
  cases getBlockHash (toInt nBlockHeight) with
  | none => rfl
  | some hash =>
    exact congrArg (fun scores : List (UInt32 × CMasternode) =>
      (scores.zipIdx 1).map fun score => (score.2, score.1.2)) sorted

end Ranks

section Ties

variable (view : RankView) (getBlockHash : Int → Option Uint256) (nBlockHeight minProtocol : Int)

variable (fOnlyActive : Bool)

/-- Of two entries with one score that the list has first, the stable sort ranks
the first right above the second. -/
theorem tied_rank (hash : Uint256)
    (known : getBlockHash (toInt nBlockHeight) = some hash) (first second : CMasternode)
    (rest : List CMasternode) (firstPasses : view.skips minProtocol fOnlyActive first = false)
    (secondPasses : view.skips minProtocol fOnlyActive second = false)
    (tied : scoreOf view getBlockHash nBlockHeight first.vin =
      scoreOf view getBlockHash nBlockHeight second.vin)
    (differ : first.vin.prevout ≠ second.vin.prevout) :
    let ranked := inOrder { view with sortScores := sortDown scoreKey } (first :: second :: rest)
    let above := ((scoresOf view getBlockHash nBlockHeight
      (rest.filter fun mn => !view.skips minProtocol fOnlyActive mn)).filter fun score =>
        decide ((scoreOf view getBlockHash nBlockHeight first.vin).toNat < scoreKey score)).length
    rankOf ranked getBlockHash nBlockHeight minProtocol first.vin fOnlyActive = above + 1 ∧
      rankOf ranked getBlockHash nBlockHeight minProtocol second.vin fOnlyActive = above + 2 := by
  intro ranked above
  have scores : scoresOf view getBlockHash nBlockHeight ((first :: second :: rest).filter fun mn =>
      !view.skips minProtocol fOnlyActive mn) =
        (scoreOf view getBlockHash nBlockHeight first.vin, first.vin) ::
          (scoreOf view getBlockHash nBlockHeight second.vin, second.vin) ::
            scoresOf view getBlockHash nBlockHeight
              (rest.filter fun mn => !view.skips minProtocol fOnlyActive mn) := by
    rw [filter_cons_of_pos (by simp [firstPasses]),
      filter_cons_of_pos (by simp [secondPasses])]
    rfl
  rcases sortDown_tied scoreKey
    (scoreOf view getBlockHash nBlockHeight first.vin, first.vin)
    (scoreOf view getBlockHash nBlockHeight second.vin, second.vin)
    (scoresOf view getBlockHash nBlockHeight
      (rest.filter fun mn => !view.skips minProtocol fOnlyActive mn))
    ((scoreKey_eq _ _).mpr tied) with ⟨front, behind, sorted, higher, count⟩
  have length : front.length = above := count
  have notAbove : ∀ vin : CTxIn, scoreOf view getBlockHash nBlockHeight vin =
      scoreOf view getBlockHash nBlockHeight first.vin →
        ∀ score ∈ front, (score.2.prevout == vin.prevout) = false := by
    intro vin same score member
    rw [beq_eq_false_iff_ne]
    intro samePrevout
    have listed : score ∈ scoresOf view getBlockHash nBlockHeight
        ((first :: second :: rest).filter fun mn => !view.skips minProtocol fOnlyActive mn) := by
      rw [scores]
      apply ((sortDown_sorts scoreKey).perm _).mem_iff.mp
      rw [sorted]
      exact mem_append_left _ member
    obtain ⟨mn, _, isScore⟩ := mem_map.mp listed
    have more := higher score member
    rw [← isScore] at more samePrevout
    have equal := scoreOf_prevout view getBlockHash nBlockHeight mn.vin vin samePrevout
    unfold scoreKey at more
    dsimp only at more
    rw [equal, same] at more
    exact Nat.lt_irrefl _ more
  have position : ∀ vin : CTxIn, scoreOf view getBlockHash nBlockHeight vin =
      scoreOf view getBlockHash nBlockHeight first.vin →
        (sortDown scoreKey (scoresOf view getBlockHash nBlockHeight
          ((first :: second :: rest).filter fun mn =>
            !view.skips minProtocol fOnlyActive mn))).findIdx? (fun score =>
              score.2.prevout == vin.prevout) =
          (((scoreOf view getBlockHash nBlockHeight first.vin, first.vin) ::
            (scoreOf view getBlockHash nBlockHeight second.vin, second.vin) :: behind).findIdx?
              fun score => score.2.prevout == vin.prevout).map fun index => index + above := by
    intro vin same
    have missed : (front.findIdx? fun score => score.2.prevout == vin.prevout) = none :=
      findIdx?_eq_none_iff.mpr (notAbove vin same)
    rw [scores, sorted, findIdx?_append, missed, Option.none_or, length]
  constructor
  · rw [rankOf_known ranked getBlockHash nBlockHeight minProtocol first.vin fOnlyActive hash known]
    have here := position first.vin rfl
    rw [findIdx?_cons, if_pos (beq_self_eq_true _), Option.map_some, Nat.zero_add] at here
    exact congrArg rankAt here
  · rw [rankOf_known ranked getBlockHash nBlockHeight minProtocol second.vin fOnlyActive hash known]
    have here := position second.vin tied.symm
    rw [findIdx?_cons, if_neg (by simpa using differ), findIdx?_cons,
      if_pos (beq_self_eq_true _), Option.map_some, Option.map_some] at here
    refine (congrArg rankAt here).trans ?_
    rw [rankAt_some]
    omega

theorem rank_not_free (free : OrderFree view getBlockHash nBlockHeight minProtocol fOnlyActive) (hash : Uint256)
    (known : getBlockHash (toInt nBlockHeight) = some hash) (first second : CMasternode)
    (firstIn : first ∈ rankedBy view minProtocol fOnlyActive)
    (secondIn : second ∈ rankedBy view minProtocol fOnlyActive)
    (tied : scoreOf view getBlockHash nBlockHeight first.vin =
      scoreOf view getBlockHash nBlockHeight second.vin) :
    first.vin.prevout = second.vin.prevout := by
  by_contra differ
  obtain ⟨firstListed, firstPasses⟩ := mem_filter.mp firstIn
  obtain ⟨secondListed, secondPasses⟩ := mem_filter.mp secondIn
  rw [Bool.not_eq_true'] at firstPasses secondPasses
  have apart : first ≠ second := fun same => differ (by rw [same])
  rcases two_first view.vMasternodes first second firstListed secondListed apart with
    ⟨rest, inFront, swapped⟩
  have same := (free (sortDown scoreKey) (sortDown scoreKey) (sortDown_sorts scoreKey)
    (sortDown_sorts scoreKey) _ _ inFront swapped).rank first.vin
  have above := (tied_rank view getBlockHash nBlockHeight minProtocol fOnlyActive hash known first
    second rest firstPasses secondPasses tied differ).1
  have below := (tied_rank view getBlockHash nBlockHeight minProtocol fOnlyActive hash known second
    first rest secondPasses firstPasses tied.symm (Ne.symm differ)).2
  rw [← tied] at below
  rw [above, below] at same
  omega

theorem ranks_not_free (free : OrderFree view getBlockHash nBlockHeight minProtocol fOnlyActive) (hash : Uint256)
    (known : getBlockHash (toInt nBlockHeight) = some hash) (first second : UInt32 × CMasternode)
    (firstIn : first ∈ rankedScores view getBlockHash nBlockHeight minProtocol)
    (secondIn : second ∈ rankedScores view getBlockHash nBlockHeight minProtocol)
    (tied : first.1 = second.1) : first = second := by
  by_contra differ
  obtain ⟨own, ownListed, isFirst⟩ := mem_filterMap.mp firstIn
  obtain ⟨other, otherListed, isSecond⟩ := mem_filterMap.mp secondIn
  have apart : own ≠ other := by
    intro same
    rw [same, isSecond] at isFirst
    exact differ (Option.some.inj isFirst).symm
  rcases two_first view.vMasternodes own other ownListed otherListed apart with
    ⟨rest, inFront, swapped⟩
  have same := (free (sortDown scoreKey) (sortDown scoreKey) (sortDown_sorts scoreKey)
    (sortDown_sorts scoreKey) _ _ inFront swapped).ranks
  have scores : ∀ (one two : CMasternode) (left right : UInt32 × CMasternode),
      rankedScore view getBlockHash nBlockHeight minProtocol one = some left →
      rankedScore view getBlockHash nBlockHeight minProtocol two = some right →
        (one :: two :: rest).filterMap (rankedScore view getBlockHash nBlockHeight minProtocol) =
          left :: right ::
            rest.filterMap (rankedScore view getBlockHash nBlockHeight minProtocol) := by
    intro one two left right isLeft isRight
    rw [filterMap_cons_some isLeft, filterMap_cons_some isRight]
  have entries : ∀ order : List CMasternode,
      (getMasternodeRanks (inOrder { view with sortScores := sortDown scoreKey } order)
        getBlockHash nBlockHeight minProtocol (sortDown scoreKey)).map Prod.snd =
        (sortDown scoreKey (order.filterMap
          (rankedScore view getBlockHash nBlockHeight minProtocol))).map Prod.snd := by
    intro order
    unfold getMasternodeRanks
    rw [known]
    dsimp only
    rw [map_map]
    have items := zipIdx_map_fst 1 (sortDown scoreKey (order.filterMap
      (rankedScore view getBlockHash nBlockHeight minProtocol)))
    have read := congrArg (map Prod.snd) items
    rw [map_map] at read
    exact read
  have sameEntries := congrArg (map Prod.snd) same
  rw [entries, entries, scores own other first second isFirst isSecond,
    scores other own second first isSecond isFirst] at sameEntries
  rcases sortDown_tied scoreKey first second
    (rest.filterMap (rankedScore view getBlockHash nBlockHeight minProtocol))
    ((scoreKey_eq first second).mpr tied) with ⟨above, behind, sorted, _, count⟩
  rcases sortDown_tied scoreKey second first
    (rest.filterMap (rankedScore view getBlockHash nBlockHeight minProtocol))
    ((scoreKey_eq second first).mpr tied.symm) with ⟨otherAbove, otherBehind, otherSorted, _, otherCount⟩
  have length : (above.map Prod.snd).length = (otherAbove.map Prod.snd).length := by
    rw [length_map, length_map, count, otherCount, (scoreKey_eq first second).mpr tied]
  rw [sorted, otherSorted, map_append, map_append] at sameEntries
  have tails := (append_inj sameEntries length).2
  rw [map_cons, map_cons] at tails
  exact differ (Prod.ext tied (cons.inj tails).1)

/-- The ranks are the same for every two orders of the list if and only if the block is not known or
no two ranked masternodes share a score. -/
theorem ranks_order_free_iff (fOnlyActive : Bool) :
    OrderFree view getBlockHash nBlockHeight minProtocol fOnlyActive ↔
      getBlockHash (toInt nBlockHeight) = none ∨
        ScoresApart view getBlockHash nBlockHeight minProtocol fOnlyActive := by
  constructor
  · intro free
    cases known : getBlockHash (toInt nBlockHeight) with
    | none => exact Or.inl rfl
    | some hash =>
      right
      constructor
      · intro first firstIn second secondIn tied
        exact rank_not_free view getBlockHash nBlockHeight minProtocol fOnlyActive free hash known
          first second firstIn secondIn tied
      · intro first firstIn second secondIn tied
        exact ranks_not_free view getBlockHash nBlockHeight minProtocol fOnlyActive free hash known
          first second firstIn secondIn tied
  · intro condition sortScores sortMasternodes sorts sortsMasternodes first second firstPerm
      secondPerm
    obtain unknown | apart := condition
    · constructor
      · intro vin
        rw [rankOf_unknown _ _ _ _ _ _ unknown, rankOf_unknown _ _ _ _ _ _ unknown]
      · unfold getMasternodeRanks
        rw [unknown]
    · constructor
      · intro vin
        rw [rank_same view getBlockHash nBlockHeight minProtocol fOnlyActive sortScores sorts apart
            first firstPerm vin,
          rank_same view getBlockHash nBlockHeight minProtocol fOnlyActive sortScores sorts apart
            second secondPerm vin]
      · have free : ∀ order : List CMasternode, order.Perm view.vMasternodes →
            getMasternodeRanks (inOrder { view with sortScores := sortScores } order) getBlockHash
                nBlockHeight minProtocol sortMasternodes =
              getMasternodeRanks view getBlockHash nBlockHeight minProtocol sortMasternodes :=
          fun order perm => ranks_same view getBlockHash nBlockHeight minProtocol sortMasternodes
            sortsMasternodes apart.ranks order perm
        rw [free first firstPerm, free second secondPerm]

end Ties

/-- Two masternodes that have expired change places with their entries on the
list. -/
theorem ranks_depend_on_order :
    ¬ ∀ (view : RankView) (getBlockHash : Int → Option Uint256) (nBlockHeight minProtocol : Int)
        (fOnlyActive : Bool), OrderFree view getBlockHash nBlockHeight minProtocol fOnlyActive := by
  intro free
  have both := free
    { exampleRanks .expired with
      vMasternodes := (exampleRanks .expired).vMasternodes.map fun mn =>
        { mn with activeState := .expired } }
    (fun _ => some 7) 210 0 true (sortDown scoreKey) (sortDown scoreKey) (sortDown_sorts scoreKey)
    (sortDown_sorts scoreKey) _ _ (List.Perm.refl _) (List.Perm.swap _ _ [])
  exact absurd both.ranks (by decide +kernel)

end ZenonCore.RankOrder
