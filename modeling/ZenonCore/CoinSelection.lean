import Mathlib.Algebra.BigOperators.Group.Finset.Basic
import Mathlib.Algebra.Order.BigOperators.Group.List
import Mathlib.Data.List.Perm.Subperm
import ZenonCore.Primitives

/-!
# The selection of coins

`SelectCoinsMinConf` with the stochastic search of `ApproximateBestSubset`.
-/

namespace ZenonCore.CoinSelection

open Primitives List

/-- An output with what is read of its wallet transaction. -/
structure COutput where
  tx : Uint256
  i : Nat
  nValue : CAmount
  nDepth : Int
  fSpendable : Bool
  isFromMe : Bool
deriving DecidableEq

def COutput.outPoint (output : COutput) : Uint256 × Nat := (output.tx, output.i)

def cent : CAmount := 1000000

def maxAmount : CAmount := 2 ^ 63 - 1

def obfuScationDenominations : List CAmount :=
  [1000010000000, 100001000000, 10000100000, 1000010000, 100001000, 10000100]

def isDenominatedAmount (nInputAmount : CAmount) : Bool :=
  obfuScationDenominations.contains nInputAmount

def lessThenDenom (out1 out2 : COutput) : Bool :=
  !isDenominatedAmount out1.nValue && isDenominatedAmount out2.nValue

/-- What the shuffle, the two sorts, which may leave equal elements in any order, and the random
bits come to. -/
structure Chance where
  arrange : List COutput → List COutput
  arranged : ∀ vCoins, (arrange vCoins).Perm vCoins ∧
    (arrange vCoins).Pairwise fun out1 out2 => lessThenDenom out2 out1 = false
  descend : List COutput → List COutput
  descended : ∀ vValue, (descend vValue).Perm vValue ∧
    (descend vValue).Pairwise fun out1 out2 => out2.nValue ≤ out1.nValue
  insecureRand : Bool → Nat → Nat → Bool

/-- The search; the flags of `vfIncluded` and `vfBest` are the sets of their true indices. -/
structure Search where
  vfIncluded : Finset Nat
  nTotal : CAmount
  fReachedTarget : Bool
  vfBest : Finset Nat
  nBest : CAmount

section Approximation

variable (value : Nat → CAmount) (size : Nat) (nTargetValue : CAmount)

/-- The body of the innermost loop for an index whose test succeeds. -/
def includeCoin (i : Nat) (search : Search) : Search :=
  let nTotal := search.nTotal + value i
  let vfIncluded := insert i search.vfIncluded
  if nTargetValue ≤ nTotal then
    { vfIncluded := vfIncluded.erase i
      nTotal := nTotal - value i
      fReachedTarget := true
      vfBest := if nTotal < search.nBest then vfIncluded else search.vfBest
      nBest := if nTotal < search.nBest then nTotal else search.nBest }
  else { search with vfIncluded := vfIncluded, nTotal := nTotal }

def runPass (test : Search → Nat → Bool) (indices : List Nat) (search : Search) : Search :=
  indices.foldl (fun search i =>
    if test search i then includeCoin value nTargetValue i search else search) search

/-- The two passes of a repetition. -/
def repetition (bits : Nat → Bool) (search : Search) : Search :=
  let first := runPass value nTargetValue (fun _ i => bits i) (.range size)
    { search with vfIncluded := ∅, nTotal := 0, fReachedTarget := false }
  if first.fReachedTarget then first
  else runPass value nTargetValue (fun search i => decide (i ∉ search.vfIncluded)) (.range size)
    first

def repetitions (insecureRand : Nat → Nat → Bool) : Nat → Search → Search
  | 0, search => search
  | iterations + 1, search =>
    if search.nBest = nTargetValue then search
    else repetitions insecureRand iterations
      (repetition value size nTargetValue (insecureRand iterations) search)

end Approximation

def amountAt (vValue : List COutput) (i : Nat) : CAmount := ((vValue[i]?).map COutput.nValue).getD 0

/-- `vfBest` and `nBest` of `ApproximateBestSubset`. -/
def approximateBestSubset (insecureRand : Nat → Nat → Bool) (vValue : List COutput)
    (nTotalLower nTargetValue : CAmount) : Finset Nat × CAmount :=
  let search := repetitions (amountAt vValue) vValue.length nTargetValue insecureRand 1000
    ⟨∅, 0, false, .range vValue.length, nTotalLower⟩
  (search.vfBest, search.nBest)

structure Selection where
  result : Bool
  setCoinsRet : Finset (Uint256 × Nat)
  nValueRet : CAmount
deriving DecidableEq

def total (outputs : List COutput) : CAmount := (outputs.map COutput.nValue).sum

def selected (chosen : List COutput) : Selection :=
  { result := true
    setCoinsRet := (chosen.map COutput.outPoint).toFinset
    nValueRet := total chosen }

/-- The lists that the loop over the outputs fills, or the output of exactly the target. -/
inductive Scan
  | exact (coin : COutput)
  | filled (vValue : List COutput) (coinLowestLarger : Option COutput)

section Code

variable (chance : Chance) (nTargetValue : CAmount) (nConfMine nConfTheirs : Int)

def eligible (output : COutput) : Bool :=
  output.fSpendable && !decide (output.nDepth < if output.isFromMe then nConfMine else nConfTheirs)

def usable (tryDenom : Bool) (output : COutput) : Bool :=
  eligible nConfMine nConfTheirs output && (tryDenom || !isDenominatedAmount output.nValue)

/-- The loop over the outputs that are not left out. -/
def scan : List COutput → List COutput → Option COutput → Scan
  | [], vValue, coinLowestLarger => .filled vValue coinLowestLarger
  | coin :: rest, vValue, coinLowestLarger =>
    let n := coin.nValue
    if n = nTargetValue then .exact coin
    else if n < nTargetValue + cent then scan rest (vValue ++ [coin]) coinLowestLarger
    else if n < (coinLowestLarger.map COutput.nValue).getD maxAmount then
      scan rest vValue (some coin)
    else scan rest vValue coinLowestLarger

/-- The end of the function, where the small coins are worth more than the target. -/
def selectSubset (vValue : List COutput) (coinLowestLarger : Option COutput) : Selection :=
  let nTotalLower := total vValue
  let vValue := chance.descend vValue
  let first := approximateBestSubset (chance.insecureRand false) vValue nTotalLower nTargetValue
  let (vfBest, nBest) :=
    if first.2 ≠ nTargetValue ∧ nTargetValue + cent ≤ nTotalLower then
      approximateBestSubset (chance.insecureRand true) vValue nTotalLower (nTargetValue + cent)
    else first
  let subset := selected (((List.range vValue.length).filter (· ∈ vfBest)).filterMap (vValue[·]?))
  match coinLowestLarger with
  | none => subset
  | some coin =>
    if (nBest ≠ nTargetValue ∧ nBest < nTargetValue + cent) ∨ coin.nValue ≤ nBest then
      selected [coin]
    else subset

/-- A round of the loop over `tryDenom`; no result where it goes on. -/
def selectRound (vCoins : List COutput) (tryDenom : Bool) : Option Selection :=
  match scan nTargetValue (vCoins.filter (usable nConfMine nConfTheirs tryDenom)) [] none with
  | .exact coin => some (selected [coin])
  | .filled vValue coinLowestLarger =>
    if total vValue = nTargetValue then some (selected vValue)
    else if total vValue < nTargetValue then coinLowestLarger.map fun coin => selected [coin]
    else some (selectSubset chance nTargetValue vValue coinLowestLarger)

/-- A round goes on only without a larger coin, so that the next one starts without one, too. -/
def selectCoinsMinConf (vCoins : List COutput) : Selection :=
  let vCoins := chance.arrange vCoins
  ((selectRound chance nTargetValue nConfMine nConfTheirs vCoins false).or
    (selectRound chance nTargetValue nConfMine nConfTheirs vCoins true)).getD ⟨false, ∅, 0⟩

end Code

section Search

variable (value : Nat → CAmount) (size : Nat) (nTargetValue : CAmount)

structure Consistent (search : Search) : Prop where
  included : search.vfIncluded ⊆ Finset.range size
  counted : search.nTotal = ∑ i ∈ search.vfIncluded, value i
  best : search.vfBest ⊆ Finset.range size
  worth : search.nBest = ∑ i ∈ search.vfBest, value i
  enough : nTargetValue ≤ search.nBest

theorem includeCoin_consistent (i : Nat) (search : Search) (inside : i < size)
    (left : i ∉ search.vfIncluded) (consistent : Consistent value size nTargetValue search) :
    Consistent value size nTargetValue (includeCoin value nTargetValue i search) := by
  obtain ⟨included, counted, best, worth, enough⟩ := consistent
  have within : insert i search.vfIncluded ⊆ Finset.range size :=
    Finset.insert_subset (Finset.mem_range.mpr inside) included
  have sum : search.nTotal + value i = ∑ j ∈ insert i search.vfIncluded, value j := by
    rw [Finset.sum_insert left, counted, add_comm]
  unfold includeCoin
  dsimp only
  split
  · rename_i reached
    rw [Finset.erase_insert left, add_sub_cancel_right]
    refine ⟨included, counted, ?_, ?_, ?_⟩ <;> dsimp only <;> split
    · exact within
    · exact best
    · exact sum
    · exact worth
    · exact reached
    · exact enough
  · exact ⟨within, sum, best, worth, enough⟩

/-- A pass includes only coins that are left: by its test, or because it comes to each index
once. -/
theorem runPass_consistent (test : Search → Nat → Bool) (indices : List Nat) (search : Search)
    (inside : ∀ i ∈ indices, i < size) (once : indices.Nodup)
    (left : (∀ search i, test search i = true → i ∉ search.vfIncluded) ∨
      ∀ i ∈ indices, i ∉ search.vfIncluded)
    (consistent : Consistent value size nTargetValue search) :
    Consistent value size nTargetValue (runPass value nTargetValue test indices search) := by
  induction indices generalizing search with
  | nil => exact consistent
  | cons i indices ih =>
    obtain ⟨new, once⟩ := nodup_cons.mp once
    have later (j : Nat) (member : j ∈ indices) : j < size := inside j (mem_cons_of_mem i member)
    rw [runPass, foldl_cons]
    split
    · rename_i tested
      have absent : i ∉ search.vfIncluded :=
        left.elim (fun checks => checks search i tested) fun all => all i mem_cons_self
      refine ih _ later once (left.imp_right fun all j member => ?_)
        (includeCoin_consistent value size nTargetValue i search (inside i mem_cons_self) absent
          consistent)
      have other : j ≠ i := fun same => new (same ▸ member)
      have before := all j (mem_cons_of_mem i member)
      unfold includeCoin
      dsimp only
      split
      · simpa [Finset.erase_insert absent] using before
      · simp [other, before]
    · exact ih _ later once (left.imp_right fun all j member => all j (mem_cons_of_mem i member))
        consistent

theorem repetitions_consistent (insecureRand : Nat → Nat → Bool) (iterations : Nat)
    (search : Search) (consistent : Consistent value size nTargetValue search) :
    Consistent value size nTargetValue
      (repetitions value size nTargetValue insecureRand iterations search) := by
  have inside : ∀ i ∈ List.range size, i < size := fun i => mem_range.mp
  induction iterations generalizing search with
  | zero => exact consistent
  | succ iterations ih =>
    rw [repetitions]
    split
    · exact consistent
    · have first := runPass_consistent value size nTargetValue
        (fun _ i => insecureRand iterations i) (.range size)
        { search with vfIncluded := ∅, nTotal := 0, fReachedTarget := false } inside nodup_range
        (.inr fun i _ => Finset.notMem_empty i)
        ⟨Finset.empty_subset _, rfl, consistent.best, consistent.worth, consistent.enough⟩
      apply ih
      rw [repetition]
      split
      · exact first
      · exact runPass_consistent value size nTargetValue _ _ _ inside nodup_range
          (.inl fun search i tested => of_decide_eq_true tested) first

end Search

theorem filterMap_indices {α : Type} (list : List α) :
    (List.range list.length).filterMap (list[·]?) = list := by
  induction list with
  | nil => rfl
  | cons first rest ih =>
    rw [length_cons, range_succ_eq_map, filterMap_cons, filterMap_map]
    simpa [Function.comp_def] using ih

theorem total_indices (vValue : List COutput) (indices : List Nat)
    (inside : ∀ i ∈ indices, i < vValue.length) :
    total (indices.filterMap (vValue[·]?)) = (indices.map (amountAt vValue)).sum := by
  induction indices with
  | nil => rfl
  | cons i indices ih =>
    have known := getElem?_eq_getElem (inside i mem_cons_self)
    have rest := ih fun j member => inside j (mem_cons_of_mem i member)
    rw [filterMap_cons, known, map_cons, sum_cons, ← rest, amountAt, known]
    rfl

/-- The best subset that is found is one of the coins, and worth the target. -/
theorem approximate_spec (insecureRand : Nat → Nat → Bool) (vValue : List COutput)
    (nTargetValue : CAmount) (enough : nTargetValue ≤ total vValue) :
    let found := approximateBestSubset insecureRand vValue (total vValue) nTargetValue
    nTargetValue ≤ found.2 ∧
      total (((List.range vValue.length).filter (· ∈ found.1)).filterMap (vValue[·]?)) =
        found.2 := by
  have all : total vValue = ∑ i ∈ Finset.range vValue.length, amountAt vValue i := by
    have whole := total_indices vValue (.range vValue.length) fun i => mem_range.mp
    rw [filterMap_indices] at whole
    rw [whole, ← sum_toFinset _ nodup_range]
    congr 1
    ext
    simp
  have consistent := repetitions_consistent (amountAt vValue) vValue.length nTargetValue
    insecureRand 1000 ⟨∅, 0, false, .range vValue.length, total vValue⟩
    ⟨Finset.empty_subset _, rfl, subset_rfl, all, enough⟩
  refine ⟨consistent.enough, ?_⟩
  dsimp only [approximateBestSubset]
  rw [total_indices _ _ fun i member => mem_range.mp (mem_filter.mp member).1,
    consistent.worth, ← sum_toFinset _ (nodup_range.filter _)]
  congr 1
  ext i
  have inside := @consistent.best i
  simp only [mem_toFinset, mem_filter, mem_range]
  exact ⟨fun both => of_decide_eq_true both.2, fun member =>
    ⟨Finset.mem_range.mp (inside member), decide_eq_true member⟩⟩

theorem total_le (chosen outputs : List COutput) (among : chosen.Subperm outputs)
    (nonneg : ∀ output ∈ outputs, 0 ≤ output.nValue) : total chosen ≤ total outputs := by
  obtain ⟨same, perm, sublist⟩ := among
  have sums : total same = total chosen := (perm.map COutput.nValue).sum_eq
  rw [← sums]
  refine (sublist.map COutput.nValue).sum_le_sum fun amount member => ?_
  obtain ⟨output, among, rfl⟩ := mem_map.mp member
  exact nonneg output among

theorem total_singleton (coin : COutput) : total [coin] = coin.nValue := by
  rw [total, map_singleton, sum_singleton]

section Rounds

variable (chance : Chance) (nTargetValue : CAmount) (nConfMine nConfTheirs : Int)

theorem scan_exact (coins vValue : List COutput) (coinLowestLarger : Option COutput)
    (coin : COutput) (scanned : scan nTargetValue coins vValue coinLowestLarger = .exact coin) :
    coin ∈ coins ∧ coin.nValue = nTargetValue := by
  induction coins generalizing vValue coinLowestLarger with
  | nil => cases scanned
  | cons first rest ih =>
    rw [scan] at scanned
    split_ifs at scanned with same
    · cases scanned
      exact ⟨mem_cons_self, same⟩
    all_goals
      obtain ⟨member, worth⟩ := ih _ _ scanned
      exact ⟨mem_cons_of_mem first member, worth⟩

theorem scan_filled (coins vValue last : List COutput) (coinLowestLarger larger : Option COutput)
    (scanned : scan nTargetValue coins vValue coinLowestLarger = .filled last larger) :
    last = vValue ++ coins.filter (·.nValue < nTargetValue + cent) ∧
      (∀ coin, larger = some coin → coinLowestLarger = some coin ∨
        (coin ∈ coins ∧ nTargetValue + cent ≤ coin.nValue)) ∧
      (larger = none → coinLowestLarger = none ∧
        ∀ coin ∈ coins, coin.nValue < maxAmount → coin.nValue < nTargetValue + cent) := by
  induction coins generalizing vValue coinLowestLarger with
  | nil =>
    cases scanned
    exact ⟨(append_nil _).symm, fun coin is => .inl is, fun none => ⟨none, by simp⟩⟩
  | cons first rest ih =>
    rw [scan] at scanned
    split_ifs at scanned with same small lower
    all_goals
      obtain ⟨filled, above, missing⟩ := ih _ _ scanned
      refine ⟨by simp [filled, small], ?_, ?_⟩
      · grind
      · grind

/-- A selection of some of the outputs that are worth the target. -/
def Covers (outputs : List COutput) (selection : Selection) : Prop :=
  ∃ chosen : List COutput, chosen.Subperm outputs ∧ selection = selected chosen ∧
    nTargetValue ≤ total chosen

theorem selectSubset_covers (outputs vValue : List COutput) (coinLowestLarger : Option COutput)
    (among : vValue.Subperm outputs) (enough : nTargetValue ≤ total vValue)
    (larger : ∀ coin, coinLowestLarger = some coin → coin ∈ outputs ∧ nTargetValue ≤ coin.nValue) :
    Covers nTargetValue outputs (selectSubset chance nTargetValue vValue coinLowestLarger) := by
  obtain ⟨perm, -⟩ := chance.descended vValue
  have same : total (chance.descend vValue) = total vValue := (perm.map COutput.nValue).sum_eq
  have subset (insecureRand : Nat → Nat → Bool) (target : CAmount)
      (covered : target ≤ total vValue) (least : nTargetValue ≤ target) :
      Covers nTargetValue outputs (selected (((List.range (chance.descend vValue).length).filter
        (· ∈ (approximateBestSubset insecureRand (chance.descend vValue) (total vValue)
          target).1)).filterMap ((chance.descend vValue)[·]?))) := by
    rw [← same] at covered ⊢
    have found := approximate_spec insecureRand _ target covered
    refine ⟨_, ?_, rfl, least.trans (found.1.trans_eq found.2.symm)⟩
    refine Subperm.trans (Subperm.trans (Sublist.subperm ?_) perm.subperm) among
    have sublist := Sublist.filterMap (fun i : Nat => (chance.descend vValue)[i]?)
      (filter_sublist (p := (· ∈ (approximateBestSubset insecureRand (chance.descend vValue)
        (total (chance.descend vValue)) target).1)) (l := .range (chance.descend vValue).length))
    rwa [filterMap_indices] at sublist
  have single (coin : COutput) (is : coinLowestLarger = some coin) :
      Covers nTargetValue outputs (selected [coin]) := by
    obtain ⟨member, worth⟩ := larger coin is
    exact ⟨[coin], singleton_subperm_iff.mpr member, rfl, by rwa [total_singleton]⟩
  unfold selectSubset
  dsimp only
  split_ifs with again
  · have covered := subset (chance.insecureRand true) _ again.2
      (le_add_of_nonneg_right (by decide))
    split
    · exact covered
    · split_ifs
      · exact single _ rfl
      · exact covered
  · have covered := subset (chance.insecureRand false) nTargetValue enough le_rfl
    split
    · exact covered
    · split_ifs
      · exact single _ rfl
      · exact covered

theorem selectRound_spec (vCoins : List COutput) (tryDenom : Bool)
    (bounded : ∀ output ∈ vCoins, output.nValue < maxAmount) :
    let coins := vCoins.filter (usable nConfMine nConfTheirs tryDenom)
    (∀ selection, selectRound chance nTargetValue nConfMine nConfTheirs vCoins tryDenom =
        some selection → Covers nTargetValue coins selection) ∧
      (selectRound chance nTargetValue nConfMine nConfTheirs vCoins tryDenom = none →
        total coins < nTargetValue) := by
  intro coins
  unfold selectRound
  cases scanned : scan nTargetValue coins [] none with
  | exact coin =>
    obtain ⟨member, worth⟩ := scan_exact _ _ _ _ _ scanned
    refine ⟨?_, nofun⟩
    rintro selection ⟨⟩
    exact ⟨[coin], singleton_subperm_iff.mpr member, rfl, by rw [total_singleton, worth]⟩
  | filled vValue coinLowestLarger =>
    obtain ⟨filled, above, missing⟩ := scan_filled _ _ _ _ _ _ scanned
    rw [nil_append] at filled
    have among : vValue.Subperm coins := filled ▸ filter_sublist.subperm
    have larger (coin : COutput) (is : coinLowestLarger = some coin) :
        coin ∈ coins ∧ nTargetValue ≤ coin.nValue := by
      rcases above coin is with absurd | ⟨member, large⟩
      · cases absurd
      · exact ⟨member, (le_add_of_nonneg_right (by decide)).trans large⟩
    dsimp only
    split_ifs with exact less
    · refine ⟨?_, nofun⟩
      rintro selection ⟨⟩
      exact ⟨vValue, among, rfl, exact.ge⟩
    · cases coinLowestLarger with
      | some coin =>
        obtain ⟨member, worth⟩ := larger coin rfl
        refine ⟨?_, nofun⟩
        rintro selection ⟨⟩
        exact ⟨[coin], singleton_subperm_iff.mpr member, rfl, by rwa [total_singleton]⟩
      | none =>
        refine ⟨nofun, fun _ => ?_⟩
        have whole : vValue = coins := by
          rw [filled, filter_eq_self]
          intro coin member
          exact decide_eq_true ((missing rfl).2 coin member
            (bounded coin (mem_filter.mp member).1))
        rwa [← whole]
    · refine ⟨?_, nofun⟩
      rintro selection ⟨⟩
      exact selectSubset_covers chance nTargetValue coins vValue coinLowestLarger among
        (not_lt.mp less) larger

/-- The selection succeeds if and only if the eligible outputs are worth the target. -/
theorem select_coins_sound_complete (vCoins : List COutput)
    (distinct : (vCoins.map COutput.outPoint).Nodup)
    (nonneg : ∀ output ∈ vCoins, 0 ≤ output.nValue) (positive : 0 < nTargetValue)
    (inRange : total vCoins + nTargetValue + cent < 2 ^ 63) :
    let selection := selectCoinsMinConf chance nTargetValue nConfMine nConfTheirs vCoins
    let outputs := vCoins.filter (eligible nConfMine nConfTheirs)
    (selection.result = true ↔ nTargetValue ≤ total outputs) ∧
      (selection.result = true → ∃ chosen : List COutput, chosen.Subperm outputs ∧
        (chosen.map COutput.outPoint).Nodup ∧ selection = selected chosen ∧
        nTargetValue ≤ total chosen) ∧
      (selection.result = false → selection.setCoinsRet = ∅ ∧ selection.nValueRet = 0) := by
  intro selection outputs
  have perm := (chance.arranged vCoins).1
  have bounded (output : COutput) (member : output ∈ vCoins) : output.nValue < maxAmount := by
    have single := total_le [output] vCoins (singleton_subperm_iff.mpr member) nonneg
    rw [total_singleton] at single
    have below (sum target value : Int) (low : 0 < target) (most : sum + target + 1000000 < 2 ^ 63)
        (least : value ≤ sum) : value < 2 ^ 63 - 1 := by
      omega
    exact below _ _ _ positive inRange single
  have spec (tryDenom : Bool) := selectRound_spec chance nTargetValue nConfMine nConfTheirs
    (chance.arrange vCoins) tryDenom
    fun output member => bounded output (perm.mem_iff.mp member)
  have among (tryDenom : Bool) : ((chance.arrange vCoins).filter
      (usable nConfMine nConfTheirs tryDenom)).Subperm outputs := by
    refine Subperm.trans (Sublist.subperm ?_) (perm.filter _).subperm
    refine monotone_filter_right _ fun output takes => ?_
    simp only [usable, Bool.and_eq_true] at takes
    exact takes.1
  have whole : (chance.arrange vCoins).filter (usable nConfMine nConfTheirs true) =
      (chance.arrange vCoins).filter (eligible nConfMine nConfTheirs) := by
    exact filter_congr fun output _ => by simp [usable]
  have sums : total ((chance.arrange vCoins).filter (eligible nConfMine nConfTheirs)) =
      total outputs := ((perm.filter _).map COutput.nValue).sum_eq
  have outcome : Covers nTargetValue outputs selection ∨
      (selection = ⟨false, ∅, 0⟩ ∧ total outputs < nTargetValue) := by
    have widen (tryDenom : Bool) (taken : Selection)
        (found : selectRound chance nTargetValue nConfMine nConfTheirs (chance.arrange vCoins)
          tryDenom = some taken) : Covers nTargetValue outputs taken := by
      obtain ⟨chosen, within, rest⟩ := (spec tryDenom).1 taken found
      exact ⟨chosen, within.trans (among tryDenom), rest⟩
    cases first : selectRound chance nTargetValue nConfMine nConfTheirs (chance.arrange vCoins)
      false with
    | some taken =>
      left
      have is : selection = taken := by simp [selection, selectCoinsMinConf, first]
      exact is ▸ widen false taken first
    | none =>
      cases second : selectRound chance nTargetValue nConfMine nConfTheirs
        (chance.arrange vCoins) true with
      | some taken =>
        left
        have is : selection = taken := by simp [selection, selectCoinsMinConf, first, second]
        exact is ▸ widen true taken second
      | none =>
        have less := (spec true).2 second
        rw [whole, sums] at less
        exact .inr ⟨by simp [selection, selectCoinsMinConf, first, second], less⟩
  rcases outcome with ⟨chosen, within, is, enough⟩ | ⟨is, less⟩
  · obtain ⟨same, order, sublist⟩ := within.trans
      (filter_sublist (p := eligible nConfMine nConfTheirs)).subperm
    have apart := (order.map COutput.outPoint).nodup_iff.mp (distinct.sublist (sublist.map _))
    have covered := enough.trans (total_le chosen outputs within fun output member =>
      nonneg output (mem_filter.mp member).1)
    rw [is]
    exact ⟨iff_of_true rfl covered, fun _ => ⟨chosen, within, apart, rfl, enough⟩, nofun⟩
  · rw [is]
    exact ⟨⟨nofun, fun enough => absurd less (not_lt.mpr enough)⟩, nofun, fun _ => ⟨rfl, rfl⟩⟩

end Rounds

def stableChance : Chance where
  arrange := fun vCoins => vCoins.mergeSort fun out1 out2 => !lessThenDenom out2 out1
  arranged := fun vCoins => ⟨mergeSort_perm .., by
    simpa using @pairwise_mergeSort _ (fun out1 out2 => !lessThenDenom out2 out1)
      (by simp only [lessThenDenom]; grind) (by simp only [lessThenDenom]; grind) vCoins⟩
  descend := fun vValue => vValue.mergeSort fun out1 out2 => decide (out2.nValue ≤ out1.nValue)
  descended := fun vValue => ⟨mergeSort_perm .., by
    simpa using @pairwise_mergeSort _ (fun out1 out2 => decide (out2.nValue ≤ out1.nValue))
      (by grind) (by grind) vValue⟩
  insecureRand := fun _ _ i => i % 2 == 0

def walletCoin (nValue : CAmount) : COutput := ⟨7, 0, nValue, 8, true, true⟩

theorem one_coin_selected :
    (selectCoinsMinConf stableChance 4 1 6 [walletCoin 5]).result = true ↔
      4 ≤ total ([walletCoin 5].filter (eligible 1 6)) :=
  (select_coins_sound_complete stableChance 4 1 6 [walletCoin 5] (by decide) (by decide)
    (by decide) (by decide)).1

/-- A coin of the largest amount is taken for the mark that there is no larger coin. -/
theorem largest_coin_left : ¬ ∀ (chance : Chance) (nTargetValue : CAmount)
    (nConfMine nConfTheirs : Int) (vCoins : List COutput), 0 < nTargetValue →
    (vCoins.map COutput.outPoint).Nodup → (∀ output ∈ vCoins, 0 ≤ output.nValue) →
      ((selectCoinsMinConf chance nTargetValue nConfMine nConfTheirs vCoins).result = true ↔
        nTargetValue ≤ total (vCoins.filter (eligible nConfMine nConfTheirs))) := by
  intro complete
  have iff := complete stableChance 1 1 6 [walletCoin maxAmount] (by decide) (by decide)
    (by decide)
  have failed : (selectCoinsMinConf stableChance 1 1 6 [walletCoin maxAmount]).result = false := by
    decide +kernel
  rw [iff.mpr (by decide)] at failed
  cases failed

end ZenonCore.CoinSelection
