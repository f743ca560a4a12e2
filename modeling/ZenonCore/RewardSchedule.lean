import ZenonCore.ConnectBlock
import ZenonCore.Library.Staircases

/-!
# The schedule of the subsidy

Up to 236160 a range of `GetBlockValue` ends below a height and the next starts above it, so
this height gets the last branch.
-/

namespace ZenonCore.RewardSchedule

open ChainParams ConnectBlock Primitives Staircases

def borderHeights : List Int := [321, 63360, 106560, 149760, 192960, 236160]

/-- One of the ranges of `GetBlockValue` contains the height. -/
def InRange (params : CChainParams) (nHeight : Int) : Prop :=
  (params.networkID = .testnet ∧ nHeight < 200 ∧ 0 < nHeight) ∨ nHeight = 0 ∨
    (nHeight < 321 ∧ 0 < nHeight) ∨ (nHeight < 63360 ∧ 321 < nHeight) ∨
    (nHeight < 106560 ∧ 63360 < nHeight) ∨ (nHeight < 149760 ∧ 106560 < nHeight) ∨
    (nHeight < 192960 ∧ 149760 < nHeight) ∨ (nHeight < 236160 ∧ 192960 < nHeight) ∨
    (nHeight ≤ 279360 ∧ 236160 < nHeight) ∨ (nHeight ≤ 322560 ∧ 279360 < nHeight) ∨
    322560 < nHeight

section Schedule

variable (params : CChainParams)

def firstSubsidy : CAmount :=
  if params.networkID = .testnet then 250000 * coin else 10 * coin

/-- The steps of the subsidy, were there no heights between the ranges. -/
def subsidySteps : List (Int × CAmount) :=
  [(200, 10 * coin), (63360, 7 * coin), (106560, 650000000), (149760, 6 * coin),
    (192960, 550000000), (236160, 5 * coin), (279361, 4 * coin), (322561, 3 * coin)]

def scheduledSubsidy (nHeight : Int) : CAmount :=
  staircase (firstSubsidy params) subsidySteps nHeight

variable (nHeight : Int)

theorem inRange_iff (first : 1 ≤ nHeight) :
    InRange params nHeight ↔ nHeight ∉ borderHeights := by
  unfold InRange borderHeights
  simp only [List.mem_cons, List.not_mem_nil, or_false]
  omega

theorem firstSubsidy_ge : 10 * coin ≤ firstSubsidy params := by
  unfold firstSubsidy
  split
  · decide
  · exact Int.le_refl _

theorem subsidySteps_falling : Falling (firstSubsidy params) subsidySteps := by
  unfold subsidySteps
  simp only [Falling, firstSubsidy_ge, true_and, and_true]
  decide

theorem scheduledSubsidy_ge : 3 * coin ≤ scheduledSubsidy params nHeight := by
  apply le_staircase
  · exact Int.le_trans (by decide) (firstSubsidy_ge params)
  · decide

theorem getBlockValue_border (border : nHeight ∈ borderHeights) :
    getBlockValue params nHeight = coin := by
  unfold borderHeights at border
  simp only [List.mem_cons, List.not_mem_nil, or_false] at border
  unfold getBlockValue
  rcases border with rfl | rfl | rfl | rfl | rfl | rfl <;> simp

theorem getBlockValue_inside (first : 1 ≤ nHeight)
    (inside : nHeight ∉ borderHeights) :
    getBlockValue params nHeight = scheduledSubsidy params nHeight := by
  unfold borderHeights at inside
  simp only [List.mem_cons, List.not_mem_nil, or_false, not_or] at inside
  unfold getBlockValue scheduledSubsidy subsidySteps firstSubsidy
  simp only [staircase]
  by_cases start : nHeight < 200
  · rw [if_pos start]
    by_cases test : params.networkID = .testnet
    · rw [if_pos ⟨test, start, by omega⟩, if_pos test]
    · simp (disch := omega) only [test, false_and, if_false, if_pos, if_neg]
  · have notStart : ¬ (params.networkID = .testnet ∧ nHeight < 200 ∧ 0 < nHeight) := by omega
    rw [if_neg notStart, if_neg start]
    obtain below | above := lt_or_ge nHeight 63360
    · by_cases early : nHeight < 321
      · simp (disch := omega) only [if_pos, if_neg]
      · simp (disch := omega) only [if_pos, if_neg]
    obtain below | above := lt_or_ge nHeight 106560
    · simp (disch := omega) only [if_pos, if_neg]
    obtain below | above := lt_or_ge nHeight 149760
    · simp (disch := omega) only [if_pos, if_neg]
    obtain below | above := lt_or_ge nHeight 192960
    · simp (disch := omega) only [if_pos, if_neg]
    obtain below | above := lt_or_ge nHeight 236160
    · simp (disch := omega) only [if_pos, if_neg]
    obtain below | above := lt_or_ge nHeight 279361
    · simp (disch := omega) only [if_pos, if_neg]
    obtain below | above := lt_or_ge nHeight 322561
    · simp (disch := omega) only [if_pos, if_neg]
    · simp (disch := omega) only [if_pos, if_neg]

theorem getBlockValue_eq (first : 1 ≤ nHeight) :
    getBlockValue params nHeight =
      if nHeight ∈ borderHeights then coin else scheduledSubsidy params nHeight := by
  split
  · exact getBlockValue_border params nHeight ‹_›
  · exact getBlockValue_inside params nHeight first ‹_›

end Schedule

theorem getBlockValue_le_iff (params : CChainParams) (earlier later : Int) (first : 1 ≤ earlier)
    (order : earlier ≤ later) :
    getBlockValue params later ≤ getBlockValue params earlier ↔
      (earlier ∈ borderHeights → later ∈ borderHeights) := by
  rw [getBlockValue_eq params earlier first, getBlockValue_eq params later (by omega)]
  have falls := staircase_antitone (firstSubsidy params) subsidySteps
    (subsidySteps_falling params) earlier later order
  have early := scheduledSubsidy_ge params earlier
  have late := scheduledSubsidy_ge params later
  have one : coin < 3 * coin := by decide
  by_cases here : earlier ∈ borderHeights
  · rw [if_pos here]
    by_cases there : later ∈ borderHeights
    · rw [if_pos there]
      simp [there]
    · rw [if_neg there]
      simp only [here, there, true_implies, iff_false]
      exact not_le.mpr (lt_of_lt_of_le one late)
  · rw [if_neg here]
    simp only [here, false_implies, iff_true]
    split
    · exact le_trans (le_of_lt one) early
    · exact falls

/-- From the first block behind the premine on, the subsidy does not rise from one height to a later
one exactly if the first is in a range or the later one is in none. -/
theorem subsidy_falls_iff (params : CChainParams) (earlier later : Int) (first : 1 ≤ earlier)
    (order : earlier ≤ later) :
    (getBlockValue params later ≤ getBlockValue params earlier ↔
        (earlier ∈ borderHeights → later ∈ borderHeights)) ∧
      (InRange params earlier ↔ earlier ∉ borderHeights) :=
  ⟨getBlockValue_le_iff params earlier later first order, inRange_iff params earlier first⟩

theorem subsidy_falls_behind_the_first_step :
    getBlockValue mainParams 63361 ≤ getBlockValue mainParams 320 ∧
      ¬ getBlockValue mainParams 322 ≤ getBlockValue mainParams 321 := by
  have falls := subsidy_falls_iff mainParams 320 63361 (by decide) (by decide)
  have rises := subsidy_falls_iff mainParams 321 322 (by decide) (by decide)
  exact ⟨falls.1.mpr (by decide), fun less => absurd (rises.1.mp less) (by decide)⟩

/-- The subsidy rises behind height 321, which no range contains. -/
theorem subsidy_rises :
    ¬ (∀ (params : CChainParams) (earlier later : Int), 1 ≤ earlier → earlier ≤ later →
      getBlockValue params later ≤ getBlockValue params earlier ∧ InRange params earlier) := by
  intro falls
  have both := falls mainParams 321 322 (by decide) (by decide)
  exact absurd both.1 (by decide)

end ZenonCore.RewardSchedule
