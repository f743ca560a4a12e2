import Mathlib.Data.List.Induction
import Mathlib.Data.List.GetD
import Mathlib.Data.List.Sort

/-!
# The clock and the peers

`AddTimeData` takes one sample from each address, and the median of some numbers of samples as
the offset of the clock.
-/

namespace ZenonCore.PeerTime

open List

structure CMedianFilter where
  vValues : List Int64
  vSorted : List Int64
  nSize : Nat
deriving DecidableEq

def CMedianFilter.input (filter : CMedianFilter) (value : Int64) : CMedianFilter :=
  let vValues := (if filter.vValues.length = filter.nSize then filter.vValues.tail
    else filter.vValues) ++ [value]
  { filter with
    vValues := vValues
    vSorted := vValues.insertionSort (· ≤ ·) }

def CMedianFilter.median (filter : CMedianFilter) : Int64 :=
  let size := filter.vSorted.length
  if size % 2 = 1 then filter.vSorted.getD (size / 2) 0
  else (filter.vSorted.getD (size / 2 - 1) 0 + filter.vSorted.getD (size / 2) 0) / 2

/-- The negation of the smallest number wraps. -/
def abs64 (n : Int64) : Int64 := if 0 ≤ n then n else -n

variable {α : Type} [DecidableEq α]

structure TimeData (α : Type) where
  setKnown : List α
  vTimeOffsets : CMedianFilter
  nTimeOffset : Int64
  fDone : Bool
  strMiscWarning : String

def initial : TimeData α where
  setKnown := []
  vTimeOffsets := ⟨[0], [0], 200⟩
  nTimeOffset := 0
  fDone := false
  strMiscWarning := ""

def strMessage : String :=
  "Warning: Please check that your computer's date and time are correct! If your clock is wrong " ++
    "Zenon Core will not work properly."

/-- The offset for a median; one too far off gives a warning unless a sample is near our time. -/
def setOffset (data : TimeData α) : TimeData α :=
  let nMedian := data.vTimeOffsets.median
  if abs64 nMedian < 70 * 60 then { data with nTimeOffset := nMedian }
  else if data.fDone || data.vTimeOffsets.vSorted.any fun nOffset =>
      nOffset != 0 && decide (abs64 nOffset < 5 * 60) then { data with nTimeOffset := 0 }
  else
    { data with
      nTimeOffset := 0
      fDone := true
      strMiscWarning := strMessage }

def updates (values : List Int64) : Bool := 5 ≤ values.length && values.length % 2 == 1

def addTimeData (data : TimeData α) (ip : α) (nOffsetSample : Int64) : TimeData α :=
  if ip ∈ data.setKnown then data
  else
    let data := { data with
      setKnown := ip :: data.setKnown
      vTimeOffsets := data.vTimeOffsets.input nOffsetSample }
    if updates data.vTimeOffsets.vValues then setOffset data else data

def run (calls : List (α × Int64)) : TimeData α :=
  calls.foldl (fun data call => addTimeData data call.1 call.2) initial

/-- The addresses that are known behind some calls, and the samples that were taken of them. -/
def heard (calls : List (α × Int64)) : List α × List Int64 :=
  calls.foldl (fun taken call =>
    if call.1 ∈ taken.1 then taken else (call.1 :: taken.1, taken.2 ++ [call.2])) ([], [])

/-- The last 200 samples, with the first value of the filter. -/
def window (calls : List (α × Int64)) : List Int64 :=
  let values := 0 :: (heard calls).2
  values.drop (values.length - 200)

/-- At most half of the values are below, and at most half above. -/
def IsMedian (values : List Int64) (m : Int64) : Prop :=
  m ∈ values ∧ 2 * values.countP (· < m) ≤ values.length ∧ 2 * values.countP (m < ·) ≤ values.length

theorem countP_outside (list : List Int64) (p : Int64 → Bool) (k : Nat) :
    ((∀ x ∈ list.drop k, p x = false) → list.countP p ≤ k) ∧
      ((∀ x ∈ list.take k, p x = false) → list.countP p + min k list.length ≤ list.length) := by
  have split := congrArg (countP p) (take_append_drop k list)
  have front := countP_le_length (p := p) (l := list.take k)
  have back := countP_le_length (p := p) (l := list.drop k)
  rw [countP_append] at split
  rw [length_take] at front
  rw [length_drop] at back
  constructor
  · intro none
    have zero : (list.drop k).countP p = 0 := countP_eq_zero.mpr (by simpa using none)
    omega
  · intro none
    have zero : (list.take k).countP p = 0 := countP_eq_zero.mpr (by simpa using none)
    omega

theorem median_spec (values : List Int64) (odd : values.length % 2 = 1) :
    IsMedian values ((values.insertionSort (· ≤ ·)).getD (values.length / 2) 0) := by
  have perm := perm_insertionSort (· ≤ ·) values
  have sorted := pairwise_insertionSort (· ≤ ·) values
  generalize values.insertionSort (· ≤ ·) = list at perm sorted
  rw [IsMedian, ← perm.countP_eq, ← perm.countP_eq, ← perm.length_eq, ← perm.mem_iff]
  rw [← perm.length_eq] at odd
  have inside : list.length / 2 < list.length := by omega
  rw [getD_eq_getElem _ _ inside]
  refine ⟨getElem_mem _, ?_, ?_⟩
  all_goals
    have head := drop_eq_getElem_cons inside
    generalize list[list.length / 2] = m at head
    rw [← take_append_drop (list.length / 2) list, head, pairwise_append,
      pairwise_cons] at sorted
    obtain ⟨-, ⟨above, -⟩, below⟩ := sorted
  · have few := (countP_outside list (· < m) (list.length / 2)).1 fun x member => by
      rw [head] at member
      obtain rfl | later := mem_cons.mp member
      · simp
      · simpa using above x later
    omega
  · have few := (countP_outside list (m < ·) (list.length / 2 + 1)).2 fun x member => by
      rw [take_add, head] at member
      obtain front | rfl := by simpa using member
      · simpa using below x front m mem_cons_self
      · simp
    omega

theorem abs64_small (n : Int64) :
    abs64 n < 70 * 60 ↔ (-4200 < n.toInt ∧ n.toInt < 4200) ∨ n = Int64.minValue := by
  have lower := Int64.le_toInt n
  have upper := Int64.toInt_lt n
  rw [abs64, Int64.lt_iff_toInt_lt, ← Int64.toInt_inj, show (70 * 60 : Int64).toInt = 4200 by rfl,
    show Int64.minValue.toInt = -2 ^ 63 by rfl]
  split
  · rename_i positive
    rw [Int64.le_iff_toInt_le, Int64.toInt_zero] at positive
    omega
  · rename_i negative
    rw [Int64.le_iff_toInt_le, Int64.toInt_zero] at negative
    rw [Int64.toInt_neg]
    by_cases smallest : n.toInt = -2 ^ 63
    · rw [smallest]
      decide
    · rw [Int.bmod_eq_of_le (by omega) (by omega)]
      omega

/-- The smallest number is the median exactly where it is more than half of the values. -/
theorem median_minValue (values : List Int64) (m : Int64) (median : IsMedian values m)
    (odd : values.length % 2 = 1) :
    m = Int64.minValue ↔ values.length < 2 * values.count Int64.minValue := by
  obtain ⟨-, below, above⟩ := median
  constructor
  · rintro rfl
    have split := length_eq_countP_add_countP (Int64.minValue < ·) (l := values)
    have same : values.countP (fun x => decide ¬decide (Int64.minValue < x) = true) =
        values.count Int64.minValue := countP_congr fun x _ => by
      have lower := Int64.le_toInt x
      simp [Int64.le_iff_toInt_le, ← Int64.toInt_inj]
      omega
    omega
  · intro most
    by_contra other
    have fewer : values.count Int64.minValue ≤ values.countP (· < m) :=
      countP_mono_left fun x _ same => by
        have lower := Int64.le_toInt m
        rw [← Int64.toInt_inj, show Int64.minValue.toInt = -2 ^ 63 by rfl] at other
        rw [eq_of_beq same, decide_eq_true_eq, Int64.lt_iff_toInt_lt,
          show Int64.minValue.toInt = -2 ^ 63 by rfl]
        omega
    omega

section Calls

variable (passed : List (α × Int64)) (ip : α) (sample : Int64)

/-- The call takes a sample and sets the offset. -/
def Updates : Prop :=
  ip ∉ (heard passed).1 ∧ updates (window (passed ++ [(ip, sample)])) = true

def Bounded (offset : Int64) : Prop := -4200 < offset.toInt ∧ offset.toInt < 4200

instance (offset : Int64) : Decidable (Bounded offset) :=
  inferInstanceAs (Decidable (_ ∧ _))

/-- The offset is within the bounds behind the call, and what the median says if it is set. -/
def Correct : Prop :=
  Bounded (run (passed ++ [(ip, sample)])).nTimeOffset ∧
    (Updates passed ip sample → ∃ m, IsMedian (window (passed ++ [(ip, sample)])) m ∧
      (run (passed ++ [(ip, sample)])).nTimeOffset = if Bounded m then m else 0)

/-- At most half of the samples are the smallest number where they set the offset. -/
def FewSmallest : Prop :=
  Updates passed ip sample → 2 * (window (passed ++ [(ip, sample)])).count Int64.minValue ≤
    (window (passed ++ [(ip, sample)])).length

theorem heard_snoc : heard (passed ++ [(ip, sample)]) = if ip ∈ (heard passed).1 then heard passed
    else (ip :: (heard passed).1, (heard passed).2 ++ [sample]) := by
  rw [heard, foldl_append]
  rfl

theorem run_snoc : run (passed ++ [(ip, sample)]) = addTimeData (run passed) ip sample := by
  simp [run]

omit [DecidableEq α] in
theorem setOffset_filter (data : TimeData α) : (setOffset data).setKnown = data.setKnown ∧
    (setOffset data).vTimeOffsets = data.vTimeOffsets := by
  unfold setOffset
  dsimp only
  split_ifs <;> exact ⟨rfl, rfl⟩

theorem addTimeData_filter (data : TimeData α) : (addTimeData data ip sample).setKnown =
      (if ip ∈ data.setKnown then data.setKnown else ip :: data.setKnown) ∧
    (addTimeData data ip sample).vTimeOffsets =
      if ip ∈ data.setKnown then data.vTimeOffsets else data.vTimeOffsets.input sample := by
  unfold addTimeData
  dsimp only
  split_ifs
  · exact ⟨rfl, rfl⟩
  · exact setOffset_filter _
  · exact ⟨rfl, rfl⟩

theorem drop_snoc (values : List Int64) (n : Nat) (positive : 0 < n) :
    (if (values.drop (values.length - n)).length = n then
        (values.drop (values.length - n)).tail
      else values.drop (values.length - n)) ++ [sample] =
      (values ++ [sample]).drop ((values ++ [sample]).length - n) := by
  rw [length_append, length_singleton, length_drop]
  split_ifs with full
  · rw [tail_drop, drop_append_of_le_length (by omega)]
    congr 2
    omega
  · rw [Nat.sub_eq_zero_of_le (by omega), Nat.sub_eq_zero_of_le (by omega)]
    rfl

theorem window_snoc : window (passed ++ [(ip, sample)]) =
    if ip ∈ (heard passed).1 then window passed
    else (if (window passed).length = 200 then (window passed).tail else window passed) ++
      [sample] := by
  unfold window
  rw [heard_snoc]
  by_cases old : ip ∈ (heard passed).1
  · rw [if_pos old, if_pos old]
  · rw [if_neg old, if_neg old, drop_snoc sample _ 200 (by decide), cons_append]

/-- The filter holds the window of the calls, sorted beside it. -/
theorem run_filter : (run passed).setKnown = (heard passed).1 ∧ (run passed).vTimeOffsets =
    ⟨window passed, (window passed).insertionSort (· ≤ ·), 200⟩ := by
  induction passed using reverseRecOn with
  | nil => exact ⟨rfl, by simp [run, initial, window, heard]⟩
  | append_singleton passed call ih =>
    obtain ⟨ip, sample⟩ := call
    obtain ⟨known, filter⟩ := addTimeData_filter ip sample (run passed)
    rw [run_snoc, known, filter, ih.1, ih.2, window_snoc, heard_snoc]
    by_cases old : ip ∈ (heard passed).1
    · simp only [if_pos old, and_self]
    · simp only [if_neg old, CMedianFilter.input, and_self]

theorem offset_snoc (m : Int64) (median : m = ((window (passed ++ [(ip, sample)])).insertionSort
      (· ≤ ·)).getD ((window (passed ++ [(ip, sample)])).length / 2) 0) :
    (Updates passed ip sample → (run (passed ++ [(ip, sample)])).nTimeOffset =
        if abs64 m < 70 * 60 then m else 0) ∧
      (¬ Updates passed ip sample →
        (run (passed ++ [(ip, sample)])).nTimeOffset = (run passed).nTimeOffset) := by
  have after := (run_filter (passed ++ [(ip, sample)])).2
  obtain ⟨-, filter⟩ := addTimeData_filter ip sample (run passed)
  rw [run_snoc] at after ⊢
  rw [filter, (run_filter passed).1] at after
  unfold Updates addTimeData
  rw [(run_filter passed).1]
  by_cases old : ip ∈ (heard passed).1
  · simp [old]
  rw [if_neg old] at after ⊢
  simp only [after, old, not_false_eq_true, true_and]
  constructor
  · intro update
    have odd : (window (passed ++ [(ip, sample)])).length % 2 = 1 := by
      simpa [updates] using (Bool.and_eq_true_iff.mp update).2
    rw [if_pos update, setOffset, CMedianFilter.median, length_insertionSort, if_pos odd,
      ← median]
    split_ifs <;> rfl
  · intro update
    rw [if_neg update]

theorem correct_of_few (before : Bounded (run passed).nTimeOffset)
    (few : FewSmallest passed ip sample) : Correct passed ip sample := by
  obtain ⟨update, same⟩ := offset_snoc passed ip sample _ rfl
  by_cases updating : Updates passed ip sample
  · have odd : (window (passed ++ [(ip, sample)])).length % 2 = 1 := by
      simpa [updates] using (Bool.and_eq_true_iff.mp updating.2).2
    have median := median_spec _ odd
    generalize ((window (passed ++ [(ip, sample)])).insertionSort (· ≤ ·)).getD _ 0 = m at *
    have other : ¬ m = Int64.minValue := fun smallest =>
      Nat.not_lt.mpr (few updating) ((median_minValue _ m median odd).mp smallest)
    have value : (run (passed ++ [(ip, sample)])).nTimeOffset = if Bounded m then m else 0 := by
      rw [update updating]
      exact if_congr ((abs64_small m).trans (or_iff_left other)) rfl rfl
    refine ⟨?_, fun _ => ⟨m, median, value⟩⟩
    rw [value]
    split
    · assumption
    · decide
  · exact ⟨(same updating).symm ▸ before, fun updating' => absurd updating' updating⟩

theorem few_of_correct (correct : Correct passed ip sample) : FewSmallest passed ip sample := by
  intro updating
  have odd : (window (passed ++ [(ip, sample)])).length % 2 = 1 := by
    simpa [updates] using (Bool.and_eq_true_iff.mp updating.2).2
  by_contra many
  have smallest := (median_minValue _ _ (median_spec _ odd) odd).mpr (Nat.lt_of_not_le many)
  have offset := (offset_snoc passed ip sample _ rfl).1 updating
  rw [smallest] at offset
  have bounded := correct.1
  rw [offset] at bounded
  revert bounded
  decide

end Calls

/-- The offset is always within its bounds and what the median says exactly if no more than half of
the samples are the smallest number whenever they set it. -/
theorem clock_bounded_iff (calls : List (α × Int64)) :
    (∀ passed ip sample, passed ++ [(ip, sample)] <+: calls → Correct passed ip sample) ↔
      ∀ passed ip sample, passed ++ [(ip, sample)] <+: calls → FewSmallest passed ip sample := by
  constructor
  · exact fun correct passed ip sample isPrefix =>
      few_of_correct passed ip sample (correct passed ip sample isPrefix)
  · intro few
    have bounded (passed : List (α × Int64)) (isPrefix : passed <+: calls) :
        Bounded (run passed).nTimeOffset := by
      induction passed using reverseRecOn with
      | nil => exact ⟨show (-4200 : Int) < 0 by decide, show (0 : Int) < 4200 by decide⟩
      | append_singleton passed call ih =>
        exact (correct_of_few passed call.1 call.2 (ih ((prefix_append ..).trans isPrefix))
          (few passed call.1 call.2 isPrefix)).1
    exact fun passed ip sample isPrefix => correct_of_few passed ip sample
      (bounded passed ((prefix_append ..).trans isPrefix)) (few passed ip sample isPrefix)

/-- Four peers move the clock by `2 ^ 63` seconds. -/
theorem smallest_median : ¬ ∀ (calls passed : List (Nat × Int64)) (ip : Nat) (sample : Int64),
    passed ++ [(ip, sample)] <+: calls → Correct passed ip sample := by
  intro correct
  have bounded := (correct _ [(1, Int64.minValue), (2, Int64.minValue), (3, Int64.minValue)] 4
    Int64.minValue prefix_rfl).1
  revert bounded
  decide +kernel

end ZenonCore.PeerTime
