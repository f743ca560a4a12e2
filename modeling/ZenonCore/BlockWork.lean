import ZenonCore.CompactCodec

/-!
# The work of a block

`GetBlockProof`, the quotient of a number of 257 bits through the complement of the target.
-/

namespace ZenonCore.BlockWork

open Primitives CompactCodec BaseUintOperators

/-- `(~bnTarget / (bnTarget + 1)) + 1`; nothing if the division throws. -/
def targetProof (bnTarget : Uint256) : Option Uint256 := do
  let quotient ← divide (complement bnTarget) (add bnTarget (assign 1))
  pure (add quotient (assign 1))

def getBlockProof (nBits : UInt32) : Option Uint256 :=
  let bnTarget := setCompact nBits
  if bnTarget.negative || bnTarget.overflow || equalTo bnTarget.value 0 then some 0
  else targetProof bnTarget.value

def addChainWork (pprev : Option Uint256) (nBits : UInt32) : Option Uint256 := do
  let proof ← getBlockProof nBits
  pure (add (pprev.getD 0) proof)

def Accepted (nBits : UInt32) : Prop :=
  (setCompact nBits).negative = false ∧ (setCompact nBits).overflow = false ∧
    (setCompact nBits).value ≠ 0

instance (nBits : UInt32) : Decidable (Accepted nBits) := inferInstanceAs (Decidable (_ ∧ _ ∧ _))

theorem add_one_toNat (n : Uint256) : (add n (assign 1)).toNat = (n.toNat + 1) % 2 ^ 256 := by
  rw [add_eq, BitVec.toNat_add, assign_toNat]
  rfl

theorem divide_toNat (a b : Uint256) (positive : 0 < b.toNat) :
    ∃ quotient, divide a b = some quotient ∧ quotient.toNat = a.toNat / b.toNat := by
  have nonzero : b ≠ 0 := by
    rintro rfl
    exact absurd positive (by decide)
  exact ⟨_, divide_eq a b nonzero, BitVec.toNat_udiv ..⟩

theorem complement_quotient (limit t : Nat) (below : t < limit) :
    (limit - 1 - t) / (t + 1) + 1 = limit / (t + 1) := by
  have split : limit - 1 - t + (t + 1) = limit := by omega
  rw [← Nat.add_div_right _ (Nat.succ_pos t), split]

theorem targetProof_eq (t : Uint256) (nonzero : t ≠ 0) (below : t.toNat < 2 ^ 256 - 1) :
    ∃ work, targetProof t = some work ∧ work.toNat = 2 ^ 256 / (t.toNat + 1) := by
  have positive : 0 < t.toNat := Nat.pos_of_ne_zero fun none =>
    nonzero (BitVec.eq_of_toNat_eq (by simpa using none))
  have next : (add t (assign 1)).toNat = t.toNat + 1 := by
    rw [add_one_toNat]
    exact Nat.mod_eq_of_lt (by omega)
  obtain ⟨quotient, divided, value⟩ := divide_toNat (complement t) (add t (assign 1)) (by omega)
  rw [next, complement_toNat] at value
  have whole := complement_quotient (2 ^ 256) t.toNat t.isLt
  rw [← value] at whole
  have half : 2 ^ 256 / (t.toNat + 1) ≤ 2 ^ 256 / 2 := Nat.div_le_div_left (by omega) (by decide)
  have room : quotient.toNat + 1 < 2 ^ 256 := by
    rw [whole]
    exact lt_of_le_of_lt half (by decide)
  refine ⟨add quotient (assign 1), ?_, ?_⟩
  · rw [targetProof, divided]
    rfl
  · rw [add_one_toNat, Nat.mod_eq_of_lt room, whole]

theorem target_lt (nBits : UInt32) : (setCompact nBits).value.toNat < 2 ^ 256 - 1 := by
  have below := (setCompact nBits).value.isLt
  obtain ⟨bytes, multiple, small⟩ := CompactTarget.setCompact_coarse nBits
  rw [← setCompact_value_eq] at multiple small
  by_contra most
  have largest : (setCompact nBits).value.toNat = 2 ^ 256 - 1 := by omega
  rw [largest] at multiple small
  cases bytes with
  | zero => omega
  | succ bytes =>
    have even : 2 ∣ 256 ^ (bytes + 1) := Dvd.dvd.trans (by decide) (dvd_pow_self 256 (by omega))
    have two := even.trans multiple
    omega

theorem getBlockProof_eq (nBits : UInt32) (accepted : Accepted nBits) :
    ∃ work, getBlockProof nBits = some work ∧
      work.toNat = 2 ^ 256 / ((setCompact nBits).value.toNat + 1) := by
  obtain ⟨positive, fits, nonzero⟩ := accepted
  have other : equalTo (setCompact nBits).value 0 = false := by
    rw [← Bool.not_eq_true, equalTo_iff]
    exact fun none => nonzero (BitVec.eq_of_toNat_eq none)
  obtain ⟨work, done, value⟩ := targetProof_eq _ nonzero (target_lt nBits)
  refine ⟨work, ?_, value⟩
  rw [getBlockProof]
  simp only [positive, fits, other, Bool.or_false, Bool.false_eq_true, if_false]
  exact done

theorem proof_positive (nBits : UInt32) :
    1 ≤ 2 ^ 256 / ((setCompact nBits).value.toNat + 1) := by
  have below := (setCompact nBits).value.isLt
  exact (Nat.one_le_div_iff (by omega)).mpr (by omega)

/-- The division is exact; the work of a target is at least one, never less for a smaller target,
and added to that of the chain. -/
theorem block_work_exact :
    (∀ a b : Uint256, 0 < b.toNat → ∃ quotient, divide a b = some quotient ∧
      quotient.toNat = a.toNat / b.toNat) ∧
    (∀ t : Uint256, t ≠ 0 → t.toNat < 2 ^ 256 - 1 → ∃ work, targetProof t = some work ∧
      work.toNat = 2 ^ 256 / (t.toNat + 1)) ∧
    (∀ nBits, Accepted nBits → ∃ work, getBlockProof nBits = some work ∧
      work.toNat = 2 ^ 256 / ((setCompact nBits).value.toNat + 1) ∧ 1 ≤ work.toNat) ∧
    (∀ smaller larger, Accepted smaller → Accepted larger →
      (setCompact smaller).value ≤ (setCompact larger).value →
        ∃ more less, getBlockProof smaller = some more ∧ getBlockProof larger = some less ∧
          less ≤ more) ∧
    ∀ (pprev : Option Uint256) (nBits : UInt32), Accepted nBits →
      ∃ work, addChainWork pprev nBits = some work ∧
        (work - pprev.getD 0).toNat = 2 ^ 256 / ((setCompact nBits).value.toNat + 1) ∧
          1 ≤ (work - pprev.getD 0).toNat := by
  refine ⟨divide_toNat, targetProof_eq, ?_, ?_, ?_⟩
  · intro nBits accepted
    obtain ⟨work, done, value⟩ := getBlockProof_eq nBits accepted
    exact ⟨work, done, value, by rw [value]; exact proof_positive nBits⟩
  · intro smaller larger firstAccepted secondAccepted ordered
    obtain ⟨more, first, firstValue⟩ := getBlockProof_eq smaller firstAccepted
    obtain ⟨less, second, secondValue⟩ := getBlockProof_eq larger secondAccepted
    refine ⟨more, less, first, second, ?_⟩
    rw [BitVec.le_def, firstValue, secondValue]
    exact Nat.div_le_div_left (Nat.succ_le_succ (BitVec.le_def.mp ordered)) (Nat.succ_pos _)
  · intro pprev nBits accepted
    obtain ⟨proof, done, value⟩ := getBlockProof_eq nBits accepted
    have added : pprev.getD 0 + proof - pprev.getD 0 = proof := by
      rw [BitVec.add_comm, BitVec.add_sub_cancel]
    refine ⟨pprev.getD 0 + proof, ?_, ?_, ?_⟩
    · rw [addChainWork, done, ← add_eq]
      rfl
    · rw [added, value]
    · rw [added, value]
      exact proof_positive nBits

theorem work_of_highest_target : ∃ work, getBlockProof 0x1d00ffff = some work ∧
    work.toNat = 2 ^ 256 / ((setCompact 0x1d00ffff).value.toNat + 1) ∧ 1 ≤ work.toNat :=
  block_work_exact.2.2.1 0x1d00ffff (by decide +kernel)

end ZenonCore.BlockWork
