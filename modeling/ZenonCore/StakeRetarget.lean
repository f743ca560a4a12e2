import ZenonCore.CompactTarget
import ZenonCore.ForkSerials

/-!
# The retargeting of proof of stake

The factor is cut to 32 bits and the product to 256, which a long gap between two blocks is
enough for.
-/

namespace ZenonCore.StakeRetarget

open BaseUint Chain ChainParams CompactTarget
open Primitives ProofOfWork
open ForkSerials (BuiltIn)
open ValueGate (exampleBlock)

def targetLimit : Nat := 2 ^ 232 - 1

def spacing (block : CBlock) (pprev : CBlockIndex) : Nat :=
  if block.getBlockTime < pprev.getBlockTime then 1
  else (block.getBlockTime - pprev.getBlockTime).toNat

/-- A target of zero or above the limit is replaced by the limit. -/
def clamp (target : Nat) : Nat :=
  if target = 0 ∨ targetLimit < target then targetLimit else target

def retarget (target spacing : Nat) : Nat := clamp (target * (2340 + 2 * spacing) / 2460)

def product (target spacing : Nat) : Nat := target * ((2340 + 2 * spacing) % 2 ^ 32) % 2 ^ 256

/-- From this product on the target has the compact form of the limit. -/
def saturation : Nat := 2460 * (0xffff * 2 ^ 216)

/-- What is lost of the product does not matter: nothing is, or the target is the limit's either
way. -/
def LosesNothing (target spacing : Nat) : Prop :=
  product target spacing = target * (2340 + 2 * spacing) ∨
    saturation ≤ product target spacing ∨
      product target spacing < 2460 ∧ saturation ≤ target * (2340 + 2 * spacing)

instance (target spacing : Nat) : Decidable (LosesNothing target spacing) :=
  inferInstanceAs (Decidable (_ ∨ _ ∨ _))

theorem targetLimit_eq : (BitVec.allOnes 256 >>> 24 : Uint256).toNat = targetLimit := by
  decide +kernel

theorem clamp_le (target : Nat) : clamp target ≤ targetLimit := by
  unfold clamp
  split_ifs with outside
  · exact le_rfl
  · omega

theorem clamp_lt (target : Nat) : clamp target < 2 ^ 256 :=
  lt_of_le_of_lt (clamp_le target) (by decide)

theorem nextStakeTarget_toNat (block : CBlock) (pprev : CBlockIndex) :
    (nextStakeTarget block pprev).toNat =
      clamp (product (setCompact block.nBits).toNat (spacing block pprev) / 2460) := by
  have factor : (40 - 1) * 60 + (if block.getBlockTime - pprev.getBlockTime < 0 then 1
      else block.getBlockTime - pprev.getBlockTime) +
      (if block.getBlockTime - pprev.getBlockTime < 0 then 1
      else block.getBlockTime - pprev.getBlockTime) =
      ((2340 + 2 * spacing block pprev : Nat) : Int) := by
    unfold spacing
    split_ifs <;> omega
  have divisor : BitVec.ofInt 256 ((40 + 1) * 60) = (2460 : Uint256) := by decide
  have cut : ((((2340 + 2 * spacing block pprev : Nat) : Int) % 2 ^ 32).toNat) =
      (2340 + 2 * spacing block pprev) % 2 ^ 32 := by omega
  have small : (2340 + 2 * spacing block pprev) % 2 ^ 32 < 2 ^ 32 := Nat.mod_lt _ (by decide)
  have scaled : (mulWord (setCompact block.nBits)
      ((2340 + 2 * spacing block pprev : Nat) : Int) / 2460).toNat =
      product (setCompact block.nBits).toNat (spacing block pprev) / 2460 := by
    rw [mulWord_eq, mulUint32_eq, cut, UInt32.toNat_ofNat_of_lt' small, BitVec.toNat_udiv,
      BitVec.toNat_mul, BitVec.toNat_ofNat, Nat.mod_eq_of_lt (small.trans (by decide))]
    rfl
  unfold nextStakeTarget
  dsimp only
  rw [factor, divisor, apply_ite BitVec.toNat, targetLimit_eq, scaled]
  unfold clamp
  congr 1
  rw [eq_iff_iff, BitVec.lt_def, targetLimit_eq, scaled, ← scaled]
  constructor
  · rintro (zero | above)
    · left
      rw [zero]
      rfl
    · right
      exact above
  · rintro (zero | above)
    · left
      exact BitVec.eq_of_toNat_eq zero
    · right
      exact above

/-- The compact form of the limit is that of the numbers with its first 16
bits. -/
theorem compact_top (n : Uint256) (within : n.toNat ≤ targetLimit) :
    getCompact n = getCompact (BitVec.ofNat 256 targetLimit) ↔ 0xffff * 2 ^ 216 ≤ n.toNat := by
  have top : ∀ m : Uint256, m.toNat ≤ targetLimit → 0xffff * 2 ^ 216 ≤ m.toNat →
      getCompact m = pack 30 0xffff := by
    intro m below above
    have nonzero : m ≠ 0 := by
      intro zero
      rw [zero] at above
      exact absurd above (by decide)
    have upper := lt_two_pow_bits m
    have lower := two_pow_bits_le m nonzero
    have atLeast : 231 < bits m := by
      apply (Nat.pow_lt_pow_iff_right Nat.one_lt_two).mp
      exact lt_of_le_of_lt ((by decide : 2 ^ 231 ≤ 0xffff * 2 ^ 216).trans above) upper
    have atMost : bits m - 1 < 232 := by
      apply (Nat.pow_lt_pow_iff_right Nat.one_lt_two).mp
      exact lt_of_le_of_lt (lower.trans below) (by decide)
    have bytes : (bits m + 7) / 8 = 29 := by omega
    have word : leading m / 256 = 0xffff := by
      unfold leading
      rw [bytes]
      unfold targetLimit at below
      omega
    have sign : 2 ^ 23 ≤ leading m := by omega
    rw [getCompact_cases m nonzero, if_pos sign, bytes, word]
  constructor
  · intro same
    have reread := reread_le n
    rw [same] at reread
    have value : (setCompact (getCompact (BitVec.ofNat 256 targetLimit))).toNat =
        0xffff * 2 ^ 216 := by decide +kernel
    rwa [value] at reread
  · intro above
    rw [top n within above, top (BitVec.ofNat 256 targetLimit) (by decide) (by decide)]

/-- Numbers of which one is at least twice the other have different compact
forms. -/
theorem compact_ne (n m : Uint256) (nonzero : n ≠ 0) (twice : 2 * n.toNat ≤ m.toNat) :
    getCompact n ≠ getCompact m := by
  intro same
  have positive : n.toNat ≠ 0 := fun zero => nonzero (BitVec.eq_of_toNat_eq (by simpa using zero))
  have other : m ≠ 0 := by
    intro zero
    rw [zero] at twice
    have value : (0 : Uint256).toNat = 0 := rfl
    omega
  have upper := lt_twice_reread m other
  have lower := reread_le n
  rw [← same] at upper
  omega

def required (target : Nat) : UInt32 := getCompact (BitVec.ofNat 256 (clamp target))

theorem required_top (target : Nat) :
    required target = getCompact (BitVec.ofNat 256 targetLimit) ↔
      target = 0 ∨ 0xffff * 2 ^ 216 ≤ target := by
  have value : (BitVec.ofNat 256 (clamp target)).toNat = clamp target := by
    rw [BitVec.toNat_ofNat]
    exact Nat.mod_eq_of_lt (clamp_lt target)
  unfold required
  rw [compact_top _ (by rw [value]; exact clamp_le target), value]
  unfold clamp targetLimit
  split_ifs with outside <;> omega

/-- Of two targets that are not both at the limit, one twice the other, the
required ones differ. -/
theorem required_ne (lower upper : Nat) (positive : lower ≠ 0)
    (below : lower < 0xffff * 2 ^ 216) (twice : 2 * lower ≤ upper) :
    required lower ≠ required upper := by
  by_cases top : 0xffff * 2 ^ 216 ≤ upper
  · rw [(required_top upper).mpr (Or.inr top)]
    intro same
    obtain zero | above := (required_top lower).mp same
    · exact positive zero
    · omega
  · have lowerClamp : clamp lower = lower := by
      unfold clamp targetLimit
      rw [if_neg (by omega)]
    have upperClamp : clamp upper = upper := by
      unfold clamp targetLimit
      rw [if_neg (by omega)]
    unfold required
    rw [lowerClamp, upperClamp]
    have lowerValue : (BitVec.ofNat 256 lower).toNat = lower := by
      rw [BitVec.toNat_ofNat]
      omega
    have upperValue : (BitVec.ofNat 256 upper).toNat = upper := by
      rw [BitVec.toNat_ofNat]
      omega
    apply compact_ne
    · intro zero
      rw [zero] at lowerValue
      exact positive lowerValue.symm
    · rw [lowerValue, upperValue]
      exact twice

theorem product_le (target spacing : Nat) :
    product target spacing ≤ target * (2340 + 2 * spacing) := by
  unfold product
  exact (Nat.mod_le _ _).trans (Nat.mul_le_mul_left _ (Nat.mod_le _ _))

theorem product_lt (target spacing : Nat) : product target spacing < 2 ^ 256 :=
  Nat.mod_lt _ (by decide)

/-- A product that loses something and still fits in 256 bits has lost a factor
of two at least. -/
theorem product_half (target spacing : Nat)
    (lost : product target spacing ≠ target * (2340 + 2 * spacing))
    (fits : target * (2340 + 2 * spacing) < 2 ^ 256) :
    2 * product target spacing ≤ target * (2340 + 2 * spacing) ∧
      2460 ≤ target * (2340 + 2 * spacing) := by
  have cutFits : target * ((2340 + 2 * spacing) % 2 ^ 32) < 2 ^ 256 :=
    lt_of_le_of_lt (Nat.mul_le_mul_left _ (Nat.mod_le _ _)) fits
  have same : product target spacing = target * ((2340 + 2 * spacing) % 2 ^ 32) :=
    Nat.mod_eq_of_lt cutFits
  have long : 2 ^ 32 ≤ 2340 + 2 * spacing := by
    by_contra short
    rw [same, Nat.mod_eq_of_lt (Nat.lt_of_not_le short)] at lost
    exact lost rfl
  have least : 1 ≤ target := by
    obtain zero | positive := Nat.eq_zero_or_pos target
    · rw [same, zero, Nat.zero_mul, Nat.zero_mul] at lost
      exact absurd rfl lost
    · exact positive
  constructor
  · rw [same, ← Nat.mul_assoc, Nat.mul_comm 2 target, Nat.mul_assoc]
    exact Nat.mul_le_mul_left _ (by omega)
  · calc 2460 ≤ 1 * (2340 + 2 * spacing) := by omega
      _ ≤ target * (2340 + 2 * spacing) := Nat.mul_le_mul_right _ least

/-- The target from the product as it is taken is the exact one if and only if
what is lost does not matter. -/
theorem required_product_iff (target spacing : Nat) :
    required (product target spacing / 2460) =
        getCompact (BitVec.ofNat 256 (retarget target spacing)) ↔
      LosesNothing target spacing := by
  have exactly : getCompact (BitVec.ofNat 256 (retarget target spacing)) =
      required (target * (2340 + 2 * spacing) / 2460) := rfl
  rw [exactly]
  have less := product_le target spacing
  have fits := product_lt target spacing
  unfold LosesNothing saturation
  by_cases equal : product target spacing = target * (2340 + 2 * spacing)
  · rw [equal]
    exact ⟨fun _ => Or.inl rfl, fun _ => rfl⟩
  · -- something is lost: the exact target is at the limit, or twice the other one
    have apart : 0xffff * 2 ^ 216 ≤ target * (2340 + 2 * spacing) / 2460 ∨
        2 * product target spacing ≤ target * (2340 + 2 * spacing) ∧
          2460 ≤ target * (2340 + 2 * spacing) := by
      by_cases wide : target * (2340 + 2 * spacing) < 2 ^ 256
      · exact Or.inr (product_half target spacing equal wide)
      · left
        rw [Nat.le_div_iff_mul_le (by decide)]
        exact (by decide : 0xffff * 2 ^ 216 * 2460 ≤ 2 ^ 256).trans (Nat.le_of_not_lt wide)
    generalize product target spacing = taken at less fits equal apart ⊢
    generalize target * (2340 + 2 * spacing) = whole at less equal apart ⊢
    by_cases top : required (taken / 2460) = getCompact (BitVec.ofNat 256 targetLimit)
    · have ends := (required_top (taken / 2460)).mp top
      rw [top, eq_comm, required_top]
      omega
    · have between : ¬ (taken / 2460 = 0 ∨ 0xffff * 2 ^ 216 ≤ taken / 2460) :=
        fun ends => top ((required_top _).mpr ends)
      have different : required (taken / 2460) ≠ required (whole / 2460) := by
        obtain limit | twice := apart
        · rw [(required_top (whole / 2460)).mpr (Or.inr limit)]
          exact top
        · apply required_ne
          · omega
          · omega
          · omega
      constructor
      · intro same
        exact absurd same different
      · intro harmless
        omega

theorem le_retarget (target spacing : Nat) (limited : target ≤ targetLimit)
    (late : 60 ≤ spacing) : target ≤ retarget target spacing := by
  have grows : target ≤ target * (2340 + 2 * spacing) / 2460 := by
    rw [Nat.le_div_iff_mul_le (by decide)]
    exact Nat.mul_le_mul_left _ (by omega)
  unfold retarget clamp
  split_ifs with outside
  · exact limited
  · exact grows

section Required

variable (params : CChainParams)

theorem builtIn_nLastPOWBlock (builtIn : BuiltIn params) : params.nLastPOWBlock = 321 := by
  obtain main | ⟨hash, testnet | regtest⟩ := builtIn
  · rw [main]
    rfl
  · rw [testnet]
    rfl
  · rw [regtest]
    rfl

theorem getNextWorkRequired_stake (block : CBlock) (pprev : CBlockIndex)
    (builtIn : BuiltIn params)
    (above : params.nLastPOWBlock < CBlockIndex.nHeight (block :: pprev)) :
    getNextWorkRequired params (block :: pprev) =
      if params.networkID = .regtest then block.nBits
      else required (product (setCompact block.nBits).toNat (spacing block pprev) / 2460) := by
  have high : ¬ CBlockIndex.nHeight (block :: pprev) < 24 := by
    rw [builtIn_nLastPOWBlock params builtIn] at above
    omega
  unfold getNextWorkRequired
  dsimp only
  rw [if_neg high, if_pos above]
  unfold required
  rw [← nextStakeTarget_toNat, BitVec.ofNat_toNat, BitVec.setWidth_eq]

/-- What the tip's target becomes: the exact one, and none below its own after
a block that came late. -/
structure RetargetsExactly (block : CBlock) (pprev : CBlockIndex) : Prop where
  exactly : getNextWorkRequired params (block :: pprev) =
    getCompact (BitVec.ofNat 256
      (retarget (setCompact block.nBits).toNat (spacing block pprev)))
  neverDrops : 60 ≤ spacing block pprev →
    setCompact block.nBits ≤ setCompact (getNextWorkRequired params (block :: pprev))

/-- On the main network and the test network the retargeting is exact if and only if what the
product loses does not matter; on the regression test network if and only if the exact target is the
tip's own. -/
theorem retargets_exactly_iff (builtIn : BuiltIn params) (block : CBlock) (pprev : CBlockIndex)
    (above : params.nLastPOWBlock < CBlockIndex.nHeight (block :: pprev))
    (limited : (setCompact block.nBits).toNat ≤ targetLimit) :
    RetargetsExactly params block pprev ↔
      if params.networkID = .regtest then
        block.nBits = getCompact (BitVec.ofNat 256
          (retarget (setCompact block.nBits).toNat (spacing block pprev)))
      else LosesNothing (setCompact block.nBits).toNat (spacing block pprev) := by
  have exactIff : getNextWorkRequired params (block :: pprev) = getCompact (BitVec.ofNat 256
      (retarget (setCompact block.nBits).toNat (spacing block pprev))) ↔
      if params.networkID = .regtest then
        block.nBits = getCompact (BitVec.ofNat 256
          (retarget (setCompact block.nBits).toNat (spacing block pprev)))
      else LosesNothing (setCompact block.nBits).toNat (spacing block pprev) := by
    rw [getNextWorkRequired_stake params block pprev builtIn above]
    split_ifs with regtest
    · exact Iff.rfl
    · exact required_product_iff _ _
  rw [← exactIff]
  constructor
  · intro exact
    exact exact.exactly
  · intro same
    refine ⟨same, ?_⟩
    intro late
    rw [same]
    apply le_reread
    rw [BitVec.toNat_ofNat, Nat.mod_eq_of_lt (show retarget _ _ < 2 ^ 256 from clamp_lt _)]
    exact le_retarget _ _ limited late

end Required

def easyBlock (nTime : UInt32) : CBlock :=
  { exampleBlock 1 2 nTime [] with nBits := 0x1e00ffff }

def easyChain : CBlockIndex := List.replicate 322 (easyBlock 1600000000)

theorem easyChain_above (nTime : UInt32) :
    mainParams.nLastPOWBlock < CBlockIndex.nHeight (easyBlock nTime :: easyChain) := by
  unfold CBlockIndex.nHeight easyChain
  rw [List.length_cons, List.length_replicate]
  decide

/-- A minute behind its parent the tip's target is kept, and retargeting is
exact. -/
theorem retargets_exactly_after_a_minute :
    RetargetsExactly mainParams (easyBlock 1600000060) easyChain :=
  (retargets_exactly_iff mainParams (Or.inl rfl) (easyBlock 1600000060) easyChain
    (easyChain_above _) (by decide +kernel)).mpr (by decide +kernel)

/-- Half a year between a tip and its parent makes the target drop by a quarter: the product is cut
to 256 bits. -/
theorem retarget_drops_after_half_a_year :
    ¬ ∀ (params : CChainParams) (block : CBlock) (pprev : CBlockIndex), BuiltIn params →
      params.nLastPOWBlock < CBlockIndex.nHeight (block :: pprev) →
      (setCompact block.nBits).toNat ≤ targetLimit → RetargetsExactly params block pprev := by
  intro always
  have exact := always mainParams (easyBlock 1616777216) easyChain (Or.inl rfl)
    (easyChain_above _) (by decide +kernel)
  have kept := exact.neverDrops (by decide +kernel)
  rw [getNextWorkRequired_stake mainParams _ _ (Or.inl rfl) (easyChain_above _)] at kept
  exact absurd kept (by decide +kernel)

end ZenonCore.StakeRetarget
