import ZenonCore.Library.Runs
import ZenonCore.Pillars
import ZenonCore.ValueGate

/-!
# The register and the active chain

Nothing is undone when another chain becomes active, so the register follows the chain only
where blocks that touch collaterals extend it and stay.
-/

namespace ZenonCore.PillarChain

open Primitives Chain Masternode ValueGate List
open Pillars Library.SpendLog Library.Runs

/-- The block creates no collateral and spends none of these. -/
def TouchesNone (pillars : COutPoint → Prop) (block : CBlock) : Prop :=
  ∀ tx ∈ block.vtx, pillarOutPoints tx = [] ∧ ∀ txin ∈ tx.vin, ¬ pillars txin.prevout

/-- A chain that has grown from another one by blocks that touch no
collateral. -/
inductive QuietAbove (common : CBlockIndex) : CBlockIndex → Prop
  | refl : QuietAbove common common
  | block (block : CBlock) (pprev : CBlockIndex) (below : QuietAbove common pprev)
      (quiet : pliStart ≤ CBlockIndex.nHeight (block :: pprev) →
        TouchesNone (· ∈ unspentPillars common) block) :
      QuietAbove common (block :: pprev)

/-- The blocks that leave the active chain and those that enter it touch no
collateral. -/
def SwitchesQuietly (chain chainActive : CBlockIndex) : Prop :=
  ∃ common, QuietAbove common chain ∧ QuietAbove common chainActive

/-- The block creates each collateral once, and none in the register, as it overwrites no outputs.
-/
def CreatesOnce (register : PillarRegister) (block : CBlock) : Prop :=
  (block.vtx.flatMap pillarOutPoints).Nodup ∧
    ∀ outpoint ∈ block.vtx.flatMap pillarOutPoints, register.isPillar outpoint = false

/-- The block extends the active chain, or neither it nor those that leave touch a collateral. -/
def KeepsPace (state : PillarState) : Event → Prop
  | .acceptBlock block pprev chainActive =>
    (pprev = state.chainActive ∧ chainActive = block :: pprev ∧
      CreatesOnce state.register block) ∨
    ((pliStart ≤ CBlockIndex.nHeight (block :: pprev) →
      TouchesNone (fun outpoint => state.register.isPillar outpoint = true) block) ∧
      SwitchesQuietly state.chainActive chainActive)
  | .activateChain chainActive => SwitchesQuietly state.chainActive chainActive

section Chains

variable (chain : CBlockIndex)

theorem entriesOf_height :
    ∀ entry ∈ entriesOf chain, entry.1 ≤ CBlockIndex.nHeight chain := by
  induction chain with
  | nil =>
    intro entry member
    cases member
  | cons block pprev ih =>
    intro entry member
    rw [CBlockIndex.nHeight_cons]
    obtain old | new := mem_append.mp member
    · have below := ih entry old
      omega
    · split at new
      · obtain ⟨tx, _, same⟩ := mem_map.mp new
        rw [← same, CBlockIndex.nHeight_cons]
      · cases new

theorem entriesOf_below (below : CBlockIndex.nHeight chain < pliStart) :
    entriesOf chain = [] := by
  induction chain with
  | nil => rfl
  | cons block pprev ih =>
    rw [CBlockIndex.nHeight_cons] at below
    unfold entriesOf
    rw [ih (by omega), CBlockIndex.nHeight_cons, if_neg (by omega)]
    rfl

theorem stagePillars_until (inStage : CBlockIndex.nHeight chain ≤ pliEnd) :
    stagePillars chain = unspentPillars chain := by
  have all : (entriesOf chain).filter (fun entry => decide (entry.1 ≤ pliEnd)) =
      entriesOf chain := by
    apply filter_eq_self.mpr
    intro entry member
    have height := entriesOf_height chain entry member
    simp only [decide_eq_true_eq]
    omega
  unfold stagePillars unspentPillars
  rw [all]

theorem stagePillars_after (block : CBlock) (pprev : CBlockIndex)
    (late : pliEnd < CBlockIndex.nHeight (block :: pprev)) :
    stagePillars (block :: pprev) = stagePillars pprev := by
  have none : ((block.vtx.map fun tx => (CBlockIndex.nHeight (block :: pprev), tx)).filter
      fun entry => decide (entry.1 ≤ pliEnd)) = [] := by
    apply filter_eq_nil_iff.mpr
    intro entry member
    obtain ⟨tx, _, same⟩ := mem_map.mp member
    rw [← same]
    simpa using late
  unfold stagePillars
  rw [entriesOf]
  split
  · rw [filter_append, none, append_nil]
  · rw [append_nil]

theorem quietAbove_same (common chain : CBlockIndex) (quiet : QuietAbove common chain) :
    unspentPillars chain = unspentPillars common ∧ stagePillars chain = stagePillars common := by
  induction quiet with
  | refl => exact ⟨rfl, rfl⟩
  | block block pprev below quietBlock ih =>
    have kept : unspentPillars (block :: pprev) = unspentPillars pprev := by
      ext outpoint
      unfold unspentPillars
      rw [Set.mem_ofPred_eq, Set.mem_ofPred_eq, entriesOf]
      apply live_append_quiet
      intro entry member
      split at member
      · rename_i counted
        obtain ⟨tx, inBlock, same⟩ := mem_map.mp member
        obtain ⟨nothing, unspent⟩ := quietBlock counted tx inBlock
        rw [← same]
        constructor
        · intro other created
          unfold Creates at created
          rw [nothing] at created
          cases created
        · intro other live spent
          obtain ⟨txin, input, prevout⟩ := spent
          apply unspent txin input
          rw [← ih.1, prevout]
          exact live
      · cases member
    refine ⟨kept.trans ih.1, ?_⟩
    by_cases inStage : CBlockIndex.nHeight (block :: pprev) ≤ pliEnd
    · have before : CBlockIndex.nHeight pprev ≤ pliEnd := by
        rw [CBlockIndex.nHeight_cons] at inStage
        omega
      rw [stagePillars_until _ inStage, kept, ← stagePillars_until _ before]
      exact ih.2
    · rw [stagePillars_after block pprev (by omega)]
      exact ih.2

variable (register : PillarRegister)

theorem follows_switch (chain chainActive : CBlockIndex)
    (follows : Follows register chain) (quiet : SwitchesQuietly chain chainActive) :
    Follows register chainActive := by
  obtain ⟨common, old, new⟩ := quiet
  obtain ⟨oldPillars, oldStage⟩ := quietAbove_same common chain old
  obtain ⟨newPillars, newStage⟩ := quietAbove_same common chainActive new
  have pillars : unspentPillars chain = unspentPillars chainActive := oldPillars.trans newPillars.symm
  have stage : stagePillars chain = stagePillars chainActive := oldStage.trans newStage.symm
  constructor
  · intro outpoint
    rw [← pillars]
    exact follows.mapped outpoint
  · intro outpoint
    rw [← pillars]
    exact follows.listed outpoint
  · exact follows.once
  · unfold pillarsAllowed
    rw [← stage]
    exact follows.allowed

/-- The collaterals of a list without repetitions are as many as its
entries. -/
theorem ncard_of_listed (list : List COutPoint) (pillars : Set COutPoint)
    (listed : ∀ outpoint, outpoint ∈ list ↔ outpoint ∈ pillars) (once : list.Nodup) :
    pillars.ncard = list.length := by
  have same : pillars = ↑list.toFinset := by
    ext outpoint
    rw [coe_toFinset, Set.mem_ofPred_eq]
    exact (listed outpoint).symm
  rw [same, Set.ncard_coe_finset, toFinset_card_of_nodup once]

theorem registerBlock_follows (block : CBlock) (pprev : CBlockIndex)
    (follows : Follows register pprev) (created : CreatesOnce register block) :
    Follows (registerBlock register block pprev) (block :: pprev) := by
  by_cases counted : pliStart ≤ CBlockIndex.nHeight (block :: pprev)
  · have before : Registers (CBlockIndex.nHeight (block :: pprev)) register.maxPillarsAllowed
        register (Live Creates Spends (entriesOf pprev)) :=
      { mapped := follows.mapped
        listed := follows.listed
        once := follows.once
        counted := by
          split
          · rename_i inStage
            have number := ncard_of_listed _ (unspentPillars pprev) follows.listed follows.once
            rw [CBlockIndex.nHeight_cons] at inStage
            rw [follows.allowed, pillarsAllowed, stagePillars_until pprev (by omega), number,
              length_map]
          · rfl }
    have new : ∀ outpoint ∈ block.vtx.flatMap pillarOutPoints,
        ¬ Live Creates Spends (entriesOf pprev) outpoint := by
      intro outpoint member live
      have absent := created.2 outpoint member
      rw [(follows.mapped outpoint).mpr live] at absent
      cases absent
    have after := registerTransactions_registers _ _ block.vtx 0 register _ before created.1 new
    have entries : entriesOf (block :: pprev) = entriesOf pprev ++
        block.vtx.map fun tx => (CBlockIndex.nHeight (block :: pprev), tx) := by
      rw [entriesOf, if_pos counted]
    rw [← entries] at after
    unfold registerBlock
    dsimp only
    rw [if_pos counted]
    constructor
    · exact after.mapped
    · exact after.listed
    · exact after.once
    · refine after.counted.trans ?_
      unfold pillarsAllowed
      split
      · rename_i inStage
        have number := ncard_of_listed _ (unspentPillars (block :: pprev)) after.listed after.once
        rw [stagePillars_until _ inStage, number, length_map]
      · rw [stagePillars_after block pprev (by omega)]
        exact follows.allowed
  · have quiet : QuietAbove pprev (block :: pprev) :=
      .block block pprev .refl fun start => absurd start counted
    unfold registerBlock
    rw [if_neg counted]
    exact follows_switch register pprev _ follows ⟨pprev, .refl, quiet⟩

theorem registerBlock_quiet (block : CBlock)
    (pprev chain : CBlockIndex) (follows : Follows register chain)
    (quiet : pliStart ≤ CBlockIndex.nHeight (block :: pprev) →
      TouchesNone (fun outpoint => register.isPillar outpoint = true) block) :
    Follows (registerBlock register block pprev) chain := by
  unfold registerBlock
  dsimp only
  split
  · rename_i counted
    have touches := quiet counted
    have unchanged : ∀ (vtx : List CTransaction) (i : Nat), (∀ tx ∈ vtx, tx ∈ block.vtx) →
        (vtx.zipIdx i).foldl (registerTransaction (CBlockIndex.nHeight (block :: pprev)))
          register = register := by
      intro vtx
      induction vtx with
      | nil => exact fun _ _ => rfl
      | cons tx rest ih =>
        intro i members
        obtain ⟨nothing, unspent⟩ := touches tx (members tx mem_cons_self)
        have inputs : ∀ vin : List CTxIn, (∀ txin ∈ vin, txin ∈ tx.vin) →
            vin.foldl (releaseInput (CBlockIndex.nHeight (block :: pprev))) register =
              register := by
          intro vin
          induction vin with
          | nil => exact fun _ => rfl
          | cons txin inputs inner =>
            intro inTx
            rw [foldl_cons, releaseInput,
              if_neg (unspent txin (inTx txin mem_cons_self))]
            exact inner fun other member => inTx other (mem_cons_of_mem _ member)
        have one : registerTransaction (CBlockIndex.nHeight (block :: pprev)) register (tx, i) =
            register := by
          unfold registerTransaction
          rw [nothing]
          exact inputs tx.vin fun _ member => member
        rw [zipIdx_cons, foldl_cons, one]
        exact ih (i + 1) fun other member => members other (mem_cons_of_mem _ member)
    rw [unchanged block.vtx 0 fun _ member => member]
    exact
      { mapped := follows.mapped
        listed := follows.listed
        once := follows.once
        allowed := follows.allowed }
  · exact follows

end Chains

theorem step_follows (state next : PillarState) (event : Event)
    (follows : Follows state.register state.chainActive) (pace : KeepsPace state event)
    (taken : step state event = some next) : Follows next.register next.chainActive := by
  cases event with
  | acceptBlock block pprev chainActive =>
    simp only [step] at taken
    split at taken
    · cases taken
      obtain ⟨atTip, becomesTip, created⟩ | ⟨quiet, switch⟩ := pace
      · rw [atTip, becomesTip]
        rw [← atTip] at follows ⊢
        exact registerBlock_follows state.register block pprev follows created
      · have kept := registerBlock_quiet state.register block pprev state.chainActive follows
          quiet
        exact follows_switch _ state.chainActive _ kept switch
    · cases taken
  | activateChain chainActive =>
    simp only [step] at taken
    split at taken
    · cases taken
      exact follows_switch _ state.chainActive _ follows pace
    · cases taken

theorem start_follows (chain : CBlockIndex) (below : CBlockIndex.nHeight chain < pliStart) :
    Follows (PillarState.start chain).register chain := by
  have none : ∀ outpoint, outpoint ∉ unspentPillars chain := by
    intro outpoint
    unfold unspentPillars
    rw [entriesOf_below chain below]
    exact not_live_nil Creates Spends outpoint
  constructor
  · intro outpoint
    constructor
    · intro present
      cases present
    · intro live
      exact absurd live (none outpoint)
  · intro outpoint
    constructor
    · intro present
      cases present
    · intro live
      exact absurd live (none outpoint)
  · exact nodup_nil
  · have early : CBlockIndex.nHeight chain ≤ pliEnd := by
      unfold pliStart at below
      unfold pliEnd
      omega
    have empty : unspentPillars chain = ∅ := Set.eq_empty_of_forall_notMem none
    unfold pillarsAllowed
    rw [stagePillars_until chain early, empty, Set.ncard_empty]
    rfl

/-- In every run of accepted blocks and switches whose steps all meet the
condition, the register is that of the active chain. -/
theorem pillars_follow_chain (chain : CBlockIndex) (events : List Event) (last : PillarState)
    (below : CBlockIndex.nHeight chain < pliStart)
    (pace : AllSteps step KeepsPace (.start chain) events)
    (reached : run step (.start chain) events = some last) :
    Follows last.register last.chainActive := by
  exact invariant_of_guarded_run step KeepsPace
    (fun state => Follows state.register state.chainActive)
    (fun state event next follows condition taken =>
      step_follows state next event follows condition taken)
    (.start chain) last events (start_follows chain below) pace reached

def coinbaseChain : Nat → CBlockIndex
  | 0 => [genesisBlock]
  | height + 1 =>
    exampleBlock (BitVec.ofNat 256 (2 * height + 1))
        (CBlockIndex.getBlockHash (coinbaseChain height)) (1600000000 + UInt32.ofNat height)
        [coinbaseTx (BitVec.ofNat 256 (2 * height + 2))] ::
      coinbaseChain height

theorem coinbaseChain_height (height : Nat) :
    CBlockIndex.nHeight (coinbaseChain height) = height := by
  induction height with
  | zero => rfl
  | succ height ih =>
    unfold coinbaseChain
    rw [CBlockIndex.nHeight_cons, ih]
    rfl

def pillarTx : CTransaction where
  hash := 41
  nVersion := 1
  vin := [{ prevout := { hash := 40, n := 0 }, scriptSig := [], nSequence := 0xffffffff }]
  vout := [{ nValue := pillarAmount, scriptPubKey := [1] }]
  nLockTime := 0

/-- Two blocks that can follow, one of them with the payment. -/
def plainBlock : CBlock := exampleBlock 1000001 0 1700000000 [coinbaseTx 1000002]

def pillarBlock : CBlock := exampleBlock 1000003 0 1700000000 [coinbaseTx 1000004, pillarTx]

section Examples

variable (chain : CBlockIndex)

theorem own_block : chain ∈ chain.tails := (mem_tails chain chain).mpr (suffix_refl _)

theorem fresh_block (block : CBlock) : block :: chain ∉ chain.tails := by
  intro member
  have shorter := ((mem_tails _ _).mp member).length_le
  rw [length_cons] at shorter
  omega

theorem plain_step : step (.start chain) (.acceptBlock plainBlock chain (plainBlock :: chain)) =
    some
      { register := registerBlock .empty plainBlock chain
        accepted := (plainBlock :: chain) :: chain.tails
        chainActive := plainBlock :: chain } :=
  if_pos ⟨own_block chain, fresh_block chain plainBlock, mem_cons_self⟩

theorem plainBlock_quiet (pillars : COutPoint → Prop) (none : ¬ pillars .null) :
    TouchesNone pillars plainBlock := by
  intro tx inBlock
  rw [mem_singleton.mp inBlock]
  refine ⟨by decide, ?_⟩
  intro txin input
  rw [mem_singleton.mp input]
  exact none

theorem registerBlock_at (register : PillarRegister) (block : CBlock)
    (height : CBlockIndex.nHeight chain = 365759) :
    registerBlock register block chain =
      (block.vtx.zipIdx.foldl (registerTransaction 365760) register).updateLastScannedBlock
        365760 := by
  unfold registerBlock
  rw [CBlockIndex.nHeight_cons, height]
  rfl

/-- The block with the payment is accepted on a fork, behind the parent of the
tip. -/
def forkEvents : List Event :=
  [.acceptBlock plainBlock chain (plainBlock :: chain),
    .acceptBlock pillarBlock chain (plainBlock :: chain)]

theorem forkEvents_run : run step (.start chain) (forkEvents chain) = some
    { register := registerBlock (registerBlock .empty plainBlock chain) pillarBlock chain
      accepted := (pillarBlock :: chain) :: (plainBlock :: chain) :: chain.tails
      chainActive := plainBlock :: chain } := by
  have other : pillarBlock :: chain ∉ (plainBlock :: chain) :: chain.tails := by
    intro member
    obtain same | old := mem_cons.mp member
    · exact absurd (cons.inj same).1 (by decide)
    · exact fresh_block chain pillarBlock old
  apply (run_cons_some step _ _ _ _).mpr
  refine ⟨_, plain_step chain, ?_⟩
  apply (run_cons_some step _ _ _ _).mpr
  refine ⟨_, if_pos ⟨mem_cons_of_mem _ (own_block chain), other, ?_⟩, rfl⟩
  exact mem_cons_of_mem _ mem_cons_self

end Examples

/-- The collateral of the fork is registered, which the active chain does not
have. -/
theorem fork_registers_pillar :
    ¬ ∀ (chain : CBlockIndex) (events : List Event) (last : PillarState),
      CBlockIndex.nHeight chain < pliStart → run step (.start chain) events = some last →
      Follows last.register last.chainActive := by
  intro follow
  have height := coinbaseChain_height 365759
  generalize coinbaseChain 365759 = chain at height
  have below : CBlockIndex.nHeight chain < pliStart := by
    rw [height]
    decide
  have none : ∀ outpoint, outpoint ∉ unspentPillars chain := by
    intro outpoint live
    unfold unspentPillars at live
    rw [entriesOf_below chain below] at live
    exact not_live_nil Creates Spends outpoint live
  have quiet : QuietAbove chain (plainBlock :: chain) :=
    .block plainBlock chain .refl fun _ => plainBlock_quiet _ (none .null)
  have follows := follow chain (forkEvents chain) _ below (forkEvents_run chain)
  have registered : (registerBlock (registerBlock .empty plainBlock chain) pillarBlock
      chain).isPillar { hash := 41, n := 0 } = true := by
    rw [registerBlock_at chain _ _ height, registerBlock_at chain _ _ height]
    decide +kernel
  have inChain := (follows.mapped { hash := 41, n := 0 }).mp registered
  rw [(quietAbove_same chain _ quiet).1] at inChain
  exact none _ inChain

/-- The block with the payment becomes the tip of such a chain. -/
theorem tip_registers_pillar :
    ∃ (chain : CBlockIndex) (last : PillarState),
      run step (.start chain) [.acceptBlock pillarBlock chain (pillarBlock :: chain)] = some last ∧
      last.register.isPillar { hash := 41, n := 0 } = true ∧
      Follows last.register last.chainActive := by
  have height := coinbaseChain_height 365759
  generalize coinbaseChain 365759 = chain at height
  have taken : step (.start chain) (.acceptBlock pillarBlock chain (pillarBlock :: chain)) = some
      { register := registerBlock .empty pillarBlock chain
        accepted := (pillarBlock :: chain) :: chain.tails
        chainActive := pillarBlock :: chain } :=
    if_pos ⟨own_block chain, fresh_block chain pillarBlock, mem_cons_self⟩
  have reached := (run_cons_some step _ _ _ []).mpr ⟨_, taken, rfl⟩
  have pace : AllSteps step KeepsPace (.start chain)
      [.acceptBlock pillarBlock chain (pillarBlock :: chain)] := by
    refine ⟨Or.inl ⟨rfl, rfl, by decide, ?_⟩, fun _ _ => trivial⟩
    intro outpoint _
    rfl
  refine ⟨chain, _, reached, ?_, pillars_follow_chain chain _ _ (by rw [height]; decide) pace
    reached⟩
  dsimp only
  rw [registerBlock_at chain _ _ height]
  decide +kernel

end ZenonCore.PillarChain
