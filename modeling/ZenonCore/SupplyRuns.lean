import ZenonCore.SupplyLaw
import ZenonCore.JustCheck
import ZenonCore.Library.Runs

/-!
# The zerocoin supply over runs

`ConnectBlock` updates the entry in place, the recalculations rewrite the active chain's, and
`DisconnectTip` leaves them.
-/

namespace ZenonCore.SupplyRuns

open Script Primitives ChainParams Coins Chain List
open Validation Zerocoin Chainstate ConnectBlock
open StakeInput AcceptBlock Effects MoneySupply
open TrackedConnect ValueGate ForkSerials JustCheck
open SupplyLaw Library.Runs

section Recalculations

variable (services : SupplyServices) (start : IndexedState) (Listed Held : CBlockIndex → Prop)

/-- The supplies some entries have kept, by their mints or by their coins. -/
structure KeepsSupply (state : IndexedState) : Prop where
  chain : state.node.chainActive = start.node.chainActive
  mints : ∀ pindex, Listed pindex →
    (start.supply pindex).vMintDenominationsInBlock =
      (state.supply pindex).vMintDenominationsInBlock
  coins : ∀ pindex, Held pindex →
    SameCoins (start.supply pindex).mapZerocoinSupply (state.supply pindex).mapZerocoinSupply

/-- An entry that a recalculation leaves as it is, as far as it is asked for. -/
structure Recalculable (pindex : CBlockIndex) : Prop where
  listed : Listed pindex → ∃ block pprev, pindex = block :: pprev ∧
    filtersInvalid services pprev = true ∧
    ListsMints services block pprev (start.supply pindex)
  held : Held pindex → Listed pindex ∧ ∃ (block : CBlock) (pprev : CBlockIndex), pindex = block :: pprev ∧
    filtersInvalid services pprev = true ∧
    pprev.nHeight + 1 ≠ services.params.nFakeSerialBlockheightEnd + 1 ∧ Held pprev ∧
    FollowsParent services block pprev (start.supply pprev) (start.supply pindex)

theorem keepsSupply_start : KeepsSupply start Listed Held start where
  chain := rfl
  mints := fun _ _ => rfl
  coins := fun _ _ _ _ => rfl

variable {start Listed Held}

theorem KeepsSupply.setSupply {state : IndexedState} (kept : KeepsSupply start Listed Held state)
    (pindex : CBlockIndex) (written : SupplyEntry)
    (mints : Listed pindex → (state.supply pindex).vMintDenominationsInBlock =
      written.vMintDenominationsInBlock)
    (coins : Held pindex →
      SameCoins (state.supply pindex).mapZerocoinSupply written.mapZerocoinSupply) :
    KeepsSupply start Listed Held (state.setSupply pindex written) where
  chain := kept.chain
  mints := by
    intro other listed
    simp only [IndexedState.setSupply]
    split_ifs with here
    · subst here
      exact (kept.mints other listed).trans (mints listed)
    · exact kept.mints other listed
  coins := by
    intro other held denom key
    simp only [IndexedState.setSupply]
    split_ifs with here
    · subst here
      exact (kept.coins other held denom key).trans (coins held denom key)
    · exact kept.coins other held denom key

theorem recalculateMinted_keepsSupply (pindex : CBlockIndex)
    (recalculable : Recalculable services start Listed Held pindex) (state : IndexedState)
    (kept : KeepsSupply start Listed Held state) :
    KeepsSupply start Listed Held (after (recalculateMinted services pindex) state) := by
  unfold recalculateMinted
  rw [after_check_bind]
  cases pindex with
  | nil => exact kept
  | cons block pprev =>
    dsimp only [readBlock]
    rw [after_check_bind]
    cases minted : blockToZerocoinMintList services true block.vtx with
    | error fault => exact kept
    | ok listMints =>
      apply kept.setSupply
      · intro listed
        obtain ⟨_, _, same, filters, mints, spends, lists, list⟩ := recalculable.listed listed
        cases same
        rw [filters] at lists
        rcases (denominationLists_spends services block true mints spends lists).1 with
          ⟨listed', minted', sameMints⟩
        rw [minted] at minted'
        cases minted'
        rw [← kept.mints _ listed, list]
        exact sameMints.symm
      · intro _ _ _
        rfl

theorem recalculateSpent_keepsSupply (pindex : CBlockIndex)
    (recalculable : Recalculable services start Listed Held pindex) (state : IndexedState)
    (kept : KeepsSupply start Listed Held state) :
    KeepsSupply start Listed Held (after (recalculateSpent services pindex) state) := by
  unfold recalculateSpent
  rw [after_check_bind]
  cases pindex with
  | nil => exact kept
  | cons block pprev =>
    dsimp only [readBlock]
    rw [after_check_bind]
    cases spent : zerocoinSpendListFromBlock services block true with
    | error fault => exact kept
    | ok spends =>
      dsimp only [ofFault]
      rw [after_check_bind]
      split
      · rw [after_inspect]
        have written := kept.setSupply (block :: pprev)
          (recalculatedSupply services (CBlockIndex.nHeight (block :: pprev))
            (state.supply pprev) (state.supply (block :: pprev)) spends).1
          (fun _ => (recalculatedSupply_mints services _ _ _ spends).symm)
          (by
            intro held
            rcases recalculable.held held with
              ⟨listed, _, _, same, filters, ordinary, heldParent, follows⟩
            cases same
            have now := follows.congr services block pprev (kept.coins _ heldParent)
              ⟨kept.mints _ listed, kept.coins _ held⟩
            rw [CBlockIndex.nHeight_cons]
            exact (recalculatedSupply_follows services block pprev _ _ filters ordinary now
              spends spent).2.symm.coins)
        rw [after_bind]
        apply check_bind_keeps (KeepsSupply start Listed Held) _ _ _ _ written
        intro _ later same
        exact ⟨same.chain, same.mints, same.coins⟩
      · exact kept

theorem recalculateMoneyFrom_keepsSupply (entries : List CBlockIndex) (nSupplyPrev : CAmount)
    (state : IndexedState) (kept : KeepsSupply start Listed Held state) :
    KeepsSupply start Listed Held
      (after (recalculateMoneyFrom services entries nSupplyPrev) state) := by
  induction entries generalizing nSupplyPrev state with
  | nil => exact kept
  | cons pindex rest ih =>
    unfold recalculateMoneyFrom
    apply check_bind_keeps (KeepsSupply start Listed Held) _ _ _ state kept
    intro block afterRead keptRead
    rw [after_inspect]
    apply check_bind_keeps (KeepsSupply start Listed Held) _ _ _ afterRead keptRead
    intro created afterValues keptValues
    apply write_bind_keeps (KeepsSupply start Listed Held) _ _ _ _ afterValues keptValues
    · intro before keptBefore
      have written := keptBefore.setSupply pindex
        { before.supply pindex with
          nMoneySupply := (recalculatedMoney services afterRead.node pindex.nHeight nSupplyPrev
            created.sum).1 }
        (fun _ => rfl) (fun _ _ _ => rfl)
      exact ⟨written.chain, written.mints, written.coins⟩
    · intro _ afterWrite keptWrite
      exact ih _ afterWrite keptWrite

theorem forActiveFrom_keepsSupply (nHeight : Int) (body : CBlockIndex → Tracked Unit)
    (keeps : ∀ pindex ∈ activeFrom start.node.chainActive nHeight, ∀ state,
      KeepsSupply start Listed Held state → KeepsSupply start Listed Held (after (body pindex) state))
    (state : IndexedState) (kept : KeepsSupply start Listed Held state) :
    KeepsSupply start Listed Held (after (forActiveFrom nHeight body) state) := by
  unfold forActiveFrom
  rw [after_inspect, kept.chain]
  apply check_bind_keeps (KeepsSupply start Listed Held) _ _ _ state kept
  intro _ later keptLater
  exact forM_keeps (KeepsSupply start Listed Held) body _ keeps later keptLater

/-- Where the entries of the active chain are recalculable, `RecalculateZZNNSpent`
keeps their supplies. -/
theorem recalculateZZNNSpent_keepsSupply
    (recalculable : ∀ pindex ∈ activeFrom start.node.chainActive
      services.params.nZerocoinStartHeight, Recalculable services start Listed Held pindex)
    (state : IndexedState) (kept : KeepsSupply start Listed Held state) :
    KeepsSupply start Listed Held (after (recalculateZZNNSpent services) state) :=
  forActiveFrom_keepsSupply _ _
    (fun pindex member => recalculateSpent_keepsSupply services pindex (recalculable pindex member))
    state kept

theorem recalculateSupply_keepsSupply
    (recalculable : ∀ pindex ∈ activeFrom start.node.chainActive
      services.params.nZerocoinStartHeight, Recalculable services start Listed Held pindex)
    (state : IndexedState) (kept : KeepsSupply start Listed Held state) :
    KeepsSupply start Listed Held (after (recalculateSupply services) state) := by
  unfold recalculateSupply
  apply bind_keeps (KeepsSupply start Listed Held) _ _ _ _ state kept
  · exact forActiveFrom_keepsSupply _ _ fun pindex member =>
      recalculateMinted_keepsSupply services pindex (recalculable pindex member)
  intro _ afterMinted keptMinted
  apply bind_keeps (KeepsSupply start Listed Held) _ _ _ _ afterMinted keptMinted
  · exact recalculateZZNNSpent_keepsSupply services recalculable
  intro _ afterSpent keptSpent
  unfold recalculateZNNSupply
  rw [after_inspect]
  split
  · exact keptSpent
  · apply check_bind_keeps (KeepsSupply start Listed Held) _ _ _ afterSpent keptSpent
    exact fun _ later keptLater => recalculateMoneyFrom_keepsSupply services _ _ later keptLater

end Recalculations

section Law

variable (services : SupplyServices)

theorem mem_activeFrom (chain pindex : CBlockIndex) (nHeight : Int) :
    pindex ∈ activeFrom chain nHeight ↔
      pindex <:+ chain ∧ pindex ≠ [] ∧ nHeight ≤ pindex.nHeight := by
  simp [activeFrom, mem_tails]

/-- What the supply of a connected block is, by that of its parent. -/
structure Lawful (state : IndexedState) (block : CBlock) (pprev : CBlockIndex) : Prop where
  mints : pprev ≠ [] → ListsMints services block pprev (state.supply (block :: pprev))
  settled : 3 < headerVersion pprev →
    Settled services block pprev (state.supply pprev) (state.supply (block :: pprev))

/-- The law holds for every connected block but the genesis block. -/
def LawfulChain (state : IndexedState) : Prop :=
  ∀ block pprev, (block :: pprev) <:+ state.node.chainActive →
    block.hash ≠ services.params.hashGenesisBlock → Lawful services state block pprev

theorem Lawful.congr {first second : IndexedState} {block : CBlock} {pprev : CBlockIndex}
    (lawful : Lawful services first block pprev)
    (mints : pprev ≠ [] → (first.supply (block :: pprev)).vMintDenominationsInBlock =
      (second.supply (block :: pprev)).vMintDenominationsInBlock)
    (coins : 3 < headerVersion pprev →
      SameCoins (first.supply pprev).mapZerocoinSupply (second.supply pprev).mapZerocoinSupply ∧
      SameCoins (first.supply (block :: pprev)).mapZerocoinSupply
        (second.supply (block :: pprev)).mapZerocoinSupply) :
    Lawful services second block pprev where
  mints := by
    intro present
    obtain ⟨listed, spends, lists, list⟩ := lawful.mints present
    exact ⟨listed, spends, lists, (mints present).symm.trans list⟩
  settled := by
    intro behind
    exact (lawful.settled behind).congr services block pprev behind (coins behind).1
      ⟨mints (present_of_version pprev behind), (coins behind).2⟩

theorem Lawful.of_supply {first second : IndexedState} {block : CBlock} {pprev : CBlockIndex}
    (lawful : Lawful services first block pprev)
    (parent : second.supply pprev = first.supply pprev)
    (own : second.supply (block :: pprev) = first.supply (block :: pprev)) :
    Lawful services second block pprev := by
  apply lawful.congr
  · intro _
    rw [own]
  · intro _
    rw [parent, own]
    exact ⟨fun _ _ => rfl, fun _ _ => rfl⟩

theorem builtIn_supplyHeights (params : CChainParams) (builtIn : BuiltIn params) :
    nBlockRecalculateAccumulators params ≤ params.nZerocoinStartHeight ∧
      params.nFakeSerialBlockheightEnd + 1 < nBlockRecalculateAccumulators params := by
  obtain main | ⟨hash, testnet | regtest⟩ := builtIn
  · subst main
    decide
  · subst testnet
    simp [nBlockRecalculateAccumulators, testNetParams, mainParams]
  · subst regtest
    simp [nBlockRecalculateAccumulators, regTestParams, testNetParams, mainParams]

/-- The recalculations of a network that is built in start at the height of the
tip, if they are made at all. -/
theorem recalculated_is_tip (builtIn : BuiltIn services.params) (chain pindex : CBlockIndex)
    (recalculates : chain.nHeight = nBlockRecalculateAccumulators services.params)
    (member : pindex ∈ activeFrom chain services.params.nZerocoinStartHeight) :
    pindex = chain := by
  obtain ⟨suffix, _, above⟩ := (mem_activeFrom chain pindex _).mp member
  have starts : nBlockRecalculateAccumulators services.params ≤
      services.params.nZerocoinStartHeight := (builtIn_supplyHeights _ builtIn).1
  apply suffix.eq_of_length_le
  simp only [CBlockIndex.nHeight] at recalculates above
  omega

/-- The tip has the mints of its block, if it is the entry in question. -/
def ListsAtTip (state : IndexedState) (pindex : CBlockIndex) : Prop :=
  pindex = state.node.chainActive → ∃ block pprev, pindex = block :: pprev ∧
    ListsMints services block pprev (state.supply pindex)

def FollowsAtTip (state : IndexedState) (pindex : CBlockIndex) : Prop :=
  pindex = state.node.chainActive → ∃ block pprev, pindex = block :: pprev ∧
    FollowsParent services block pprev (state.supply pprev) (state.supply pindex)

theorem recalculateAt_lawful (builtIn : BuiltIn services.params) (state : IndexedState)
    (lawful : LawfulChain services state) :
    LawfulChain services
      (after (recalculateAt services (state.node.chainActive.nHeight + 1)) state) := by
  by_cases recalculates : state.node.chainActive.nHeight + 1 =
      nBlockRecalculateAccumulators services.params + 1
  · have tipHeight : state.node.chainActive.nHeight =
        nBlockRecalculateAccumulators services.params := by
      omega
    have heights := builtIn_supplyHeights _ builtIn
    have filters : ∀ (block : CBlock) (pprev : CBlockIndex), state.node.chainActive = block :: pprev →
        filtersInvalid services pprev = true ∧
          pprev.nHeight + 1 ≠ services.params.nFakeSerialBlockheightEnd + 1 := by
      intro block pprev tip
      rw [tip, CBlockIndex.nHeight_cons] at tipHeight
      unfold filtersInvalid
      exact ⟨decide_eq_true (by omega), by omega⟩
    have kept : KeepsSupply state (ListsAtTip services state) (FollowsAtTip services state)
        (after (recalculateSupply services) state) := by
      apply recalculateSupply_keepsSupply services _ state (keepsSupply_start state _ _)
      intro pindex member
      have tip := recalculated_is_tip services builtIn _ pindex tipHeight member
      constructor
      · intro listed
        obtain ⟨block, pprev, same, mints⟩ := listed tip
        exact ⟨block, pprev, same, (filters block pprev (tip.symm.trans same)).1, mints⟩
      · intro held
        obtain ⟨block, pprev, same, follows⟩ := held tip
        have facts := filters block pprev (tip.symm.trans same)
        have heldParent : FollowsAtTip services state pprev := by
          intro loops
          have lengths := congrArg length (same.symm.trans (tip.trans loops.symm))
          simp at lengths
        obtain ⟨mints, spends, lists, keys, list, supply⟩ := follows
        exact ⟨fun _ => ⟨block, pprev, same, mints, spends, lists, list⟩, block, pprev, same,
          facts.1, facts.2, heldParent, mints, spends, lists, keys, list, supply⟩
    unfold recalculateAt
    rw [if_pos recalculates]
    intro block pprev suffix other
    rw [kept.chain] at suffix
    have law := lawful block pprev suffix other
    apply law.congr
    · intro present
      apply kept.mints
      exact fun _ => ⟨block, pprev, rfl, law.mints present⟩
    · intro behind
      constructor
      · apply kept.coins
        intro loops
        have lengths := suffix.length_le
        rw [← loops] at lengths
        simp at lengths
      · apply kept.coins
        exact fun _ => ⟨block, pprev, rfl, (law.settled behind).follows services block pprev behind⟩
  · unfold recalculateAt
    rw [if_neg recalculates]
    exact lawful

end Law

section Connect

variable (services : SupplyServices) (here : LocalState) (block : CBlock) (chain : CBlockIndex)

/-- The entry `ConnectBlock` is given on top of the active chain. -/
def AtTip (pointer : IndexPointer) : Prop :=
  pointer = .entry (block :: chain) ∨ pointer = .dummy chain

structure KeepsLaw (state : IndexedState) : Prop where
  sameChain : state.node.chainActive = chain
  lawful : LawfulChain services state

/-- Nothing of the supplies or of the active chain is written. -/
structure SameSupplies (first second : IndexedState) : Prop where
  supply : second.supply = first.supply
  sameChain : second.node.chainActive = first.node.chainActive

variable {chain}

theorem KeepsLaw.same {first second : IndexedState} (kept : KeepsLaw services chain first)
    (same : SameSupplies first second) : KeepsLaw services chain second where
  sameChain := same.sameChain.trans kept.sameChain
  lawful := by
    intro connected pprev suffix other
    rw [same.sameChain] at suffix
    apply (kept.lawful connected pprev suffix other).of_supply
    · rw [same.supply]
    · rw [same.supply]

variable {block}

variable {pointer : IndexPointer}

theorem AtTip.pprev (atTip : AtTip block chain pointer) :
    pointer.pprev = chain := by
  obtain entry | dummy := atTip
  · subst entry
    rfl
  · subst dummy
    rfl

theorem AtTip.writeSupply (atTip : AtTip block chain pointer)
    (state : IndexedState) (written : SupplyEntry) (pindex : CBlockIndex)
    (suffix : pindex <:+ chain) :
    (pointer.writeSupply state written).supply pindex = state.supply pindex := by
  obtain entry | dummy := atTip
  · subst entry
    simp only [IndexPointer.writeSupply, IndexedState.setSupply]
    rw [if_neg]
    intro same
    have lengths := suffix.length_le
    rw [same] at lengths
    simp at lengths
  · subst dummy
    rfl

theorem updatedEntry_same (block : CBlock) (pprev : CBlockIndex) (parent own : SupplyEntry)
    (acc : Connecting)
    (updated : (updateZZNNSupply services block pprev parent own).2 = .ok true) :
    SameSupply (updateZZNNSupply services block pprev parent own).1
      (updatedEntry services block pprev parent own acc) := by
  unfold updatedEntry
  generalize updateZZNNSupply services block pprev parent own = result at updated ⊢
  obtain ⟨entry, outcome⟩ := result
  subst updated
  exact ⟨rfl, fun _ _ => rfl⟩

/-- The update of the entry keeps the law, and gives it to the entry if it
succeeds. -/
theorem updateEntry_lawful (atTip : AtTip block chain pointer)
    (acc : Connecting) (state : IndexedState) (kept : KeepsLaw services chain state) :
    KeepsLaw services chain (after (updateEntry services block pointer acc) state) ∧
      (outcome (updateEntry services block pointer acc) state = .ok () →
        pointer = .entry (block :: chain) →
        Lawful services (after (updateEntry services block pointer acc) state) block chain) := by
  have supplies := atTip.writeSupply state (updatedEntry services block pointer.pprev
    (state.supply pointer.pprev) (pointer.readSupply state) acc)
  rw [after_updateEntry]
  constructor
  · constructor
    · rw [writeSupply_node]
      exact kept.sameChain
    · intro connected pprev suffix other
      rw [writeSupply_node] at suffix
      have law := kept.lawful connected pprev suffix other
      rw [kept.sameChain] at suffix
      apply law.of_supply
      · exact supplies pprev ((suffix_cons connected pprev).trans suffix)
      · exact supplies _ suffix
  · intro succeeds entry
    have parent := supplies chain suffix_rfl
    have updated := (outcome_updateEntry services block pointer acc state ()).mp succeeds
    subst entry
    have same := updatedEntry_same services block chain (state.supply chain)
      (state.supply (block :: chain)) acc updated
    have own : (IndexPointer.writeSupply state (updatedEntry services block chain
        (state.supply chain) (state.supply (block :: chain)) acc)
        (.entry (block :: chain))).supply (block :: chain) =
          updatedEntry services block chain (state.supply chain)
            (state.supply (block :: chain)) acc := by
      simp [IndexPointer.writeSupply, IndexedState.setSupply]
    constructor
    · intro present
      rcases updateZZNNSupply_mints services block chain present _ _ _ (Prod.ext rfl updated) with
        ⟨mints, spends, lists, list⟩
      refine ⟨mints, spends, lists, ?_⟩
      exact (congrArg SupplyEntry.vMintDenominationsInBlock own).trans (same.mints.symm.trans list)
    · intro behind
      apply (settled_of_update services block chain behind _ _ updated).congr services block chain
        behind
      · exact fun denom _ => (congrFun (congrArg SupplyEntry.mapZerocoinSupply parent) denom).symm
      · exact own.symm ▸ same

theorem SameSupplies.refl (state : IndexedState) : SameSupplies state state where
  supply := rfl
  sameChain := rfl

theorem SameSupplies.trans {first second third : IndexedState}
    (same : SameSupplies first second) (next : SameSupplies second third) :
    SameSupplies first third where
  supply := next.supply.trans same.supply
  sameChain := next.sameChain.trans same.sameChain

theorem checkUnlessChecked_same (fJustCheck fAlreadyChecked : Bool) (state : IndexedState) :
    SameSupplies state
      (after (checkUnlessChecked services here block fJustCheck fAlreadyChecked) state) := by
  unfold checkUnlessChecked
  split
  · exact SameSupplies.refl state
  · rw [after_checkBlockTracked]
    split
    · exact ⟨rfl, rfl⟩
    · exact SameSupplies.refl state

theorem initializeAccumulators_chain (node : NodeState) (nHeight : Int) :
    (initializeAccumulators services node nHeight).chainActive = node.chainActive := by
  unfold initializeAccumulators
  split
  · rfl
  · rfl

theorem checkAndFinish_same (pointer : IndexPointer) (fJustCheck : Bool) (acc : Connecting)
    (state : IndexedState) :
    SameSupplies state (after (do
      checkValues services here block pointer.nHeight acc
      finishConnect here block fJustCheck acc) state) := by
  apply bind_keeps (SameSupplies state) _ _ _ _ state (SameSupplies.refl state)
  · intro before same
    apply same.trans
    rw [after_checkValues]
    split
    · exact ⟨rfl, initializeAccumulators_chain services _ _⟩
    · exact SameSupplies.refl before
  · intro _ before same
    apply same.trans
    unfold finishConnect
    split
    · exact SameSupplies.refl before
    · exact ⟨rfl, rfl⟩

variable (block chain)

/-- A computation keeps the law and, if it succeeds, gives it to the entry of a block with a parent.
-/
structure Connects (pointer : IndexPointer) (run : Tracked Connecting) (state : IndexedState) :
    Prop where
  kept : KeepsLaw services chain (after run state)
  connected : ∀ acc, outcome run state = .ok acc → pointer = .entry (block :: chain) →
    block.hash ≠ services.params.hashGenesisBlock → Lawful services (after run state) block chain

variable {block chain}

theorem Connects.bind {α : Type} {pointer : IndexPointer} (first : Tracked α)
    (next : α → Tracked Connecting) (state : IndexedState)
    (kept : KeepsLaw services chain (after first state))
    (connects : ∀ value, Connects services block chain pointer (next value) (after first state)) :
    Connects services block chain pointer (first >>= next) state := by
  constructor
  · rw [after_bind]
    split
    · rename_i value _
      exact (connects value).kept
    · exact kept
  · intro acc succeeds entry other
    rw [outcome_bind] at succeeds
    rw [after_bind]
    split at succeeds
    · rename_i value _
      exact (connects value).connected acc succeeds entry other
    · cases succeeds

theorem Connects.check_bind {α : Type} {pointer : IndexPointer} (result : Validated α)
    (next : α → Tracked Connecting) (state : IndexedState) (kept : KeepsLaw services chain state)
    (connects : ∀ value, Connects services block chain pointer (next value) state) :
    Connects services block chain pointer (check result >>= next) state :=
  Connects.bind services (check result) next state kept connects

theorem Connects.inspect (next : IndexedState → Tracked Connecting)
    (state : IndexedState) (connects : Connects services block chain pointer (next state) state) :
    Connects services block chain pointer (inspect next) state where
  kept := connects.kept
  connected := connects.connected

theorem Connects.finish (first : Tracked Unit)
    (rest : Tracked Connecting) (state : IndexedState)
    (kept : KeepsLaw services chain (after first state))
    (connected : outcome first state = .ok () → pointer = .entry (block :: chain) →
      Lawful services (after first state) block chain)
    (same : SameSupplies (after first state) (after rest (after first state))) :
    Connects services block chain pointer (first >>= fun _ => rest) state := by
  constructor
  · rw [after_bind]
    split
    · exact kept.same services same
    · exact kept
  · intro acc succeeds entry _
    rw [outcome_bind] at succeeds
    rw [after_bind]
    split at succeeds
    · rename_i done
      apply (connected done entry).of_supply
      · rw [same.supply]
      · rw [same.supply]
    · cases succeeds

theorem connectBehindLoop_connects (builtIn : BuiltIn services.params) {pointer : IndexPointer}
    (atTip : AtTip block chain pointer) (fJustCheck : Bool) (acc : Connecting)
    (state : IndexedState) (kept : KeepsLaw services chain state) :
    Connects services block chain pointer
      (connectBehindLoop services here block pointer fJustCheck acc) state := by
  have height : pointer.nHeight = state.node.chainActive.nHeight + 1 := by
    rw [IndexPointer.nHeight, atTip.pprev, kept.sameChain]
  have recalculated : KeepsLaw services chain
      (after (recalculateAt services pointer.nHeight) state) := by
    constructor
    · rw [(recalculateAt_keeps services pointer.nHeight state).1]
      exact kept.sameChain
    · rw [height]
      exact recalculateAt_lawful services builtIn state kept.lawful
  have updated := updateEntry_lawful services atTip acc _ recalculated
  unfold connectBehindLoop
  apply Connects.bind services _ _ state recalculated
  intro _
  apply Connects.finish services _ _ _ updated.1 updated.2
  exact checkAndFinish_same services here pointer fJustCheck acc _

/-- `ConnectBlock` on top of the active chain keeps the law, and a block it
connects comes under it. -/
theorem connectBlockTracked_connects (builtIn : BuiltIn services.params) {pointer : IndexPointer}
    (atTip : AtTip block chain pointer) (view : CCoinsView) (fJustCheck fAlreadyChecked : Bool)
    (state : IndexedState) (kept : KeepsLaw services chain state) :
    Connects services block chain pointer
      (connectBlockTracked services here block pointer view fJustCheck fAlreadyChecked) state := by
  have checked := kept.same services
    (@checkUnlessChecked_same services here block fJustCheck fAlreadyChecked state)
  unfold connectBlockTracked
  apply Connects.bind services _ _ state checked
  intro _
  generalize after (checkUnlessChecked services here block fJustCheck fAlreadyChecked) state =
    later at checked ⊢
  apply Connects.check_bind services _ _ later checked
  intro _
  split
  · rename_i genesis
    constructor
    · exact checked
    · intro _ _ _ other
      exact absurd genesis other
  · apply Connects.inspect
    apply Connects.check_bind services _ _ later checked
    intro acc
    exact connectBehindLoop_connects services here builtIn atTip fJustCheck acc _ checked

end Connect

section Runs

variable (services : SupplyServices)

def connectTipTracked (here : LocalState) (kept : Uint256 → Bool) (pindexNew : CBlockIndex)
    (fromDisk fAlreadyChecked : Bool) : Tracked Unit :=
  match pindexNew with
  | [] => check (.error .assertion)
  | block :: pprev =>
    inspect fun state => do
      check (require (decide (pprev = state.node.chainActive)) (.error .assertion))
      let acc ← connectBlockTracked services here block (.entry pindexNew)
        state.node.pcoinsTip false (fAlreadyChecked && !fromDisk)
      write fun state => { state with
        node := { state.node with
          pcoinsTip := acc.view.flush kept
          mempool := state.node.mempool.removeForBlock block.vtx
          chainActive := pindexNew } }

/-- A call of `ConnectBlock` that only checks, for the entry of the block or the caller's own. -/
def checkTipTracked (here : LocalState) (block : CBlock) (ownEntry : Bool) (view : CCoinsView)
    (fAlreadyChecked : Bool) : Tracked Connecting :=
  inspect fun state =>
    connectBlockTracked services here block
      (if ownEntry then .entry (block :: state.node.chainActive)
        else .dummy state.node.chainActive) view true fAlreadyChecked

def disconnectTipTracked (here : LocalState) (kept : Uint256 → Bool) : Tracked Unit :=
  inspect fun state => do
    let disconnected := ChainTip.disconnectTip services.toServices here kept state.node
    write fun state => { state with node := disconnected.1 }
    check disconnected.2

inductive Event
  | connectTip (here : LocalState) (kept : Uint256 → Bool) (pindexNew : CBlockIndex)
      (fromDisk fAlreadyChecked : Bool)
  | checkTip (here : LocalState) (block : CBlock) (ownEntry : Bool) (view : CCoinsView)
      (fAlreadyChecked : Bool)
  | disconnectTip (here : LocalState) (kept : Uint256 → Bool)

def leaves {α : Type} (run : Tracked α) (state : IndexedState) : Option IndexedState :=
  match outcome run state with
  | .error .assertion => none
  | _ => some (after run state)

def step (state : IndexedState) : Event → Option IndexedState
  | .connectTip here kept pindexNew fromDisk fAlreadyChecked =>
    leaves (connectTipTracked services here kept pindexNew fromDisk fAlreadyChecked) state
  | .checkTip here block ownEntry view fAlreadyChecked =>
    leaves (checkTipTracked services here block ownEntry view fAlreadyChecked) state
  | .disconnectTip here kept => leaves (disconnectTipTracked services here kept) state

theorem leaves_some {α : Type} (run : Tracked α) (state next : IndexedState)
    (left : leaves run state = some next) : next = after run state := by
  unfold leaves at left
  split at left
  · cases left
  · exact (Option.some.inj left).symm

theorem connectTipTracked_lawful (builtIn : BuiltIn services.params) (here : LocalState)
    (kept : Uint256 → Bool) (pindexNew : CBlockIndex) (fromDisk fAlreadyChecked : Bool)
    (state : IndexedState) (lawful : LawfulChain services state) :
    LawfulChain services
      (after (connectTipTracked services here kept pindexNew fromDisk fAlreadyChecked) state) := by
  unfold connectTipTracked
  cases pindexNew with
  | nil => exact lawful
  | cons block pprev =>
    dsimp only
    rw [after_inspect, after_check_bind]
    split
    · rename_i atTip
      rw [require_eq_ok, decide_eq_true_eq] at atTip
      have connects := connectBlockTracked_connects services here builtIn
        (Or.inl rfl : AtTip block pprev (.entry (block :: pprev))) state.node.pcoinsTip false
        (fAlreadyChecked && !fromDisk) state ⟨atTip.symm, lawful⟩
      rw [after_bind]
      split
      · rename_i acc succeeds
        rw [after_write]
        intro connected parent suffix other
        have law : Lawful services (after (connectBlockTracked services here block
            (.entry (block :: pprev)) state.node.pcoinsTip false (fAlreadyChecked && !fromDisk))
            state) connected parent := by
          obtain tip | below := suffix_cons_iff.mp suffix
          · cases tip
            exact connects.connected acc succeeds rfl other
          · apply connects.kept.lawful connected parent _ other
            rw [connects.kept.sameChain]
            exact below
        exact law.of_supply services rfl rfl
      · exact connects.kept.lawful
    · exact lawful

theorem checkTipTracked_lawful (builtIn : BuiltIn services.params) (here : LocalState)
    (block : CBlock) (ownEntry : Bool) (view : CCoinsView) (fAlreadyChecked : Bool)
    (state : IndexedState) (lawful : LawfulChain services state) :
    LawfulChain services
      (after (checkTipTracked services here block ownEntry view fAlreadyChecked) state) := by
  have atTip : AtTip block state.node.chainActive
      (if ownEntry then .entry (block :: state.node.chainActive)
        else .dummy state.node.chainActive) := by
    cases ownEntry with
    | true => exact Or.inl rfl
    | false => exact Or.inr rfl
  unfold checkTipTracked
  rw [after_inspect]
  exact (connectBlockTracked_connects services here builtIn atTip view true fAlreadyChecked state
    ⟨rfl, lawful⟩).kept.lawful

variable (here : LocalState) (kept : Uint256 → Bool)

theorem disconnectTip_suffix (node : NodeState) :
    (ChainTip.disconnectTip services.toServices here kept node).1.chainActive <:+
      node.chainActive := by
  unfold ChainTip.disconnectTip
  split
  · exact suffix_rfl
  · rename_i block pprev tip
    split
    · exact suffix_rfl
    · split
      · exact suffix_rfl
      · rw [tip]
        exact suffix_cons block pprev

theorem disconnectTipTracked_lawful (state : IndexedState) (lawful : LawfulChain services state) :
    LawfulChain services (after (disconnectTipTracked services here kept) state) := by
  intro block pprev suffix other
  have below := disconnectTip_suffix services here kept state.node
  exact (lawful block pprev (suffix.trans below) other).of_supply services rfl rfl

theorem step_lawful (builtIn : BuiltIn services.params) (state : IndexedState) (event : Event)
    (next : IndexedState) (lawful : LawfulChain services state)
    (taken : step services state event = some next) : LawfulChain services next := by
  cases event with
  | connectTip here kept pindexNew fromDisk fAlreadyChecked =>
    rw [leaves_some _ state next taken]
    exact connectTipTracked_lawful services builtIn here kept pindexNew fromDisk fAlreadyChecked
      state lawful
  | checkTip here block ownEntry view fAlreadyChecked =>
    rw [leaves_some _ state next taken]
    exact checkTipTracked_lawful services builtIn here block ownEntry view fAlreadyChecked state
      lawful
  | disconnectTip here kept =>
    rw [leaves_some _ state next taken]
    exact disconnectTipTracked_lawful services here kept state lawful

theorem run_lawful (builtIn : BuiltIn services.params) (state last : IndexedState)
    (events : List Event) (lawful : LawfulChain services state)
    (reached : run (step services) state events = some last) : LawfulChain services last := by
  apply invariant_of_run (step services) (LawfulChain services) _ state last events lawful reached
  intro current event next held taken
  exact step_lawful services builtIn current event next held taken

end Runs

section Main

variable (services : SupplyServices)

/-- The law holds all along a run: a connected block has its mints, behind a header of version four
its supply follows from its parent's, and so it does after `RecalculateZZNNSpent` over such headers.
-/
theorem supply_follows_chain (builtIn : BuiltIn services.params) (state last : IndexedState)
    (events : List Event) (lawful : LawfulChain services state)
    (reached : run (step services) state events = some last) :
    (∀ (block : CBlock) (pprev : CBlockIndex), (block :: pprev) <:+ last.node.chainActive →
      block.hash ≠ services.params.hashGenesisBlock →
        (pprev ≠ [] → ListsMints services block pprev (last.supply (block :: pprev))) ∧
        (3 < headerVersion pprev →
          FollowsParent services block pprev (last.supply pprev) (last.supply (block :: pprev)) ∧
          ∀ own,
            (updateZZNNSupply services block pprev (last.supply pprev) own).2 = .ok true ∧
            SameSupply (updateZZNNSupply services block pprev (last.supply pprev) own).1
              (last.supply (block :: pprev)))) ∧
    ((∀ (block : CBlock) (pprev : CBlockIndex), (block :: pprev) <:+ last.node.chainActive →
      services.params.nZerocoinStartHeight ≤ pprev.nHeight + 1 →
        block.hash ≠ services.params.hashGenesisBlock ∧ 3 < headerVersion pprev) →
      ∀ pindex, SameSupply (last.supply pindex)
        ((after (recalculateZZNNSpent services) last).supply pindex)) := by
  have heights := builtIn_supplyHeights _ builtIn
  have law : LawfulChain services last := run_lawful services builtIn state last events lawful reached
  constructor
  · intro block pprev suffix other
    have own := law block pprev suffix other
    refine ⟨own.mints, fun behind => ⟨(own.settled behind).follows services block pprev behind, ?_⟩⟩
    intro before
    have again := updateZZNNSupply_congr services block pprev behind (last.supply pprev)
      (last.supply pprev) (last.supply (block :: pprev)) before (fun _ _ => rfl)
    have settled := own.settled behind
    exact ⟨again.1.symm.trans settled.accepted,
      (again.2 settled.accepted).symm.trans settled.same⟩
  · intro behind pindex
    have kept : KeepsSupply last (fun _ => True) (fun _ => True)
        (after (recalculateZZNNSpent services) last) := by
      apply recalculateZZNNSpent_keepsSupply services _ last (keepsSupply_start last _ _)
      intro entry member
      obtain ⟨suffix, present, above⟩ := (mem_activeFrom _ entry _).mp member
      cases entry with
      | nil => exact absurd rfl present
      | cons block pprev =>
        rw [CBlockIndex.nHeight_cons] at above
        have regular := behind block pprev suffix above
        have own := law block pprev suffix regular.1
        have filters : filtersInvalid services pprev = true := by
          unfold filtersInvalid
          exact decide_eq_true (by omega)
        constructor
        · intro _
          exact ⟨block, pprev, rfl, filters, own.mints (present_of_version pprev regular.2)⟩
        · intro _
          exact ⟨trivial, block, pprev, rfl, filters, by omega, trivial,
            (own.settled regular.2).follows services block pprev regular.2⟩
    exact ⟨kept.mints pindex trivial, kept.coins pindex trivial⟩

end Main

/-- The main network at a block with a mint, under a header of some version. -/
def mintedTip (nVersion : Int) : CBlock := { mintBlock with nVersion := nVersion }

def mintedState (nVersion : Int) : IndexedState where
  node := { mintedNode with chainActive := [mintedTip nVersion, genesisBlock] }
  supply := fun pindex =>
    if pindex = [mintedTip nVersion, genesisBlock] then
      { SupplyEntry.null with
        mapZerocoinSupply := fun denom => if denom = .zqTen then 1 else 0
        vMintDenominationsInBlock := [.zqTen] }
    else SupplyEntry.null
  blockTree := fun _ => none
  mapRejectedBlocks := fun _ => none

def nextBlock : CBlock := exampleBlock 102 101 1600000060 [coinbaseTx 12]

def connectNext (nVersion : Int) : Event :=
  .connectTip quietNode (fun _ => false) [nextBlock, mintedTip nVersion, genesisBlock] false true

theorem connectNext_runs (nVersion : Int)
    (succeeds : outcome (connectTipTracked mainnetSupply quietNode (fun _ => false)
      [nextBlock, mintedTip nVersion, genesisBlock] false true) (mintedState nVersion) = .ok ()) :
    run (step mainnetSupply) (mintedState nVersion) [connectNext nVersion] =
      some (after (connectTipTracked mainnetSupply quietNode (fun _ => false)
        [nextBlock, mintedTip nVersion, genesisBlock] false true) (mintedState nVersion)) := by
  simp [run, step, connectNext, leaves, succeeds]

theorem mintedState_lists :
    denominationLists mainnetSupply (mintedTip 4) (filtersInvalid mainnetSupply [genesisBlock]) =
      .ok ([.zqTen], []) := by
  decide +kernel

theorem mintedState_lawful : LawfulChain mainnetSupply (mintedState 4) := by
  intro block pprev suffix other
  obtain tip | below := suffix_cons_iff.mp suffix
  · cases tip
    constructor
    · intro _
      exact ⟨[.zqTen], [], mintedState_lists, rfl⟩
    · intro behind
      exact absurd behind (by decide)
  · obtain tip | empty := suffix_cons_iff.mp below
    · cases tip
      exact absurd rfl other
    · cases suffix_nil.mp empty

/-- A block connected behind a mint keeps its parent's coins. -/
theorem minted_supply_follows :
    ∃ last, run (step mainnetSupply) (mintedState 4) [connectNext 4] = some last ∧
      FollowsParent mainnetSupply nextBlock [mintedTip 4, genesisBlock]
        (last.supply [mintedTip 4, genesisBlock])
        (last.supply [nextBlock, mintedTip 4, genesisBlock]) := by
  have reached := connectNext_runs 4 (by decide +kernel)
  have law := supply_follows_chain mainnetSupply (Or.inl rfl) (mintedState 4) _ [connectNext 4]
    mintedState_lawful reached
  refine ⟨_, reached, ((law.1 nextBlock [mintedTip 4, genesisBlock] ?_ ?_).2 ?_).1⟩
  · decide +kernel
  · decide +kernel
  · decide +kernel

def NetChain (services : SupplyServices) (state : IndexedState) : Prop :=
  ∀ (block : CBlock) (pprev : CBlockIndex), (block :: pprev) <:+ state.node.chainActive →
    pprev ≠ [] → ∃ mints spends,
      denominationLists services block (filtersInvalid services pprev) = .ok (mints, spends) ∧
      (state.supply (block :: pprev)).vMintDenominationsInBlock = mints ∧
      SameCoins (state.supply (block :: pprev)).mapZerocoinSupply
        (netSupply (state.supply pprev).mapZerocoinSupply mints spends)

theorem mintedState_net : NetChain mainnetSupply (mintedState 3) := by
  intro block pprev suffix present
  obtain tip | below := suffix_cons_iff.mp suffix
  · cases tip
    refine ⟨[.zqTen], [], by decide +kernel, rfl, ?_⟩
    intro denom _
    cases denom <;> rfl
  · obtain tip | empty := suffix_cons_iff.mp below
    · cases tip
      exact absurd rfl present
    · cases suffix_nil.mp empty

theorem corrected_supply (chain : CBlockIndex) (height : chain.nHeight = 1686215)
    (behind : 3 < headerVersion chain) :
    (updateZZNNSupply mainnetSupply nextBlock chain SupplyEntry.null
      SupplyEntry.null).1.mapZerocoinSupply .zqOne = 7 := by
  have lists : denominationLists mainnetSupply nextBlock false = .ok ([], []) := by
    decide +kernel
  have start : initialSupply chain SupplyEntry.null SupplyEntry.null = SupplyEntry.null := by
    unfold initialSupply
    rw [if_pos behind]
    congr
    funext denom
    split
    · rfl
    · rfl
  have filter : decide (nBlockRecalculateAccumulators mainnetSupply.params ≤ (1686216 : Int)) =
      false := by
    decide +kernel
  unfold updateZZNNSupply
  rw [height, start, show (1686215 : Int) + 1 = 1686216 from rfl]
  dsimp only
  rw [filter, lists,
    isEmpty_eq_false_iff.mpr (present_of_version chain behind)]
  decide +kernel

/-- Behind a header of version three the supply starts anew, and at one height coins are added that
no block has minted. -/
theorem supply_restarts_and_is_corrected :
    (¬ ∀ (services : SupplyServices) (state last : IndexedState) (events : List Event),
      BuiltIn services.params → NetChain services state →
        run (step services) state events = some last → NetChain services last) ∧
    ∃ chain : CBlockIndex, 3 < headerVersion chain ∧
      denominationLists mainnetSupply nextBlock (filtersInvalid mainnetSupply chain) =
        .ok ([], []) ∧
      (updateZZNNSupply mainnetSupply nextBlock chain SupplyEntry.null
        SupplyEntry.null).1.mapZerocoinSupply .zqOne = 7 := by
  constructor
  · intro keeps
    have law := keeps mainnetSupply (mintedState 3) _ [connectNext 3] (Or.inl rfl) mintedState_net
      (connectNext_runs 3 (by decide +kernel)) nextBlock [mintedTip 3, genesisBlock]
      (by decide +kernel) (by decide)
    obtain ⟨mints, spends, lists, _, coins⟩ := law
    have noCoins : denominationLists mainnetSupply nextBlock
        (filtersInvalid mainnetSupply [mintedTip 3, genesisBlock]) = .ok ([], []) := by
      decide +kernel
    rw [noCoins] at lists
    cases lists
    have ten := coins .zqTen (by decide)
    revert ten
    decide +kernel
  · have height : CBlockIndex.nHeight (replicate 1686216 (mintedTip 4)) = 1686215 := by
      rw [CBlockIndex.nHeight, length_replicate]
      rfl
    have behind : 3 < headerVersion (replicate 1686216 (mintedTip 4)) := by
      rw [replicate_succ]
      decide
    refine ⟨_, behind, ?_, corrected_supply _ height behind⟩
    unfold filtersInvalid
    rw [height]
    decide +kernel

end ZenonCore.SupplyRuns
