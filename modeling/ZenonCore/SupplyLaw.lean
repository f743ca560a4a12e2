import ZenonCore.MoneySupply

/-!
# The zerocoin supply behind a block

The supply of an entry by that of its parent, with a correction at one height of the main
network, compared on the keys of the map.
-/

namespace ZenonCore.SupplyLaw

open Primitives ChainParams Chain Validation List
open Zerocoin StakeInput MoneySupply MoneySupply.SupplyEntry

abbrev Supply := CoinDenomination → Int

section Law

variable (services : SupplyServices)

/-- The parent's supply with the mints and without the spends of the block. -/
def netSupply (parent : Supply) (mints spends : List CoinDenomination) : Supply :=
  fun denom => parent denom + mints.count denom - spends.count denom

def valueOf (supply : Supply) : CAmount :=
  (zerocoinDenomList.map fun denom => zerocoinDenominationToAmount denom * supply denom).sum

/-- The one-time correction is due at a height, by the supply without it. -/
def isCorrected (nHeight : Int) (supply : Supply) : Bool :=
  decide (services.params.networkID = .main ∧
    nHeight = services.params.nFakeSerialBlockheightEnd + 1 ∧
    valueOf supply <
      nSupplyBeforeFakeSerial + getWrapppedSerialInflationAmount services.params)

def expectedSupply (nHeight : Int) (parent : Supply) (mints spends : List CoinDenomination) :
    Supply :=
  fun denom =>
    netSupply parent mints spends denom +
      if isCorrected services nHeight (netSupply parent mints spends) then
        getWrapppedSerialInflation services.params denom
      else 0

end Law

def SameCoins (first second : Supply) : Prop :=
  ∀ denom, denom ≠ .zqError → first denom = second denom

structure SameSupply (first second : SupplyEntry) : Prop where
  mints : first.vMintDenominationsInBlock = second.vMintDenominationsInBlock
  coins : SameCoins first.mapZerocoinSupply second.mapZerocoinSupply

theorem SameSupply.symm {first second : SupplyEntry} (same : SameSupply first second) :
    SameSupply second first where
  mints := same.mints.symm
  coins := fun denom key => (same.coins denom key).symm

theorem SameSupply.trans {first second third : SupplyEntry} (same : SameSupply first second)
    (next : SameSupply second third) : SameSupply first third where
  mints := same.mints.trans next.mints
  coins := fun denom key => (same.coins denom key).trans (next.coins denom key)

theorem mem_zerocoinDenomList (denom : CoinDenomination) :
    denom ∈ zerocoinDenomList ↔ denom ≠ .zqError := by
  cases denom <;> decide

theorem valueOf_congr (first second : Supply) (same : SameCoins first second) :
    valueOf first = valueOf second := by
  unfold valueOf
  congr 1
  apply map_congr_left
  intro denom key
  rw [same denom ((mem_zerocoinDenomList denom).mp key)]

theorem netSupply_congr (first second : Supply) (mints spends : List CoinDenomination)
    (same : SameCoins first second) :
    SameCoins (netSupply first mints spends) (netSupply second mints spends) := by
  intro denom key
  unfold netSupply
  rw [same denom key]

theorem expectedSupply_congr (services : SupplyServices) (nHeight : Int) (first second : Supply)
    (mints spends : List CoinDenomination) (same : SameCoins first second) :
    SameCoins (expectedSupply services nHeight first mints spends)
      (expectedSupply services nHeight second mints spends) := by
  intro denom key
  have net := netSupply_congr first second mints spends same
  unfold expectedSupply isCorrected
  rw [net denom key, valueOf_congr _ _ net]

section Parts

theorem addMints_supply (mints : List CoinDenomination) (entry : SupplyEntry) :
    (mints.foldl addMint entry).mapZerocoinSupply =
        netSupply entry.mapZerocoinSupply mints [] ∧
      (mints.foldl addMint entry).vMintDenominationsInBlock =
        entry.vMintDenominationsInBlock ++ mints := by
  induction mints generalizing entry with
  | nil =>
    constructor
    · funext denom
      simp [netSupply]
    · simp
  | cons mint rest ih =>
    obtain ⟨supply, list⟩ := ih (addMint entry mint)
    constructor
    · rw [foldl_cons, supply]
      funext denom
      simp only [netSupply, addMint, add, count_cons, count_nil, beq_iff_eq,
        @eq_comm _ mint denom]
      push_cast
      split_ifs <;> omega
    · rw [foldl_cons, list]
      simp [addMint, add]

theorem removeSpends_supply (spends : List CoinDenomination) (entry last : SupplyEntry)
    (removed : removeSpends entry spends = (last, .ok true)) :
    .zqError ∉ spends ∧ last.vMintDenominationsInBlock = entry.vMintDenominationsInBlock ∧
      last.mapZerocoinSupply = netSupply entry.mapZerocoinSupply [] spends := by
  induction spends generalizing entry with
  | nil =>
    cases removed
    refine ⟨not_mem_nil, rfl, ?_⟩
    funext denom
    simp [netSupply]
  | cons spend rest ih =>
    unfold removeSpends at removed
    split at removed
    · cases removed
    · rename_i key
      dsimp only at removed
      split at removed
      · cases removed
      · obtain ⟨keys, list, supply⟩ := ih _ removed
        refine ⟨?_, list, ?_⟩
        · intro member
          obtain here | later := mem_cons.mp member
          · exact key here.symm
          · exact keys later
        · rw [supply]
          funext denom
          simp only [netSupply, add, count_cons, count_nil, beq_iff_eq,
            @eq_comm _ spend denom]
          push_cast
          split_ifs <;> omega

theorem removeSpends_congr (spends : List CoinDenomination) (first second : SupplyEntry)
    (same : SameSupply first second) :
    (removeSpends first spends).2 = (removeSpends second spends).2 ∧
      SameSupply (removeSpends first spends).1 (removeSpends second spends).1 := by
  induction spends generalizing first second with
  | nil => exact ⟨rfl, same⟩
  | cons spend rest ih =>
    unfold removeSpends
    by_cases key : spend = .zqError
    · rw [if_pos key, if_pos key]
      exact ⟨rfl, same⟩
    · rw [if_neg key, if_neg key]
      have spent : SameSupply (first.add (fun _ => -1) spend) (second.add (fun _ => -1) spend) :=
        { mints := same.mints
          coins := fun denom isKey => by
            simp only [add, same.coins denom isKey] }
      have coins : (first.add (fun _ => -1) spend).getZcMints spend =
          (second.add (fun _ => -1) spend).getZcMints spend := spent.coins spend key
      dsimp only
      rw [coins]
      split
      · exact ⟨rfl, spent⟩
      · exact ih _ _ spent

variable (amount : CoinDenomination → Int)

theorem addEach_supply (entry : SupplyEntry)
    (denom : CoinDenomination) (key : denom ≠ .zqError) :
    (zerocoinDenomList.foldl (fun entry denom => entry.add amount denom) entry).mapZerocoinSupply
        denom =
      entry.mapZerocoinSupply denom + amount denom := by
  cases denom <;> first | exact absurd rfl key | simp [zerocoinDenomList, add]

theorem addEach_mints (list : List CoinDenomination)
    (entry : SupplyEntry) :
    (list.foldl (fun entry denom => entry.add amount denom) entry).vMintDenominationsInBlock =
      entry.vMintDenominationsInBlock := by
  induction list generalizing entry with
  | nil => rfl
  | cons denom rest ih => exact ih (entry.add amount denom)

end Parts

section Update

variable (services : SupplyServices)

theorem addWrappedInflation_supply (nHeight : Int) (entry : SupplyEntry) :
    (addWrappedInflation services nHeight entry).vMintDenominationsInBlock =
        entry.vMintDenominationsInBlock ∧
      ∀ denom, denom ≠ .zqError →
        (addWrappedInflation services nHeight entry).mapZerocoinSupply denom =
          entry.mapZerocoinSupply denom +
            if isCorrected services nHeight entry.mapZerocoinSupply then
              getWrapppedSerialInflation services.params denom
            else 0 := by
  unfold addWrappedInflation
  by_cases due : services.params.networkID = .main ∧
      nHeight = services.params.nFakeSerialBlockheightEnd + 1 ∧
      entry.getZerocoinSupply <
        nSupplyBeforeFakeSerial + getWrapppedSerialInflationAmount services.params
  · have isDue : isCorrected services nHeight entry.mapZerocoinSupply = true :=
      decide_eq_true due
    rw [if_pos due, isDue]
    refine ⟨addEach_mints _ _ _, ?_⟩
    intro denom key
    exact addEach_supply _ _ _ key
  · have notDue : isCorrected services nHeight entry.mapZerocoinSupply = false :=
      decide_eq_false due
    rw [if_neg due, notDue]
    refine ⟨rfl, ?_⟩
    intro denom _
    exact (Int.add_zero _).symm

theorem addWrappedInflation_congr (nHeight : Int) (first second : SupplyEntry)
    (same : SameSupply first second) :
    SameSupply (addWrappedInflation services nHeight first)
      (addWrappedInflation services nHeight second) := by
  have firstSupply := addWrappedInflation_supply services nHeight first
  have secondSupply := addWrappedInflation_supply services nHeight second
  constructor
  · rw [firstSupply.1, secondSupply.1]
    exact same.mints
  · intro denom key
    have corrected : isCorrected services nHeight first.mapZerocoinSupply =
        isCorrected services nHeight second.mapZerocoinSupply := by
      unfold isCorrected
      rw [valueOf_congr _ _ same.coins]
    rw [firstSupply.2 denom key, secondSupply.2 denom key, same.coins denom key, corrected]

variable (block : CBlock) (pprev : CBlockIndex)

def filtersInvalid : Bool :=
  decide (nBlockRecalculateAccumulators services.params ≤ pprev.nHeight + 1)

def FollowsParent (parent own : SupplyEntry) : Prop :=
  ∃ mints spends,
    denominationLists services block (filtersInvalid services pprev) = .ok (mints, spends) ∧
    .zqError ∉ spends ∧ own.vMintDenominationsInBlock = mints ∧
    SameCoins own.mapZerocoinSupply
      (expectedSupply services (pprev.nHeight + 1) parent.mapZerocoinSupply mints spends)

def ListsMints (own : SupplyEntry) : Prop :=
  ∃ mints spends,
    denominationLists services block (filtersInvalid services pprev) = .ok (mints, spends) ∧
    own.vMintDenominationsInBlock = mints

theorem FollowsParent.congr {parent parent' own own' : SupplyEntry}
    (follows : FollowsParent services block pprev parent own)
    (sameParent : SameCoins parent.mapZerocoinSupply parent'.mapZerocoinSupply)
    (sameOwn : SameSupply own own') : FollowsParent services block pprev parent' own' := by
  obtain ⟨mints, spends, lists, keys, mintList, supply⟩ := follows
  refine ⟨mints, spends, lists, keys, sameOwn.mints.symm.trans mintList, ?_⟩
  intro denom key
  have expected := expectedSupply_congr services (pprev.nHeight + 1) _ _ mints spends sameParent
  rw [← sameOwn.coins denom key, supply denom key, expected denom key]

theorem present_of_version (behind : 3 < headerVersion pprev) : pprev ≠ [] := by
  intro empty
  subst empty
  exact absurd behind (by decide)

theorem updateZZNNSupply_ok (present : pprev ≠ []) (parent own last : SupplyEntry)
    (updated : updateZZNNSupply services block pprev parent own = (last, .ok true)) :
    ∃ mints spends spent,
      denominationLists services block (filtersInvalid services pprev) = .ok (mints, spends) ∧
      removeSpends (mints.foldl addMint
        { initialSupply pprev parent own with vMintDenominationsInBlock := [] }) spends =
          (spent, .ok true) ∧
      last = addWrappedInflation services (pprev.nHeight + 1) spent := by
  unfold updateZZNNSupply at updated
  dsimp only at updated
  split at updated
  · cases updated
  · rename_i mints spends lists
    rw [isEmpty_eq_false_iff.mpr present, if_neg (by decide)] at updated
    split at updated
    · rename_i spent removed
      exact ⟨mints, spends, spent, lists, removed, (Prod.mk.inj updated).1.symm⟩
    · rename_i failed
      exact absurd updated (failed last)

theorem updateZZNNSupply_mints (present : pprev ≠ []) (parent own last : SupplyEntry)
    (updated : updateZZNNSupply services block pprev parent own = (last, .ok true)) :
    ListsMints services block pprev last := by
  rcases updateZZNNSupply_ok services block pprev present parent own last updated with
    ⟨mints, spends, spent, lists, removed, result⟩
  subst result
  refine ⟨mints, spends, lists, ?_⟩
  rw [(addWrappedInflation_supply services _ spent).1,
    (removeSpends_supply spends _ spent removed).2.1, (addMints_supply mints _).2, nil_append]

/-- Behind a header of version four or above an update gives the entry the
supply that follows from its parent's. -/
theorem updateZZNNSupply_follows (behind : 3 < headerVersion pprev)
    (parent own last : SupplyEntry)
    (updated : updateZZNNSupply services block pprev parent own = (last, .ok true)) :
    FollowsParent services block pprev parent last := by
  have present := present_of_version pprev behind
  rcases updateZZNNSupply_ok services block pprev present parent own last updated with
    ⟨mints, spends, spent, lists, removed, result⟩
  subst result
  obtain ⟨keys, list, supply⟩ := removeSpends_supply spends _ spent removed
  rcases addMints_supply mints
    { initialSupply pprev parent own with vMintDenominationsInBlock := [] } with
    ⟨minted, mintList⟩
  have corrected := addWrappedInflation_supply services (pprev.nHeight + 1) spent
  have net : SameCoins spent.mapZerocoinSupply
      (netSupply parent.mapZerocoinSupply mints spends) := by
    intro denom key
    rw [supply, minted]
    unfold initialSupply
    rw [if_pos behind]
    simp only [netSupply, (mem_zerocoinDenomList denom).mpr key, if_true, getZcMints,
      count_nil]
    push_cast
    omega
  refine ⟨mints, spends, lists, keys, ?_, ?_⟩
  · rw [corrected.1, list, mintList, nil_append]
  · intro denom key
    rw [corrected.2 denom key, net denom key]
    unfold expectedSupply isCorrected
    rw [valueOf_congr _ _ net]

theorem updateZZNNSupply_congr (behind : 3 < headerVersion pprev)
    (parent parent' own own' : SupplyEntry)
    (same : SameCoins parent.mapZerocoinSupply parent'.mapZerocoinSupply) :
    (updateZZNNSupply services block pprev parent own).2 =
        (updateZZNNSupply services block pprev parent' own').2 ∧
      ((updateZZNNSupply services block pprev parent own).2 = .ok true →
        SameSupply (updateZZNNSupply services block pprev parent own).1
          (updateZZNNSupply services block pprev parent' own').1) := by
  unfold updateZZNNSupply
  dsimp only
  rw [isEmpty_eq_false_iff.mpr (present_of_version pprev behind)]
  cases lists : denominationLists services block
      (decide (nBlockRecalculateAccumulators services.params ≤ pprev.nHeight + 1)) with
  | error fault => exact ⟨rfl, fun succeeds => by cases succeeds⟩
  | ok pair =>
    obtain ⟨mints, spends⟩ := pair
    dsimp only
    rw [if_neg (by decide), if_neg (by decide)]
    have start : ∀ denom, denom ≠ .zqError →
        (initialSupply pprev parent own).mapZerocoinSupply denom =
          (initialSupply pprev parent' own').mapZerocoinSupply denom := by
      intro denom key
      unfold initialSupply
      rw [if_pos behind, if_pos behind]
      simp only [(mem_zerocoinDenomList denom).mpr key, if_true]
      exact same denom key
    have first := addMints_supply mints
      { initialSupply pprev parent own with vMintDenominationsInBlock := [] }
    have second := addMints_supply mints
      { initialSupply pprev parent' own' with vMintDenominationsInBlock := [] }
    have minted : SameSupply
        (mints.foldl addMint { initialSupply pprev parent own with
          vMintDenominationsInBlock := [] })
        (mints.foldl addMint { initialSupply pprev parent' own' with
          vMintDenominationsInBlock := [] }) :=
      { mints := first.2.trans second.2.symm
        coins := by
          rw [first.1, second.1]
          exact netSupply_congr _ _ mints [] start }
    obtain ⟨result, spent⟩ := removeSpends_congr spends _ _ minted
    revert result spent
    generalize removeSpends (mints.foldl addMint { initialSupply pprev parent own with
      vMintDenominationsInBlock := [] }) spends = firstRemoved
    generalize removeSpends (mints.foldl addMint { initialSupply pprev parent' own' with
      vMintDenominationsInBlock := [] }) spends = secondRemoved
    intro result spent
    obtain ⟨firstEntry, outcome⟩ := firstRemoved
    obtain ⟨secondEntry, outcome'⟩ := secondRemoved
    dsimp only at result spent
    subst result
    obtain fault | success := outcome
    · exact ⟨rfl, fun succeeds => by cases succeeds⟩
    · cases success with
      | false => exact ⟨rfl, fun succeeds => by cases succeeds⟩
      | true =>
        exact ⟨rfl, fun _ => addWrappedInflation_congr services _ firstEntry secondEntry spent⟩

/-- The update of an entry succeeds and leaves the supply it has. -/
structure Settled (parent own : SupplyEntry) : Prop where
  accepted : (updateZZNNSupply services block pprev parent own).2 = .ok true
  same : SameSupply (updateZZNNSupply services block pprev parent own).1 own

theorem settled_of_update (behind : 3 < headerVersion pprev) (parent own : SupplyEntry)
    (updated : (updateZZNNSupply services block pprev parent own).2 = .ok true) :
    Settled services block pprev parent (updateZZNNSupply services block pprev parent own).1 := by
  have again := updateZZNNSupply_congr services block pprev behind parent parent own
    (updateZZNNSupply services block pprev parent own).1 (fun _ _ => rfl)
  exact
    { accepted := again.1.symm.trans updated
      same := (again.2 updated).symm }

theorem Settled.congr (behind : 3 < headerVersion pprev) {parent parent' own own' : SupplyEntry}
    (settled : Settled services block pprev parent own)
    (sameParent : SameCoins parent.mapZerocoinSupply parent'.mapZerocoinSupply)
    (sameOwn : SameSupply own own') : Settled services block pprev parent' own' := by
  have again := updateZZNNSupply_congr services block pprev behind parent parent' own own'
    sameParent
  exact
    { accepted := again.1.symm.trans settled.accepted
      same := ((again.2 settled.accepted).symm.trans settled.same).trans sameOwn }

theorem Settled.follows (behind : 3 < headerVersion pprev) {parent own : SupplyEntry}
    (settled : Settled services block pprev parent own) :
    FollowsParent services block pprev parent own := by
  rcases updateZZNNSupply_follows services block pprev behind parent own
      (updateZZNNSupply services block pprev parent own).1
      (Prod.ext rfl settled.accepted) with
    ⟨mints, spends, lists, keys, mintList, supply⟩
  refine ⟨mints, spends, lists, keys, settled.same.mints.symm.trans mintList, ?_⟩
  intro denom key
  exact (settled.same.coins denom key).symm.trans (supply denom key)

end Update

section Recalculation

variable (services : SupplyServices)

variable (spends : List CoinDenomination) (entry : SupplyEntry)

theorem removeAllSpends_supply (keys : .zqError ∉ spends) :
    (removeAllSpends entry spends).2 = .ok () ∧
      (removeAllSpends entry spends).1.vMintDenominationsInBlock =
        entry.vMintDenominationsInBlock ∧
      (removeAllSpends entry spends).1.mapZerocoinSupply =
        netSupply entry.mapZerocoinSupply [] spends := by
  induction spends generalizing entry with
  | nil =>
    refine ⟨rfl, rfl, ?_⟩
    funext denom
    simp [removeAllSpends, netSupply]
  | cons spend rest ih =>
    rw [mem_cons, not_or] at keys
    obtain ⟨done, list, supply⟩ := ih (entry.add (fun _ => -1) spend) keys.2
    unfold removeAllSpends
    rw [if_neg (fun isError => keys.1 isError.symm)]
    refine ⟨done, list, ?_⟩
    rw [supply]
    funext denom
    simp only [netSupply, add, count_cons, count_nil, beq_iff_eq,
      @eq_comm _ spend denom]
    push_cast
    split_ifs <;> omega

theorem removeAllSpends_mints :
    (removeAllSpends entry spends).1.vMintDenominationsInBlock =
      entry.vMintDenominationsInBlock := by
  induction spends generalizing entry with
  | nil => rfl
  | cons spend rest ih =>
    unfold removeAllSpends
    split
    · rfl
    · exact ih _

theorem recalculatedSupply_mints (nHeight : Int) (parent own : SupplyEntry)
    (spends : List CoinDenomination) :
    (recalculatedSupply services nHeight parent own spends).1.vMintDenominationsInBlock =
      own.vMintDenominationsInBlock := by
  have minted := addEach_mints (fun denom => (own.vMintDenominationsInBlock.count denom : Int))
    zerocoinDenomList { own with mapZerocoinSupply := parent.mapZerocoinSupply }
  unfold recalculatedSupply
  dsimp only
  generalize zerocoinDenomList.foldl (fun (entry : SupplyEntry) denom =>
    entry.add (fun denom => (own.vMintDenominationsInBlock.count denom : Int)) denom)
    { own with mapZerocoinSupply := parent.mapZerocoinSupply } = mintedEntry at minted ⊢
  have kept := removeAllSpends_mints spends mintedEntry
  generalize removeAllSpends mintedEntry spends = removed at kept ⊢
  obtain ⟨spent, fault | done⟩ := removed
  · exact kept.trans minted
  · dsimp only at kept ⊢
    split
    · rw [addEach_mints]
      exact kept.trans minted
    · exact kept.trans minted

theorem denominationLists_spends (block : CBlock) (fFilterInvalid : Bool)
    (mints spends : List CoinDenomination)
    (lists : denominationLists services block fFilterInvalid = .ok (mints, spends)) :
    (∃ listMints, blockToZerocoinMintList services fFilterInvalid block.vtx = .ok listMints ∧
        listMints.map PublicCoin.denomination = mints) ∧
      zerocoinSpendListFromBlock services block fFilterInvalid = .ok spends := by
  unfold denominationLists at lists
  simp only [bind_eq_ok, Except.ok.injEq, Prod.mk.injEq] at lists
  obtain ⟨listMints, minted, listSpends, spent, same, sameSpends⟩ := lists
  rw [← sameSpends]
  exact ⟨⟨listMints, minted, same⟩, spent⟩

/-- The recalculation gives an entry the supply that follows from its parent's, if nothing is
corrected. -/
theorem recalculatedSupply_follows (block : CBlock) (pprev : CBlockIndex)
    (parent own : SupplyEntry) (filters : filtersInvalid services pprev = true)
    (ordinary : pprev.nHeight + 1 ≠ services.params.nFakeSerialBlockheightEnd + 1)
    (follows : FollowsParent services block pprev parent own)
    (spends : List CoinDenomination)
    (spent : zerocoinSpendListFromBlock services block true = .ok spends) :
    (recalculatedSupply services (pprev.nHeight + 1) parent own spends).2 = .ok () ∧
      SameSupply (recalculatedSupply services (pprev.nHeight + 1) parent own spends).1 own := by
  obtain ⟨mints, listed, lists, keys, mintList, supply⟩ := follows
  rw [filters] at lists
  have sameSpends := (denominationLists_spends services block true mints listed lists).2
  rw [spent] at sameSpends
  cases sameSpends
  have minted : ∀ denom, denom ≠ .zqError →
      (zerocoinDenomList.foldl (fun (entry : SupplyEntry) denom =>
        entry.add (fun denom => (own.vMintDenominationsInBlock.count denom : Int)) denom)
        { own with mapZerocoinSupply := parent.mapZerocoinSupply }).mapZerocoinSupply denom =
      parent.mapZerocoinSupply denom + (own.vMintDenominationsInBlock.count denom : Int) :=
    fun denom key => addEach_supply _ _ denom key
  have mintedList := addEach_mints
    (fun denom => (own.vMintDenominationsInBlock.count denom : Int)) zerocoinDenomList
    { own with mapZerocoinSupply := parent.mapZerocoinSupply }
  revert minted mintedList
  unfold recalculatedSupply
  dsimp only
  generalize zerocoinDenomList.foldl (fun (entry : SupplyEntry) denom =>
    entry.add (fun denom => (own.vMintDenominationsInBlock.count denom : Int)) denom)
    { own with mapZerocoinSupply := parent.mapZerocoinSupply } = mintedEntry
  intro minted mintedList
  obtain ⟨done, list, net⟩ := removeAllSpends_supply spends mintedEntry keys
  revert done list net
  generalize removeAllSpends mintedEntry spends = removed
  intro done list net
  obtain ⟨entry, result⟩ := removed
  dsimp only at done list net
  subst done
  dsimp only
  rw [if_neg ordinary]
  refine ⟨rfl, list.trans mintedList, ?_⟩
  intro denom key
  have notCorrected : isCorrected services (pprev.nHeight + 1)
      (netSupply parent.mapZerocoinSupply mints spends) = false :=
    decide_eq_false fun due => ordinary due.2.1
  rw [supply denom key, net]
  unfold expectedSupply netSupply
  rw [minted denom key, mintList, count_nil]
  unfold netSupply at notCorrected
  rw [notCorrected, if_neg (by decide)]
  push_cast
  omega

end Recalculation

end ZenonCore.SupplyLaw
