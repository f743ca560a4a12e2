import ZenonCore.BlockValueSums
import ZenonCore.ForkSerials

/-!
# The value of zerocoin inputs

`GetValueIn` takes the `nSequence` of private spends, `ConnectBlock` adds every denomination;
`CheckZerocoinSpend` compares the two.
-/

namespace ZenonCore.ZerocoinValue

open BlockValueSums Chainstate CheckBlock Coins List Bool
open ConnectBlock ForkSerials Primitives Validation
open ValueGate Zerocoin
open Script (op1)

section Inputs

variable (services : Services) (node : NodeState) (tx : CTransaction)

def statedCredit (txin : CTxIn) : Int :=
  if txin.isZerocoinSpend then txin.nSequence.toNat * coin else 0

def publicCredit (txin : CTxIn) : Int :=
  if txin.isZerocoinPublicSpend then creditOf services node tx txin else 0

/-- By how much the `nSequence` of a private spend is above its denomination. -/
def overstatedCredit (txin : CTxIn) : Int :=
  if txin.isZerocoinSpend then statedCredit txin - creditOf services node tx txin else 0

/-- The denominations of the public spends of a transaction. -/
def publicValue : Int := (tx.vin.map (publicCredit services node tx)).sum

/-- What the private spends of a transaction overstate together. -/
def overstatedValue : Int := (tx.vin.map (overstatedCredit services node tx)).sum

theorem statedCredit_eq (txin : CTxIn) :
    statedCredit txin + publicCredit services node tx txin =
      creditOf services node tx txin + overstatedCredit services node tx txin := by
  unfold publicCredit overstatedCredit
  cases isPrivate : txin.isZerocoinSpend with
  | true =>
    rw [privateSpend_not_public txin isPrivate]
    simp only [false_eq_true, if_false, if_true, Int.add_zero]
    exact (add_sub_cancel _ _).symm
  | false =>
    have nothing : statedCredit txin = 0 := by
      unfold statedCredit
      rw [isPrivate]
      rfl
    simp only [false_eq_true, if_false, nothing, Int.zero_add, Int.add_zero]
    cases isPublic : txin.isZerocoinPublicSpend with
    | true => rfl
    | false =>
      unfold creditOf CTxIn.spendsZerocoin
      rw [isPrivate, isPublic]
      rfl

theorem getZerocoinSpent_eq :
    (getZerocoinSpent tx : Int) + publicValue services node tx =
      (tx.vin.map (creditOf services node tx)).sum + overstatedValue services node tx := by
  have stated : (getZerocoinSpent tx : Int) = (tx.vin.map statedCredit).sum := rfl
  unfold publicValue overstatedValue
  rw [stated, ← sum_map_add, ← sum_map_add]
  apply congrArg sum
  apply map_congr_left
  intro txin _
  exact statedCredit_eq services node tx txin

def StatesDenominations : Prop :=
  ∀ txin ∈ tx.vin, txin.isZerocoinSpend = true →
    ∀ spend, txInToZerocoinSpend services.lib txin = .ok spend →
      zerocoinDenominationToInt spend.denomination = txin.nSequence.toNat

theorem overstatedValue_of_stated (stated : StatesDenominations services tx)
    (read : ∀ txin ∈ tx.vin, txin.spendsZerocoin = true →
      ∃ spend, readSpend services node tx txin = .ok spend) :
    overstatedValue services node tx = 0 := by
  unfold overstatedValue
  have each : ∀ txin ∈ tx.vin, overstatedCredit services node tx txin = 0 := by
    intro txin there
    unfold overstatedCredit statedCredit
    cases isPrivate : txin.isZerocoinSpend with
    | false => rfl
    | true =>
      have spends : txin.spendsZerocoin = true := by
        unfold CTxIn.spendsZerocoin
        rw [isPrivate]
        rfl
      obtain ⟨spend, found⟩ := read txin there spends
      have credit : creditOf services node tx txin =
          zerocoinDenominationToInt spend.coinSpend.denomination * coin := by
        unfold creditOf
        rw [if_pos spends, found]
      unfold readSpend at found
      rw [privateSpend_not_public txin isPrivate] at found
      simp only [false_eq_true, if_false, bind_eq_ok, ofFault_eq_ok] at found
      obtain ⟨coinSpend, parsed, same⟩ := found
      have denomination := stated txin there isPrivate coinSpend parsed
      rw [← Except.ok.inj same] at credit
      unfold Spend.coinSpend at credit
      rw [denomination] at credit
      rw [if_pos rfl, if_pos rfl, credit]
      exact Int.sub_self _
  rw [map_congr_left each]
  simp

theorem readSpend_public (txin : CTxIn) (spend : Spend)
    (isPublic : txin.isZerocoinPublicSpend = true)
    (read : readSpend services node tx txin = .ok spend) :
    spend.coinSpend.denomination ≠ .zqError := by
  unfold readSpend parseZerocoinPublicSpend at read
  rw [if_pos isPublic] at read
  simp only [bind_eq_ok, orDos_eq_ok, dos, ofFault_eq_ok, ofOption_eq_ok] at read
  obtain ⟨publicSpend, ⟨prevOut, _, parsed, parsing, found⟩, same⟩ := read
  rw [found] at parsing
  unfold parseCoinSpend at parsing
  split_ifs at parsing
  · cases parsing
  · rw [bind_eq_ok] at parsing
    obtain ⟨data, _, coins⟩ := parsing
    rw [bind_eq_ok] at coins
    obtain ⟨pubCoin, minted, result⟩ := coins
    cases pubCoin with
    | none => cases result
    | some pubCoin =>
      have denomination : spend.coinSpend.denomination = pubCoin.denomination := by
        rw [← Except.ok.inj same]
        cases result
        rfl
      rw [denomination]
      unfold txOutToPublicCoin at minted
      rw [bind_eq_ok] at minted
      obtain ⟨vchZeroMint, _, made⟩ := minted
      dsimp only at made
      split_ifs at made with invalid
      · cases made
      · cases made
        exact invalid

theorem denomination_pos (denomination : CoinDenomination) (valid : denomination ≠ .zqError) :
    0 < zerocoinDenominationToInt denomination * coin := by
  cases denomination with
  | zqError => exact absurd rfl valid
  | _ => decide

/-- The public spends of a transaction that can be read have a value exactly if
there are some. -/
theorem publicValue_eq_zero
    (read : ∀ txin ∈ tx.vin, txin.spendsZerocoin = true →
      ∃ spend, readSpend services node tx txin = .ok spend) :
    publicValue services node tx = 0 ↔ tx.hasZerocoinPublicSpendInputs = false := by
  have nonneg : ∀ amount ∈ tx.vin.map (publicCredit services node tx), 0 ≤ amount := by
    intro amount there
    obtain ⟨txin, _, same⟩ := mem_map.mp there
    rw [← same]
    unfold publicCredit
    split
    · exact creditOf_nonneg services node tx txin
    · exact Int.le_refl 0
  unfold publicValue
  constructor
  · intro nothing
    apply eq_false_iff.mpr
    intro some
    obtain ⟨txin, there, isPublic⟩ := any_eq_true.mp some
    have spends : txin.spendsZerocoin = true := by
      unfold CTxIn.spendsZerocoin
      rw [isPublic, Bool.or_true]
    obtain ⟨spend, found⟩ := read txin there spends
    have positive := denomination_pos spend.coinSpend.denomination
      (readSpend_public services node tx txin spend isPublic found)
    have credit : publicCredit services node tx txin =
        zerocoinDenominationToInt spend.coinSpend.denomination * coin := by
      unfold publicCredit creditOf
      rw [if_pos isPublic, if_pos spends, found]
    have most := single_le_sum nonneg _
      (mem_map.mpr ⟨txin, there, rfl⟩)
    rw [nothing, credit] at most
    exact absurd positive (not_lt.mpr most)
  · intro none
    have each : ∀ txin ∈ tx.vin, publicCredit services node tx txin = 0 := by
      intro txin there
      have notPublic : txin.isZerocoinPublicSpend = false := by
        apply eq_false_iff.mpr
        intro isPublic
        have some := any_eq_true.mpr ⟨txin, there, isPublic⟩
        unfold CTransaction.hasZerocoinPublicSpendInputs at none
        rw [none] at some
        cases some
      unfold publicCredit
      rw [notPublic]
      rfl
    rw [map_congr_left each]
    simp

end Inputs

section Checked

variable (services : Services) (here : LocalState) (node : NodeState) (tx : CTransaction)

theorem checkTransaction_states (fFakeSerialAttack : Bool)
    (zerocoin : tx.hasZerocoinSpendInputs = true)
    (checked : checkTransaction services here node tx true fFakeSerialAttack = .ok ()) :
    StatesDenominations services tx := by
  have spends := checkTransaction_spends services here node tx fFakeSerialAttack zerocoin checked
  unfold checkZerocoinSpend at spends
  simp only [bind_eq_ok, dos, require_eq_ok, exists_and_left, exists_const] at spends
  obtain ⟨_, redeemed, loop, _⟩ := spends
  intro txin there isPrivate spend parsed
  have isSpend : txin.spendsZerocoin = true := by
    unfold CTxIn.spendsZerocoin
    rw [isPrivate]
    rfl
  obtain ⟨before, after, round⟩ := foldlM_visits _ tx.vin _ redeemed loop txin there
  unfold redeemInput readRedeemed at round
  rw [isSpend, privateSpend_not_public txin isPrivate] at round
  simp only [Bool.not_true, Bool.false_eq_true, if_false, bind_eq_ok, dos, require_eq_ok,
    ofFault_eq_ok, exists_and_left, exists_const] at round
  obtain ⟨_, ⟨newSpend, read, same⟩, _, denomination, _⟩ := round
  rw [parsed] at read
  rw [← Except.ok.inj same, ← Except.ok.inj read] at denomination
  exact eq_of_beq denomination

theorem connectZerocoin_reads (nHeight : Int) (acc last : Connecting)
    (connected : connectZerocoin services node nHeight tx acc = .ok last) :
    ∀ txin ∈ tx.vin, txin.spendsZerocoin = true →
      ∃ spend, readSpend services node tx txin = .ok spend := by
  intro txin there spends
  unfold connectZerocoin at connected
  simp only [bind_eq_ok] at connected
  obtain ⟨_, _, spent, spending, _⟩ := connected
  obtain ⟨before, after, round⟩ := foldlM_visits _ tx.vin acc spent spending txin there
  rcases connectSpend_ok services node nHeight tx before after txin round with
    ⟨ordinary, _⟩ | ⟨_, spend, accepted, _⟩
  · rw [ordinary] at spends
    cases spends
  · exact ⟨spend, accepted.read⟩

end Checked

/-- `GetValueIn` gives what `ConnectBlock` adds exactly if the private spends overstate as much as
the public ones are worth; where `CheckTransaction` accepts, if there is no public spend. -/
theorem zerocoin_value_agrees_iff (services : Services) (node : NodeState) (nHeight : Int)
    (tx : CTransaction) (view : CCoinsView) (acc last : Connecting)
    (zerocoin : tx.hasZerocoinSpendInputs = true)
    (connected : connectZerocoin services node nHeight tx acc = .ok last) :
    (getValueIn view tx = some (last.nValueIn - acc.nValueIn) ↔
        overstatedValue services node tx = publicValue services node tx) ∧
      ((∃ here checkedNode fFakeSerialAttack,
          checkTransaction services here checkedNode tx true fFakeSerialAttack = .ok ()) →
        (getValueIn view tx = some (last.nValueIn - acc.nValueIn) ↔
          tx.hasZerocoinPublicSpendInputs = false)) := by
  have reads := connectZerocoin_reads services node tx nHeight acc last connected
  have added := (connectZerocoin_taken services node nHeight tx acc last zerocoin connected).spent
  have counts := getZerocoinSpent_eq services node tx
  have notCoinBase : tx.isCoinBase = false := by
    apply eq_false_iff.mpr
    intro coinBase
    rw [(coinBase_no_zerocoin tx coinBase).1] at zerocoin
    cases zerocoin
  have stated : getValueIn view tx = some (getZerocoinSpent tx) := by
    unfold getValueIn
    rw [notCoinBase, zerocoin]
    rfl
  have value : valueIn services node acc.view tx =
      (tx.vin.map (creditOf services node tx)).sum := by
    unfold valueIn
    rw [if_pos zerocoin]
  have agrees : getValueIn view tx = some (last.nValueIn - acc.nValueIn) ↔
      overstatedValue services node tx = publicValue services node tx := by
    rw [stated, Option.some_inj, added, value]
    have difference : ∀ spent credits before stated credited : Int,
        spent + stated = credited + credits →
          (spent = before + credited - before ↔ credits = stated) := by
      omega
    exact difference _ _ _ _ _ counts
  refine ⟨agrees, ?_⟩
  rintro ⟨here, checkedNode, fFakeSerialAttack, checked⟩
  have denominations := checkTransaction_states services here checkedNode tx fFakeSerialAttack
    zerocoin checked
  rw [agrees, overstatedValue_of_stated services node tx denominations reads,
    ← publicValue_eq_zero services node tx reads]
  exact eq_comm

/-- A library whose one public spend is that of the coin with value five. -/
def fivePublicSpend : Libzerocoin :=
  { onePublicSpend with
    hasValidSignature := fun _ => some true
    commitmentValue := fun _ _ => 5 }

def spendServices : Services := { mainnetServices with lib := fivePublicSpend }

def publicSpendTx : CTransaction :=
  { wrongDenominationTx with
    vin := [{ prevout := { hash := 11, n := 0 }, scriptSig := [0xc3, 0, 0, 0], nSequence := 10 }] }

def emptyConnecting : Connecting := Connecting.start mintedNode.pcoinsTip

theorem publicSpendTx_checked :
    checkTransaction spendServices quietNode mintedNode publicSpendTx true false = .ok () := by
  decide +kernel

theorem publicSpendTx_connected :
    ∃ last, connectZerocoin spendServices mintedNode 2 publicSpendTx emptyConnecting = .ok last := by
  have succeeds : (connectZerocoin spendServices mintedNode 2 publicSpendTx
      emptyConnecting).isOk = true := by
    decide +kernel
  cases outcome : connectZerocoin spendServices mintedNode 2 publicSpendTx emptyConnecting with
  | error failure => rw [outcome] at succeeds; cases succeeds
  | ok last => exact ⟨last, rfl⟩

theorem public_spend_is_not_counted :
    ∃ last, connectZerocoin spendServices mintedNode 2 publicSpendTx emptyConnecting = .ok last ∧
      getValueIn mintedNode.pcoinsTip publicSpendTx ≠
        some (last.nValueIn - emptyConnecting.nValueIn) := by
  obtain ⟨last, connected⟩ := publicSpendTx_connected
  have agrees := zerocoin_value_agrees_iff spendServices mintedNode 2 publicSpendTx
    mintedNode.pcoinsTip emptyConnecting last (by decide +kernel) connected
  refine ⟨last, connected, ?_⟩
  intro same
  have none := (agrees.2 ⟨quietNode, mintedNode, false, publicSpendTx_checked⟩).mp same
  exact absurd none (by decide +kernel)

/-- The two values of a public spend differ. -/
theorem zerocoin_values_differ :
    ¬ ∀ (services : Services) (node : NodeState) (nHeight : Int) (tx : CTransaction)
        (view : CCoinsView) (acc last : Connecting),
      tx.hasZerocoinSpendInputs = true →
      connectZerocoin services node nHeight tx acc = .ok last →
      getValueIn view tx = some (last.nValueIn - acc.nValueIn) := by
  intro agree
  obtain ⟨last, connected⟩ := publicSpendTx_connected
  have same := agree spendServices mintedNode 2 publicSpendTx mintedNode.pcoinsTip
    emptyConnecting last (by decide +kernel) connected
  have added := (connectZerocoin_taken spendServices mintedNode 2 publicSpendTx emptyConnecting
    last (by decide +kernel) connected).spent
  have nothing : getValueIn mintedNode.pcoinsTip publicSpendTx = some 0 := by decide +kernel
  have ten : valueIn spendServices mintedNode emptyConnecting.view publicSpendTx = 10 * coin := by
    decide +kernel
  rw [nothing, added, ten, Option.some_inj, add_sub_cancel_left] at same
  exact absurd same (by decide)

end ZenonCore.ZerocoinValue
