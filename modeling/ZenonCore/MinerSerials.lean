import ZenonCore.AssembledBlocks
import ZenonCore.PoolSerials

/-!
# The serial numbers of a block that is assembled

A serial number is noted as soon as it is compared, before the rest of the transaction is
checked, and never forgotten.
-/

namespace ZenonCore.MinerSerials

open AssembledBlocks BlockTemplate Chainstate CheckBlock List
open Coins Mempool Primitives PoolSerials
open Serials Strictness Validation Zerocoin
open ChainParams (mainParams)
open ChainTip (fileEntries)
open Library.Runs
open Script (op1)
open UnspentOutputs (blockCoins)
open ValueGate (exampleBlock genesisBlock mainnetServices mintedNode onePublicSpend
  quietNode)

section Inputs

variable {δ : Type} (mining : Mining δ) (services : Services) (node : NodeState)
  (tx : CTransaction) (vBlockSerials : List Int)

/-- `HasValidSerial`, with the parameters that go with the serial number's version. -/
def validSerial (spend : Spend) : Bool :=
  services.lib.hasValidSerial
    (decide (mining.extractVersionFromSerial spend.coinSpend.coinSerialNumber < pubkeyVersion))
    spend.coinSpend

theorem spendOf_serial (txIn : CTxIn) (spend : Spend)
    (read : spendOf services node tx txIn = .ok spend) :
    spentSerial services.lib txIn = some spend.coinSpend.coinSerialNumber := by
  have readable : readSpend services node tx txIn = .ok spend := by
    unfold spendOf at read
    split at read
    · rename_i found
      rw [found, Except.ok.inj read]
    · cases read
    · cases read
  unfold readSpend at readable
  unfold spentSerial
  split_ifs at readable ⊢
  · simp only [bind_eq_ok] at readable
    obtain ⟨publicSpend, parsed, result⟩ := readable
    cases result
    unfold parseZerocoinPublicSpend at parsed
    simp only [bind_eq_ok, orDos_eq_ok, ofFault_eq_ok, dos, ofOption_eq_ok] at parsed
    obtain ⟨prevOut, _, found, same, isSome⟩ := parsed
    rw [isSome] at same
    obtain ⟨raw, readRaw, serial⟩ := parseCoinSpend_serial _ _ _ _ _ same
    rw [readRaw]
    exact congrArg some serial.symm
  · simp only [bind_eq_ok, ofFault_eq_ok] at readable
    obtain ⟨found, parsed, result⟩ := readable
    cases result
    rw [parsed]
    rfl

variable (vTxSerials : List Int) (txIn : CTxIn) (rest : List CTxIn)

theorem checkSerials_zerocoin
    (spend : Spend) (zerocoin : txIn.spendsZerocoin = true)
    (read : spendOf services node tx txIn = .ok spend) :
    checkSerials mining services node tx vBlockSerials vTxSerials (txIn :: rest) =
      if !validSerial mining services spend ||
          vBlockSerials.contains spend.coinSpend.coinSerialNumber ||
          vTxSerials.contains spend.coinSpend.coinSerialNumber then
        .ok (true, vTxSerials)
      else
        checkSerials mining services node tx vBlockSerials
          (vTxSerials ++ [spend.coinSpend.coinSerialNumber]) rest := by
  rw [checkSerials, if_neg (by simp [zerocoin]), read]
  rfl

theorem checkSerials_ordinary
    (ordinary : txIn.spendsZerocoin = false) :
    checkSerials mining services node tx vBlockSerials vTxSerials (txIn :: rest) =
      checkSerials mining services node tx vBlockSerials vTxSerials rest := by
  rw [checkSerials, if_pos (by simp [ordinary])]

theorem checkSerials_reads
    (checked : Bool × List Int) (zerocoin : txIn.spendsZerocoin = true)
    (done : checkSerials mining services node tx vBlockSerials vTxSerials (txIn :: rest) =
      .ok checked) :
    ∃ spend, spendOf services node tx txIn = .ok spend := by
  rw [checkSerials, if_neg (by simp [zerocoin]), bind_eq_ok] at done
  obtain ⟨spend, read, _⟩ := done
  exact ⟨spend, read⟩

def inputSerials (vin : List CTxIn) : List Int :=
  (vin.filter CTxIn.spendsZerocoin).filterMap (spentSerial services.lib)

theorem inputSerials_zerocoin (txIn : CTxIn) (rest : List CTxIn) (spend : Spend)
    (zerocoin : txIn.spendsZerocoin = true) (read : spendOf services node tx txIn = .ok spend) :
    inputSerials services (txIn :: rest) =
      spend.coinSpend.coinSerialNumber :: inputSerials services rest := by
  unfold inputSerials
  rw [filter_cons_of_pos zerocoin,
    filterMap_cons_some (spendOf_serial services node tx txIn spend read)]

theorem inputSerials_ordinary (txIn : CTxIn) (rest : List CTxIn)
    (ordinary : txIn.spendsZerocoin = false) :
    inputSerials services (txIn :: rest) = inputSerials services rest := by
  unfold inputSerials
  rw [filter_cons_of_neg (by simp [ordinary])]

theorem inputSerials_append (before rest : List CTxIn) :
    inputSerials services (before ++ rest) =
      inputSerials services before ++ inputSerials services rest := by
  unfold inputSerials
  rw [filter_append, filterMap_append]

/-- An input whose serial number is valid and not among some others. -/
def ClearOf (others : List Int) (txIn : CTxIn) : Prop :=
  ∀ spend, spendOf services node tx txIn = .ok spend →
    validSerial mining services spend = true ∧ spend.coinSpend.coinSerialNumber ∉ others

instance (others : List Int) (txIn : CTxIn) :
    Decidable (ClearOf mining services node tx others txIn) :=
  match read : spendOf services node tx txIn with
  | .error _ => isTrue fun spend same => by
      rw [read] at same
      cases same
  | .ok spend =>
    decidable_of_iff (validSerial mining services spend = true ∧
      spend.coinSpend.coinSerialNumber ∉ others)
      ⟨fun holds other same => by
        rw [read] at same
        cases same
        exact holds,
       fun all => all spend read⟩

theorem ClearOf.mono {mining : Mining δ} {services : Services} {node : NodeState}
    {tx : CTransaction} {fewer more : List Int} (subset : fewer ⊆ more) {txIn : CTxIn}
    (clear : ClearOf mining services node tx more txIn) :
    ClearOf mining services node tx fewer txIn :=
  fun spend read => ⟨(clear spend read).1, fun member => (clear spend read).2 (subset member)⟩

theorem checkSerials_clear (vTxSerials noted : List Int) (vin : List CTxIn)
    (passed : checkSerials mining services node tx vBlockSerials vTxSerials vin =
      .ok (false, noted)) :
    noted = vTxSerials ++ inputSerials services vin ∧
      (inputSerials services vin).Nodup ∧
      (∀ serial ∈ inputSerials services vin, serial ∉ vBlockSerials ∧ serial ∉ vTxSerials) ∧
      ∀ txIn ∈ vin, txIn.spendsZerocoin = true →
        ClearOf mining services node tx (vBlockSerials ++ vTxSerials) txIn := by
  induction vin generalizing vTxSerials with
  | nil =>
    rw [checkSerials] at passed
    have same := (Prod.mk.inj (Except.ok.inj passed)).2
    refine ⟨?_, nodup_nil, ?_, ?_⟩
    · rw [same]
      exact (append_nil noted).symm
    · intro serial member
      cases member
    · intro txIn member
      cases member
  | cons txIn rest ih =>
    by_cases zerocoin : txIn.spendsZerocoin = true
    · rcases checkSerials_reads mining services node tx vBlockSerials _ _ _ _ zerocoin passed
        with ⟨spend, read⟩
      rw [checkSerials_zerocoin mining services node tx vBlockSerials _ _ _ spend zerocoin read]
        at passed
      split_ifs at passed with refused
      · cases passed
      · obtain ⟨counted, nodup, apart, clear⟩ := ih _ passed
        rw [inputSerials_zerocoin services node tx txIn rest spend zerocoin read]
        simp only [Bool.or_eq_true, Bool.not_eq_true', contains_iff_mem, not_or,
          Bool.not_eq_false] at refused
        obtain ⟨⟨valid, notInBlock⟩, notNoted⟩ := refused
        refine ⟨?_, ?_, ?_, ?_⟩
        · rw [counted, append_assoc, singleton_append]
        · rw [nodup_cons]
          refine ⟨?_, nodup⟩
          intro again
          exact (apart _ again).2 (mem_append_right _ (mem_singleton.mpr rfl))
        · intro serial member
          obtain same | later := mem_cons.mp member
          · rw [same]
            exact ⟨notInBlock, notNoted⟩
          · exact ⟨(apart serial later).1,
              fun there => (apart serial later).2 (mem_append_left _ there)⟩
        · intro other member isZerocoin found readOther
          obtain same | later := mem_cons.mp member
          · rw [same, read] at readOther
            cases readOther
            refine ⟨valid, ?_⟩
            rw [mem_append, not_or]
            exact ⟨notInBlock, notNoted⟩
          · obtain ⟨isValid, absent⟩ := clear other later isZerocoin found readOther
            refine ⟨isValid, fun there => absent ?_⟩
            obtain inBlock | already := mem_append.mp there
            · exact mem_append_left _ inBlock
            · exact mem_append_right _ (mem_append_left _ already)
    · have ordinary : txIn.spendsZerocoin = false := by simpa using zerocoin
      rw [checkSerials_ordinary mining services node tx vBlockSerials _ _ _ ordinary] at passed
      rw [inputSerials_ordinary services txIn rest ordinary]
      obtain ⟨counted, nodup, apart, clear⟩ := ih _ passed
      refine ⟨counted, nodup, apart, ?_⟩
      intro other member isZerocoin
      obtain same | later := mem_cons.mp member
      · rw [same] at isZerocoin
        exact absurd isZerocoin zerocoin
      · exact clear other later isZerocoin

theorem inputSerials_ne_nil (vTxSerials noted : List Int) (vin : List CTxIn)
    (passed : checkSerials mining services node tx vBlockSerials vTxSerials vin =
      .ok (false, noted))
    (some : vin.filter CTxIn.spendsZerocoin ≠ []) : inputSerials services vin ≠ [] := by
  induction vin with
  | nil => exact absurd rfl some
  | cons txIn rest ih =>
    by_cases zerocoin : txIn.spendsZerocoin = true
    · rcases checkSerials_reads mining services node tx vBlockSerials _ _ _ _ zerocoin passed
        with ⟨spend, read⟩
      rw [inputSerials_zerocoin services node tx txIn rest spend zerocoin read]
      exact cons_ne_nil _ _
    · have ordinary : txIn.spendsZerocoin = false := by simpa using zerocoin
      rw [checkSerials_ordinary mining services node tx vBlockSerials _ _ _ ordinary] at passed
      rw [filter_cons_of_neg zerocoin] at some
      rw [inputSerials_ordinary services txIn rest ordinary]
      exact ih passed some

/-- Where the comparison ends at an input: what it has noted comes from the
inputs before. -/
theorem checkSerials_refused (vTxSerials noted : List Int) (vin : List CTxIn)
    (refused : checkSerials mining services node tx vBlockSerials vTxSerials vin =
      .ok (true, noted)) :
    ∃ before txIn rest spend, vin = before ++ txIn :: rest ∧
      checkSerials mining services node tx vBlockSerials vTxSerials before = .ok (false, noted) ∧
      txIn.spendsZerocoin = true ∧ spendOf services node tx txIn = .ok spend ∧
      (validSerial mining services spend = false ∨
        spend.coinSpend.coinSerialNumber ∈ vBlockSerials ∨
        spend.coinSpend.coinSerialNumber ∈ noted) := by
  induction vin generalizing vTxSerials with
  | nil =>
    rw [checkSerials] at refused
    cases refused
  | cons txIn rest ih =>
    by_cases zerocoin : txIn.spendsZerocoin = true
    · rcases checkSerials_reads mining services node tx vBlockSerials _ _ _ _ zerocoin refused
        with ⟨spend, read⟩
      have stepped := fun rest => checkSerials_zerocoin mining services node tx vBlockSerials
        vTxSerials txIn rest spend zerocoin read
      rw [stepped] at refused
      split_ifs at refused with found
      · rw [← (Prod.mk.inj (Except.ok.inj refused)).2]
        refine ⟨[], txIn, rest, spend, rfl, rfl, zerocoin, read, ?_⟩
        simpa [or_assoc] using found
      · obtain ⟨before, other, later, same, split, passed, rest⟩ := ih _ refused
        refine ⟨txIn :: before, other, later, same, congrArg _ split, ?_, rest⟩
        rw [stepped, if_neg found]
        exact passed
    · have ordinary : txIn.spendsZerocoin = false := by simpa using zerocoin
      rw [checkSerials_ordinary mining services node tx vBlockSerials _ _ _ ordinary] at refused
      obtain ⟨before, other, later, same, split, passed, rest⟩ := ih _ refused
      refine ⟨txIn :: before, other, later, same, congrArg _ split, ?_, rest⟩
      rw [checkSerials_ordinary mining services node tx vBlockSerials _ _ _ ordinary]
      exact passed

end Inputs

section Rounds

variable {δ : Type} (mining : Mining δ) (services : Services) (node : NodeState)

/-- Whether the loop comes to the serial numbers of the transaction it has taken
off the queue. -/
def comesToSerials (top : TxPriority δ) (state : Assembling δ) : Bool :=
  let nTxSize := services.getSerializeSize top.ptx
  !decide (mining.nBlockMaxSize ≤ state.nBlockSize + nTxSize) &&
    !decide (maxBlockSigOpsCurrent ≤
      state.nBlockSigOps + services.getLegacySigOpCount top.ptx) &&
    !skipsFree mining top nTxSize state && state.view.haveInputs top.ptx &&
    top.ptx.hasZerocoinSpendInputs && !(isTransactionInChain node top.ptx.hash).isSome

/-- The transaction whose serial numbers the next round compares. -/
def compared (state : Assembling δ) : Option CTransaction :=
  match mining.heap.pop (mining.compare state.fSortedByFee) state.vecPriority with
  | none => none
  | some (top, _) => if comesToSerials mining services node top state then some top.ptx else none

/-- The operations of a transaction are too many for what is left of the block. -/
def ExceedsSigOps (tx : CTransaction) (state : Assembling δ) : Prop :=
  maxBlockSigOpsCurrent ≤ state.nBlockSigOps +
    (services.getLegacySigOpCount tx + services.getP2SHSigOpCount tx state.view)

instance (tx : CTransaction) (state : Assembling δ) :
    Decidable (ExceedsSigOps services tx state) :=
  inferInstanceAs (Decidable (_ ≤ _))

/-- The serial numbers that the transactions of the block spend. -/
def placedSerials (state : Assembling δ) : List Int :=
  state.vtx.flatMap (serialsOf services.lib)

/-- No serial number is compared, and the block is as it was or has one more
transaction, which spends none. -/
structure PassesBy (state next : Assembling δ) : Prop where
  noted : next.vTxSerials = state.vTxSerials
  block : next.vtx = state.vtx ∧ next.vBlockSerials = state.vBlockSerials ∨
    ∃ tx, tx.hasZerocoinSpendInputs = false ∧ next.vtx = state.vtx ++ [tx] ∧
      next.vBlockSerials = state.vBlockSerials ++ state.vTxSerials

/-- The serial numbers of `tx` are compared. It comes into the block exactly if
none is refused and its operations fit. -/
structure Compares (tx : CTransaction) (refused : Bool) (state next : Assembling δ) : Prop where
  checked : checkSerials mining services node tx state.vBlockSerials state.vTxSerials tx.vin =
    .ok (refused, next.vTxSerials)
  skipped : refused = true ∨ ExceedsSigOps services tx state →
    next.vtx = state.vtx ∧ next.vBlockSerials = state.vBlockSerials
  added : refused = false → ¬ExceedsSigOps services tx state →
    next.vtx = state.vtx ++ [tx] ∧ next.vBlockSerials = state.vBlockSerials ++ next.vTxSerials

variable (tx : CTransaction)

theorem add_serials (nTxSize nTxSigOps : Nat) (nTxFees : CAmount)
    (state next : Assembling δ)
    (taken : add node tx nTxSize nTxSigOps nTxFees state = .ok next) :
    next.vtx = state.vtx ++ [tx] ∧ next.vTxSerials = state.vTxSerials ∧
      next.vBlockSerials = state.vBlockSerials ++ state.vTxSerials := by
  unfold add at taken
  simp only [bind_eq_ok, ofOption_eq_ok] at taken
  obtain ⟨_, _, released, _, result⟩ := taken
  cases result
  exact ⟨rfl, rfl, rfl⟩

/-- Nothing but its operations keeps out a transaction with zerocoin inputs
that has passed the comparison. -/
theorem addIfValid_zerocoin (nTxSize : Nat) (state next : Assembling δ)
    (zerocoin : tx.hasZerocoinSpendInputs = true)
    (taken : addIfValid services node tx nTxSize state = .ok next) :
    ExceedsSigOps services tx state ∧ next = state ∨
      ¬ExceedsSigOps services tx state ∧
        ∃ nTxSigOps nTxFees, add node tx nTxSize nTxSigOps nTxFees state = .ok next := by
  unfold addIfValid at taken
  simp only [bind_eq_ok, ofOption_eq_ok] at taken
  obtain ⟨nValueIn, _, nValueOut, _, rest⟩ := taken
  split_ifs at rest with full
  · exact Or.inl ⟨full, (Except.ok.inj rest).symm⟩
  · right
    refine ⟨full, ?_⟩
    rw [bind_eq_ok] at rest
    obtain ⟨height, _, checked⟩ := rest
    have unchecked : ConnectBlock.checkInputs services tx state.view height true
        ConnectBlock.scriptVerifyP2SH false = .ok [] := by
      unfold ConnectBlock.checkInputs
      rw [if_neg (by simp [zerocoin])]
    rw [unchecked] at checked
    exact ⟨_, _, checked⟩

theorem consider_serials (top : TxPriority δ) (state next : Assembling δ)
    (taken : consider mining services node top state = .ok next) :
    comesToSerials mining services node top state = false ∧ PassesBy state next ∨
      comesToSerials mining services node top state = true ∧
        ∃ refused, Compares mining services node top.ptx refused state next := by
  unfold consider at taken
  unfold comesToSerials
  dsimp only at taken ⊢
  split_ifs at taken with large signatures free missing
  · cases taken
    exact Or.inl ⟨by simp [large], rfl, Or.inl ⟨rfl, rfl⟩⟩
  · cases taken
    exact Or.inl ⟨by simp [signatures], rfl, Or.inl ⟨rfl, rfl⟩⟩
  · cases taken
    exact Or.inl ⟨by simp [free], rfl, Or.inl ⟨rfl, rfl⟩⟩
  · cases taken
    have absent : state.view.haveInputs top.ptx = false := by simpa [sortByFee] using missing
    exact Or.inl ⟨by simp [absent], rfl, Or.inl ⟨rfl, rfl⟩⟩
  · rw [bind_eq_ok] at taken
    obtain ⟨⟨fDoubleSerial, vTxSerials⟩, compares, rest⟩ := taken
    dsimp only at rest
    have inputs : state.view.haveInputs top.ptx = true := by simpa [sortByFee] using missing
    unfold doubleSerial at compares
    by_cases zerocoin : top.ptx.hasZerocoinSpendInputs = true
    · rw [if_neg (by simp [zerocoin])] at compares
      by_cases inChain : (isTransactionInChain node top.ptx.hash).isSome = true
      · rw [if_pos inChain] at compares
        cases compares
        rw [if_pos rfl] at rest
        cases rest
        exact Or.inl ⟨by simp [inChain], rfl, Or.inl ⟨rfl, rfl⟩⟩
      · rw [if_neg inChain] at compares
        right
        refine ⟨by simp [large, signatures, free, inputs, zerocoin, inChain], fDoubleSerial, ?_⟩
        cases fDoubleSerial with
        | true =>
          rw [if_pos rfl] at rest
          cases rest
          exact ⟨compares, fun _ => ⟨rfl, rfl⟩, fun other => by cases other⟩
        | false =>
          rw [if_neg Bool.false_ne_true] at rest
          rcases addIfValid_zerocoin services node top.ptx _ _ next zerocoin rest with
            ⟨full, same⟩ | ⟨fits, nTxSigOps, nTxFees, added⟩
          · rw [same]
            exact ⟨compares, fun _ => ⟨rfl, rfl⟩, fun _ fits => absurd full fits⟩
          · obtain ⟨vtx, noted, serials⟩ := add_serials node top.ptx _ _ _ _ next added
            refine ⟨noted ▸ compares, ?_, fun _ _ => ⟨vtx, noted ▸ serials⟩⟩
            rintro (refused | full)
            · cases refused
            · exact absurd full fits
    · rw [if_pos (by simpa using zerocoin)] at compares
      cases compares
      rw [if_neg Bool.false_ne_true] at rest
      left
      refine ⟨by simp [zerocoin], ?_⟩
      rcases addIfValid_stages services node top.ptx _ _ next rest with
        same | ⟨_, _, _, _, _, _, _, added⟩
      · rw [same]
        exact ⟨rfl, Or.inl ⟨rfl, rfl⟩⟩
      · obtain ⟨vtx, noted, serials⟩ := add_serials node top.ptx _ _ _ _ next added
        exact ⟨noted, Or.inr ⟨top.ptx, by simpa using zerocoin, vtx, serials⟩⟩

theorem round_serials (state next : Assembling δ)
    (taken : BlockTemplate.round mining services node state = .ok next) :
    compared mining services node state = none ∧ PassesBy state next ∨
      ∃ tx refused, compared mining services node state = some tx ∧
        Compares mining services node tx refused state next := by
  unfold BlockTemplate.round at taken
  unfold compared
  cases popped : mining.heap.pop (mining.compare state.fSortedByFee) state.vecPriority with
  | none =>
    rw [popped] at taken
    cases taken
    exact Or.inl ⟨rfl, rfl, Or.inl ⟨rfl, rfl⟩⟩
  | some entry =>
    obtain ⟨top, rest⟩ := entry
    rw [popped] at taken
    dsimp only at taken ⊢
    rcases consider_serials mining services node top _ next taken with
      ⟨elsewhere, passes⟩ | ⟨comes, refused, compares⟩
    · left
      have same : comesToSerials mining services node top state = false := elsewhere
      rw [same, if_neg Bool.false_ne_true]
      exact ⟨rfl, passes.noted, passes.block⟩
    · right
      have same : comesToSerials mining services node top state = true := comes
      rw [same, if_pos rfl]
      exact ⟨top.ptx, refused, rfl, compares.checked, compares.skipped, compares.added⟩

/-! ## What is noted and what is placed -/

/-- The next transaction is left out because `serial` is in the block or among those noted. -/
def LeftOutFor (tx : CTransaction) (serial : Int) (state : Assembling δ) : Prop :=
  compared mining services node state = some tx ∧
    ∃ before txIn rest noted spend, tx.vin = before ++ txIn :: rest ∧
      checkSerials mining services node tx state.vBlockSerials state.vTxSerials before =
        .ok (false, noted) ∧
      txIn.spendsZerocoin = true ∧ spendOf services node tx txIn = .ok spend ∧
      spend.coinSpend.coinSerialNumber = serial ∧ (serial ∈ state.vBlockSerials ∨ serial ∈ noted)

/-- A transaction is left out for a serial number only if one of the block
spends it. -/
def LeavesOutDoubles (state : Assembling δ) : Prop :=
  ∀ tx serial, LeftOutFor mining services node tx serial state →
    ∃ placed ∈ state.vtx, serial ∈ serialsOf services.lib placed

/-- The serial numbers of the block are those its transactions spend, and no
others have been noted. -/
structure NothingLeftOver (state : Assembling δ) : Prop where
  block : ∀ serial, serial ∈ state.vBlockSerials ↔ serial ∈ placedSerials services state
  noted : ∀ serial ∈ state.vTxSerials, serial ∈ placedSerials services state

/-- The transaction of a round is refused at its first zerocoin input, or for nothing: its serial
numbers are valid, different and not in the block, and its operations fit. -/
def PlacesWhatItNotes (state : Assembling δ) : Prop :=
  ∀ tx ∈ compared mining services node state,
    (∃ txIn ∈ tx.zerocoinInputs.head?,
      ¬ClearOf mining services node tx (placedSerials services state) txIn) ∨
    (∀ txIn ∈ tx.zerocoinInputs,
      ClearOf mining services node tx (placedSerials services state) txIn) ∧
    (serialsOf services.lib tx).Nodup ∧ ¬ExceedsSigOps services tx state

instance (state : Assembling δ) : Decidable (PlacesWhatItNotes mining services node state) :=
  inferInstanceAs (Decidable (∀ tx ∈ compared mining services node state, _))

theorem compared_zerocoin (state : Assembling δ) (tx : CTransaction)
    (taken : compared mining services node state = some tx) :
    tx.hasZerocoinSpendInputs = true := by
  unfold compared at taken
  split at taken
  · cases taken
  · split_ifs at taken with comes
    cases taken
    unfold comesToSerials at comes
    simp only [Bool.and_eq_true] at comes
    exact comes.1.2

theorem mem_placedSerials (state : Assembling δ) (serial : Int) :
    serial ∈ placedSerials services state ↔
      ∃ placed ∈ state.vtx, serial ∈ serialsOf services.lib placed :=
  mem_flatMap

section Comparison

variable (tx : CTransaction)

/-- The first zerocoin input of a transaction is the first one of every front
part that has any. -/
theorem head_of_front (before rest : List CTxIn) (first : CTxIn) (others : List CTxIn)
    (vin : tx.vin = before ++ rest)
    (front : before.filter CTxIn.spendsZerocoin = first :: others) :
    tx.zerocoinInputs.head? = some first ∧ first ∈ before ∧ first.spendsZerocoin = true := by
  have member : first ∈ before.filter CTxIn.spendsZerocoin := by
    rw [front]
    exact mem_cons_self
  refine ⟨?_, mem_filter.mp member⟩
  unfold CTransaction.zerocoinInputs
  rw [vin, filter_append, front]
  rfl

theorem inputSerials_eq_nil (vin : List CTxIn)
    (none : vin.filter CTxIn.spendsZerocoin = []) : inputSerials services vin = [] := by
  unfold inputSerials
  rw [none]
  rfl

end Comparison

theorem placed_noted (state : Assembling δ) (sound : NothingLeftOver services state) :
    placedSerials services state ⊆ state.vBlockSerials ++ state.vTxSerials :=
  fun serial member => mem_append_left _ ((sound.block serial).mpr member)

/-- The serial numbers of a transaction, those in front of an input, its own and the
later ones. -/
theorem serialsOf_split (before rest : List CTxIn) (txIn : CTxIn)
    (spend : Spend) (split : tx.vin = before ++ txIn :: rest)
    (zerocoin : txIn.spendsZerocoin = true) (read : spendOf services node tx txIn = .ok spend) :
    serialsOf services.lib tx = inputSerials services before ++
      spend.coinSpend.coinSerialNumber :: inputSerials services rest := by
  change inputSerials services tx.vin = _
  rw [split, inputSerials_append,
    inputSerials_zerocoin services node tx txIn rest spend zerocoin read]

/-- With nothing left over, a transaction whose first serial number is refused
notes none. -/
theorem refused_first_notes_none (refused : Bool) (state next : Assembling δ)
    (sound : NothingLeftOver services state)
    (compares : Compares mining services node tx refused state next) (first : CTxIn)
    (isFirst : tx.zerocoinInputs.head? = some first)
    (notClear : ¬ClearOf mining services node tx (placedSerials services state) first) :
    refused = true ∧ next.vTxSerials = state.vTxSerials := by
  have fewer := placed_noted services state sound
  cases refused with
  | false =>
    rcases checkSerials_clear mining services node tx _ _ _ _ compares.checked with
      ⟨_, _, _, clear⟩
    have member := mem_filter.mp (mem_of_head? isFirst)
    exact absurd ((clear first member.1 member.2).mono fewer) notClear
  | true =>
    rcases checkSerials_refused mining services node tx _ _ _ _ compares.checked with
      ⟨before, txIn, rest, spend, split, passed, _⟩
    rcases checkSerials_clear mining services node tx _ _ _ _ passed with
      ⟨counted, _, _, clear⟩
    refine ⟨rfl, ?_⟩
    cases front : before.filter CTxIn.spendsZerocoin with
    | nil => rw [counted, inputSerials_eq_nil services before front, append_nil]
    | cons found others =>
      obtain ⟨isHead, member, spends⟩ := head_of_front tx before _ found others split front
      rw [isFirst] at isHead
      cases isHead
      exact absurd ((clear first member spends).mono fewer) notClear

/-- With nothing left over, a transaction whose serial numbers are valid,
different and not in the block is not refused. -/
theorem clear_is_not_refused (refused : Bool) (state next : Assembling δ)
    (sound : NothingLeftOver services state)
    (compares : Compares mining services node tx refused state next)
    (clear : ∀ txIn ∈ tx.zerocoinInputs,
      ClearOf mining services node tx (placedSerials services state) txIn)
    (nodup : (serialsOf services.lib tx).Nodup) : refused = false := by
  cases refused with
  | false => rfl
  | true =>
    rcases checkSerials_refused mining services node tx _ _ _ _ compares.checked with
      ⟨before, txIn, rest, spend, split, passed, zerocoin, read, found⟩
    obtain ⟨counted, _, _, _⟩ := checkSerials_clear mining services node tx _ _ _ _ passed
    have member : txIn ∈ tx.zerocoinInputs := by
      apply mem_filter.mpr
      exact ⟨split ▸ mem_append_right _ mem_cons_self, zerocoin⟩
    obtain ⟨valid, absent⟩ := clear txIn member spend read
    have serials := serialsOf_split services node tx before rest txIn spend split zerocoin read
    obtain invalid | inBlock | noted := found
    · rw [valid] at invalid
      cases invalid
    · exact absurd ((sound.block _).mp inBlock) absent
    · rw [counted] at noted
      obtain already | earlier := mem_append.mp noted
      · exact absurd (sound.noted _ already) absent
      · rw [serials] at nodup
        exact absurd rfl
          ((nodup_append.mp nodup).2.2 _ earlier _ mem_cons_self)

/-- A transaction is left out for what the block spends if the condition and the round before hold.
-/
theorem leaves_out_doubles (state : Assembling δ) (sound : NothingLeftOver services state)
    (places : PlacesWhatItNotes mining services node state) :
    LeavesOutDoubles mining services node state := by
  rintro tx serial ⟨isCompared, before, txIn, rest, noted, spend, split, passed, zerocoin, read,
    same, found⟩
  rw [← mem_placedSerials]
  obtain inBlock | isNoted := found
  · exact (sound.block serial).mp inBlock
  · obtain ⟨counted, _, _, clear⟩ := checkSerials_clear mining services node tx _ _ _ _ passed
    rw [counted] at isNoted
    obtain already | earlier := mem_append.mp isNoted
    · exact sound.noted serial already
    · -- an earlier input of the same transaction has noted it, which the condition excludes
      exfalso
      obtain ⟨first, isFirst, notClear⟩ | ⟨_, nodup, _⟩ := places tx isCompared
      · cases front : before.filter CTxIn.spendsZerocoin with
        | nil =>
          rw [inputSerials_eq_nil services before front] at earlier
          cases earlier
        | cons head others =>
          obtain ⟨isHead, member, spends⟩ := head_of_front tx before _ head others split front
          rw [isHead] at isFirst
          cases isFirst
          exact notClear ((clear first member spends).mono (placed_noted services state sound))
      · have serials := serialsOf_split services node tx before rest txIn spend split zerocoin read
        rw [serials, same] at nodup
        exact (nodup_append.mp nodup).2.2 serial earlier serial mem_cons_self rfl

variable (state next : Assembling δ)

/-- A transaction that notes a serial number and does not come into the block
leaves it over. -/
theorem noted_is_left_over (sound : NothingLeftOver services state) (before : List CTxIn)
    (passed : checkSerials mining services node tx state.vBlockSerials state.vTxSerials before =
      .ok (false, next.vTxSerials))
    (some : before.filter CTxIn.spendsZerocoin ≠ []) (stays : next.vtx = state.vtx) :
    ¬NothingLeftOver services next := by
  intro after
  obtain ⟨counted, _, apart, _⟩ := checkSerials_clear mining services node tx _ _ _ _ passed
  have serials := inputSerials_ne_nil mining services node tx _ _ _ _ passed some
  obtain ⟨serial, isSpent⟩ := exists_mem_of_ne_nil _ serials
  have noted : serial ∈ next.vTxSerials := by
    rw [counted]
    exact mem_append_right _ isSpent
  have placed : serial ∈ placedSerials services state := by
    have there := after.noted serial noted
    unfold placedSerials at there ⊢
    rwa [stays] at there
  exact (apart serial isSpent).1 ((sound.block serial).mpr placed)

theorem passesBy_sound (sound : NothingLeftOver services state)
    (passes : PassesBy state next) : NothingLeftOver services next := by
  obtain ⟨vtx, serials⟩ | ⟨tx, ordinary, vtx, serials⟩ := passes.block
  · constructor
    · intro serial
      unfold placedSerials
      rw [vtx, serials]
      exact sound.block serial
    · intro serial noted
      unfold placedSerials
      rw [vtx]
      exact sound.noted serial (passes.noted ▸ noted)
  · have same : placedSerials services next = placedSerials services state := by
      have none : serialsOf services.lib tx = [] := by
        unfold serialsOf
        rw [(zerocoinInputs_eq_nil tx).mpr ordinary]
        rfl
      unfold placedSerials
      rw [vtx, flatMap_append, flatMap_singleton, none, append_nil]
    constructor
    · intro serial
      rw [same, serials, mem_append]
      constructor
      · rintro (inBlock | noted)
        · exact (sound.block serial).mp inBlock
        · exact sound.noted serial noted
      · exact fun placed => Or.inl ((sound.block serial).mpr placed)
    · intro serial noted
      rw [same]
      exact sound.noted serial (passes.noted ▸ noted)

theorem placed_sound (sound : NothingLeftOver services state)
    (compares : Compares mining services node tx false state next)
    (fits : ¬ExceedsSigOps services tx state) : NothingLeftOver services next := by
  obtain ⟨vtx, serials⟩ := compares.added rfl fits
  obtain ⟨counted, _⟩ := checkSerials_clear mining services node tx _ _ _ _ compares.checked
  have placed : placedSerials services next =
      placedSerials services state ++ inputSerials services tx.vin := by
    unfold placedSerials
    rw [vtx, flatMap_append, flatMap_singleton]
    rfl
  constructor
  · intro serial
    rw [placed, serials, counted, mem_append, mem_append, mem_append]
    constructor
    · rintro (inBlock | noted | own)
      · exact Or.inl ((sound.block serial).mp inBlock)
      · exact Or.inl (sound.noted serial noted)
      · exact Or.inr own
    · rintro (inBlock | own)
      · exact Or.inl ((sound.block serial).mpr inBlock)
      · exact Or.inr (Or.inr own)
  · intro serial noted
    rw [counted] at noted
    rw [placed, mem_append]
    obtain already | own := mem_append.mp noted
    · exact Or.inl (sound.noted serial already)
    · exact Or.inr own

/-- A transaction that passed the comparison came into the block, or had noted its
serial numbers. -/
theorem passed_places (sound : NothingLeftOver services state) (after : NothingLeftOver services next)
    (zerocoin : tx.hasZerocoinSpendInputs = true)
    (compares : Compares mining services node tx false state next) :
    (∀ txIn ∈ tx.zerocoinInputs,
      ClearOf mining services node tx (placedSerials services state) txIn) ∧
    (serialsOf services.lib tx).Nodup ∧ ¬ExceedsSigOps services tx state := by
  rcases checkSerials_clear mining services node tx _ _ _ _ compares.checked with
    ⟨_, nodup, _, clear⟩
  refine ⟨?_, nodup, ?_⟩
  · intro txIn member
    have input := mem_filter.mp member
    exact (clear txIn input.1 input.2).mono (placed_noted services state sound)
  · intro full
    apply noted_is_left_over mining services node tx state next sound tx.vin
      compares.checked _ (compares.skipped (Or.inr full)).1 after
    intro none
    rw [(zerocoinInputs_eq_nil tx).mp none] at zerocoin
    cases zerocoin

/-- A transaction that is refused behind its first zerocoin input has noted what it
does not spend in the block. -/
theorem refused_at_first (sound : NothingLeftOver services state) (after : NothingLeftOver services next)
    (compares : Compares mining services node tx true state next) :
    ∃ txIn ∈ tx.zerocoinInputs.head?,
      ¬ClearOf mining services node tx (placedSerials services state) txIn := by
  rcases checkSerials_refused mining services node tx _ _ _ _ compares.checked with
    ⟨before, txIn, rest, spend, split, passed, spends, read, found⟩
  have none : before.filter CTxIn.spendsZerocoin = [] := by
    by_contra some
    exact noted_is_left_over mining services node tx state next sound before passed some
      (compares.skipped (Or.inl rfl)).1 after
  refine ⟨txIn, ?_, ?_⟩
  · unfold CTransaction.zerocoinInputs
    rw [split, filter_append, none, filter_cons_of_pos spends]
    rfl
  · intro clear
    obtain ⟨valid, absent⟩ := clear spend read
    obtain ⟨counted, _⟩ := checkSerials_clear mining services node tx _ _ _ _ passed
    rw [inputSerials_eq_nil services before none, append_nil] at counted
    obtain invalid | inBlock | noted := found
    · rw [valid] at invalid
      cases invalid
    · exact absent ((sound.block _).mp inBlock)
    · exact absent (sound.noted _ (counted ▸ noted))

theorem round_sound_iff (sound : NothingLeftOver services state)
    (taken : BlockTemplate.round mining services node state = .ok next) :
    NothingLeftOver services next ↔ PlacesWhatItNotes mining services node state := by
  rcases round_serials mining services node state next taken with
    ⟨none, passes⟩ | ⟨tx, refused, isCompared, compares⟩
  · have met : PlacesWhatItNotes mining services node state := by
      intro tx member
      rw [none] at member
      cases member
    exact iff_of_true (passesBy_sound services state next sound passes) met
  · constructor
    · intro after other member
      rw [isCompared] at member
      cases member
      have zerocoin := compared_zerocoin mining services node state tx isCompared
      cases refused with
      | false =>
        exact Or.inr (passed_places mining services node tx state next sound after zerocoin
          compares)
      | true =>
        exact Or.inl (refused_at_first mining services node tx state next sound after compares)
    · intro places
      obtain ⟨first, isFirst, notClear⟩ | ⟨clear, nodup, fits⟩ := places tx isCompared
      · rcases refused_first_notes_none mining services node tx refused state next sound compares
          first isFirst notClear with ⟨isRefused, noted⟩
        exact passesBy_sound services state next sound
          ⟨noted, Or.inl (compares.skipped (Or.inl isRefused))⟩
      · have passed := clear_is_not_refused mining services node tx refused state next sound
          compares clear nodup
        rw [passed] at compares
        exact placed_sound mining services node tx state next sound compares fits

end Rounds

section Runs

variable {δ : Type} (mining : Mining δ) (services : Services) (here : LocalState)
  (node : NodeState)

def takeNext : Assembling δ → Unit → Option (Assembling δ) :=
  nextRound (fun state => !state.vecPriority.isEmpty) (BlockTemplate.round mining services node)

theorem takeNext_sound_iff (state next : Assembling δ) (event : Unit)
    (sound : NothingLeftOver services state)
    (taken : takeNext mining services node state event = some next) :
    NothingLeftOver services next ↔ PlacesWhatItNotes mining services node state :=
  round_sound_iff mining services node state next sound
    ((nextRound_eq_some _ _ state next event).mp taken).2

theorem start_sound (candidates : Candidates δ) :
    NothingLeftOver services (Assembling.start mining node candidates) where
  block := by
    intro serial
    rfl
  noted := by
    intro serial member
    cases member

theorem collect_runs (collected : Assembling δ)
    (done : collect mining services here node = .ok collected) :
    ∃ candidates rounds,
      node.mempool.mapTx.foldlM (examine mining services here node)
        { vecPriority := [], vOrphan := [] } = .ok candidates ∧
      run (takeNext mining services node) (Assembling.start mining node candidates) rounds =
        some collected := by
  unfold collect at done
  rw [bind_eq_ok] at done
  obtain ⟨candidates, examined, filling⟩ := done
  obtain ⟨rounds, reached⟩ := loop_runs _ _ _ _ _ filling
  exact ⟨candidates, rounds, examined, reached⟩

/-- In every run of rounds, of which `CreateNewBlock` takes the end, nothing that was noted is left
over if and only if every round meets the condition; and then a transaction is left out for a serial
number only if the block spends it. -/
theorem serials_leave_out_doubles :
    (∀ collected, collect mining services here node = .ok collected →
      ∃ candidates rounds,
        node.mempool.mapTx.foldlM (examine mining services here node)
          { vecPriority := [], vOrphan := [] } = .ok candidates ∧
        run (takeNext mining services node) (Assembling.start mining node candidates) rounds =
          some collected) ∧
    ∀ (candidates : Candidates δ) (rounds : List Unit) (last : Assembling δ),
      run (takeNext mining services node) (Assembling.start mining node candidates) rounds =
        some last →
      ((∀ before middle, before <+: rounds →
          run (takeNext mining services node) (Assembling.start mining node candidates) before =
            some middle → NothingLeftOver services middle) ↔
        AllSteps (takeNext mining services node)
          (fun state _ => PlacesWhatItNotes mining services node state)
          (Assembling.start mining node candidates) rounds) ∧
      (AllSteps (takeNext mining services node)
          (fun state _ => PlacesWhatItNotes mining services node state)
          (Assembling.start mining node candidates) rounds →
        AllSteps (takeNext mining services node)
          (fun state _ => LeavesOutDoubles mining services node state)
          (Assembling.start mining node candidates) rounds) := by
  constructor
  · exact collect_runs mining services here node
  · intro candidates rounds last reached
    have start := start_sound mining services node candidates
    constructor
    · apply invariant_iff_guarded_run _ _ _ _ _ last rounds start reached
      intro state event next sound taken
      exact takeNext_sound_iff mining services node state next event sound taken
    · apply all_steps_of_guarded_run _ _ _ (NothingLeftOver services) _ _ _ rounds start
      · intro state event next sound places taken
        exact (takeNext_sound_iff mining services node state next event sound taken).mpr places
      · intro state event sound places
        exact leaves_out_doubles mining services node state sound places

end Runs

/-- A library that finds the serial number of a public spend in its script. -/
def serialByScript : Libzerocoin :=
  { onePublicSpend with
    publicCoinSpend := fun data => (onePublicSpend.publicCoinSpend data).map fun spend =>
      { spend with coinSerialNumber := (data.headD 0).toNat } }

def mintServices : Services :=
  { mainnetServices with
    lib := serialByScript
    getSerializeSize := serializeSize }

def mintsTx : CTransaction where
  hash := 11
  nVersion := 1
  vin := [{ prevout := { hash := 9, n := 0 }, scriptSig := [], nSequence := 0xffffffff }]
  vout := { nValue := 0, scriptPubKey := [] } :: [5, 6, 7].map fun value =>
    { nValue := 10 * coin, scriptPubKey := [0xc1, 0, 0, 0, 0, 0, value] }
  nLockTime := 0

def mintsBlock : CBlock :=
  exampleBlock 101 mainParams.hashGenesisBlock 1600000000 [ValueGate.coinbaseTx 10, mintsTx]

def mintsChain : Chain.CBlockIndex := [mintsBlock, genesisBlock]

def mintsNode : NodeState :=
  { mintedNode with
    mapBlockIndex := fileEntries [mintsChain, [genesisBlock]]
    chainActive := mintsChain
    pcoinsTip := blockCoins mintsBlock 1 }

def mintSpend (hash : Uint256) (mints : List UInt8) (nFee : CAmount) : CTransaction where
  hash := hash
  nVersion := 1
  vin := mints.map fun mint =>
    { prevout := { hash := 11, n := mint.toUInt32 }
      scriptSig := [0xc3, 0, 0, 0, mint]
      nSequence := 10 }
  vout := [{ nValue := 10 * coin * mints.length - nFee, scriptPubKey := [op1] }]
  nLockTime := 0

def queueOf (txs : List CTransaction) : Candidates Int where
  vecPriority := txs.map fun tx => { dPriority := 0, feeRate := 0, ptx := tx }
  vOrphan := []

/-- The second spend of a mint is left out for what the first one spends. -/
theorem second_spend_left_out :
    ∃ last,
      run (takeNext (miningBelow 750000) mintServices mintsNode)
        (Assembling.start (miningBelow 750000) mintsNode
          (queueOf [mintSpend 12 [1] coin, mintSpend 17 [1] coin])) [(), ()] = some last ∧
      last.vtx = [mintSpend 12 [1] coin] ∧
      AllSteps (takeNext (miningBelow 750000) mintServices mintsNode)
        (fun state _ => LeavesOutDoubles (miningBelow 750000) mintServices mintsNode state)
        (Assembling.start (miningBelow 750000) mintsNode
          (queueOf [mintSpend 12 [1] coin, mintSpend 17 [1] coin])) [(), ()] := by
  have outcome : (run (takeNext (miningBelow 750000) mintServices mintsNode)
      (Assembling.start (miningBelow 750000) mintsNode
        (queueOf [mintSpend 12 [1] coin, mintSpend 17 [1] coin])) [(), ()]).map
          (fun last => last.vtx) = some [mintSpend 12 [1] coin] := by
    decide +kernel
  obtain ⟨last, reached, vtx⟩ := Option.map_eq_some_iff.mp outcome
  refine ⟨last, reached, vtx, ?_⟩
  apply ((serials_leave_out_doubles (miningBelow 750000) mintServices quietNode mintsNode).2
    _ _ last reached).2
  decide +kernel

/-- Three spends of the pool. The second spends the first one's mint, which the third one spends,
too. -/
def crossedSpends : List CTransaction :=
  [mintSpend 12 [1] (coin / 4), mintSpend 17 [2, 1] (coin / 2), mintSpend 18 [2, 3] (coin / 4)]

def crossedOffers : List PoolEvent :=
  crossedSpends.map fun tx => .acceptToMemoryPool quietNode mintsNode tx

def crossedNode : NodeState :=
  { mintsNode with mempool := (run (step mintServices) .empty crossedOffers).getD .empty }

theorem crossed_pool :
    run (step mintServices) .empty crossedOffers = some crossedNode.mempool := by
  have entered : (run (step mintServices) .empty crossedOffers).isSome = true := by
    decide +kernel
  obtain ⟨last, reached⟩ := Option.isSome_iff_exists.mp entered
  change _ = some ((run (step mintServices) .empty crossedOffers).getD .empty)
  rw [reached]
  rfl

theorem crossed_first : ∃ txIn rest spend,
    (mintSpend 18 [2, 3] (coin / 4)).vin = txIn :: rest ∧ txIn.spendsZerocoin = true ∧
      spendOf mintServices crossedNode (mintSpend 18 [2, 3] (coin / 4)) txIn = .ok spend ∧
      spend.coinSpend.coinSerialNumber = 2 := by
  have serial : ((mintSpend 18 [2, 3] (coin / 4)).vin.head?.bind fun txIn =>
      (spendOf mintServices crossedNode (mintSpend 18 [2, 3] (coin / 4)) txIn).toOption.map
        fun spend => spend.coinSpend.coinSerialNumber) = some 2 := by
    decide +kernel
  have allZerocoin : ∀ txIn ∈ (mintSpend 18 [2, 3] (coin / 4)).vin,
      txIn.spendsZerocoin = true := by
    decide +kernel
  obtain ⟨txIn, isFirst, readable⟩ := Option.bind_eq_some_iff.mp serial
  obtain ⟨spend, isOk, number⟩ := Option.map_eq_some_iff.mp readable
  refine ⟨txIn, _, spend, eq_cons_of_mem_head? isFirst, ?_, ?_, number⟩
  · exact allZerocoin txIn (mem_of_head? isFirst)
  · cases read : spendOf mintServices crossedNode (mintSpend 18 [2, 3] (coin / 4)) txIn with
    | error failure =>
      rw [read] at isOk
      cases isOk
    | ok found =>
      rw [read] at isOk
      exact congrArg Except.ok (Option.some.inj isOk)

/-- The second transaction keeps the third one out and is not in the block itself. -/
theorem skipped_spend_keeps_another_out :
    ¬ ∀ (mining : Mining Int) (services : Services) (here : LocalState) (node : NodeState)
        (offers : List PoolEvent) (candidates : Candidates Int) (rounds : List Unit)
        (last : Assembling Int),
      run (step services) .empty offers = some node.mempool →
      node.mempool.mapTx.foldlM (examine mining services here node)
        { vecPriority := [], vOrphan := [] } = .ok candidates →
      run (takeNext mining services node) (Assembling.start mining node candidates) rounds =
        some last →
      AllSteps (takeNext mining services node)
        (fun state _ => LeavesOutDoubles mining services node state)
        (Assembling.start mining node candidates) rounds := by
  intro always
  have filled : (crossedNode.mempool.mapTx.foldlM
      (examine (miningBelow 750000) mintServices quietNode crossedNode)
      { vecPriority := [], vOrphan := [] }).toOption.bind (fun candidates =>
        (run (takeNext (miningBelow 750000) mintServices crossedNode)
          (Assembling.start (miningBelow 750000) crossedNode candidates) [(), (), ()]).map
            fun last => last.vtx) = some [mintSpend 12 [1] (coin / 4)] := by
    decide +kernel
  have third : (crossedNode.mempool.mapTx.foldlM
      (examine (miningBelow 750000) mintServices quietNode crossedNode)
      { vecPriority := [], vOrphan := [] }).toOption.bind (fun candidates =>
        (run (takeNext (miningBelow 750000) mintServices crossedNode)
          (Assembling.start (miningBelow 750000) crossedNode candidates) [(), ()]).map
            fun state => (compared (miningBelow 750000) mintServices crossedNode state, state.vtx,
              state.vTxSerials)) =
      some (some (mintSpend 18 [2, 3] (coin / 4)), [mintSpend 12 [1] (coin / 4)], [1, 2]) := by
    decide +kernel
  cases examined : crossedNode.mempool.mapTx.foldlM
      (examine (miningBelow 750000) mintServices quietNode crossedNode)
      { vecPriority := [], vOrphan := [] } with
  | error failure =>
    rw [examined] at filled
    cases filled
  | ok candidates =>
    rw [examined] at filled third
    obtain ⟨last, reached, _⟩ := Option.map_eq_some_iff.mp filled
    obtain ⟨state, passed, found⟩ := Option.map_eq_some_iff.mp third
    obtain ⟨isCompared, rest⟩ := Prod.mk.inj found
    obtain ⟨vtx, noted⟩ := Prod.mk.inj rest
    have all : AllSteps (takeNext (miningBelow 750000) mintServices crossedNode)
        (fun state _ => LeavesOutDoubles (miningBelow 750000) mintServices crossedNode state)
        (Assembling.start (miningBelow 750000) crossedNode candidates) ([(), ()] ++ [()]) :=
      always (miningBelow 750000) mintServices quietNode crossedNode crossedOffers candidates
        [(), (), ()] last crossed_pool examined reached
    have doubles := all.behind passed
    obtain ⟨txIn, others, spend, vin, zerocoin, read, number⟩ := crossed_first
    have leftOut : LeftOutFor (miningBelow 750000) mintServices crossedNode
        (mintSpend 18 [2, 3] (coin / 4)) 2 state := by
      refine ⟨isCompared, [], txIn, others, state.vTxSerials, spend, vin, rfl, zerocoin, read,
        number, Or.inr ?_⟩
      rw [noted]
      decide
    obtain ⟨placed, inBlock, spends⟩ := doubles _ 2 leftOut
    rw [vtx, mem_singleton] at inBlock
    rw [inBlock] at spends
    revert spends
    decide +kernel

end ZenonCore.MinerSerials
