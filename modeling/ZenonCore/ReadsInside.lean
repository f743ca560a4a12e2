import ZenonCore.ForkSerials

/-!
# Reads beyond the end of a block

`ProcessNewBlock` up to `AcceptBlock`, and the four ways in which a block makes it read a list
by an index the list does not have.
-/

namespace ZenonCore.ReadsInside

open Script Primitives ChainParams Chain List
open Validation Standard Zerocoin Chainstate
open CheckBlock BoundedReads BlockReads StakeInput
open ProofOfWork AcceptBlock ChainTip ValueGate
open ForkSerials

/-- `ProcessNewBlock` up to the end of `AcceptBlock`. The signature is checked
whether or not `CheckBlock` has passed. -/
def processNewBlock (services : AcceptServices) (signer : BlockSigner) (here : AcceptState)
    (store : BlockStore) (block : CBlock) (fromPeer : Bool) : Reading Unit := do
  attempt (require (!fromPeer || decide (block.hash = services.params.hashGenesisBlock) ||
    (store.node.mapBlockIndex block.hashPrevBlock).isSome) refuse)
  match checkBlockReading services.toServices here.toPayeeState store.node block true with
  | .error (.outside site) => .error (.outside site)
  | .error (.failed failure) => do
      let _ ← checkBlockSignatureReading services.toServices signer block
      .error (.failed failure)
  | .ok () => do
      let signed ← checkBlockSignatureReading services.toServices signer block
      attempt (require signed refuse)
      (acceptBlock services here store block true).2

section Spends

variable (services : Services) (here : LocalState) (node : NodeState)

/-- The input names the output behind the last one of the transaction it
looks up. -/
def NamesBehind (txin : CTxIn) : Prop :=
  ∃ txPrev hashBlock, getTransaction node txin.prevout.hash = some (txPrev, hashBlock) ∧
    txin.prevout.n.toNat = txPrev.vout.length

/-- A public spend that names the output behind the last one. -/
def SpendsBehind (txin : CTxIn) : Prop :=
  txin.isZerocoinPublicSpend = true ∧ NamesBehind node txin

variable (txin : CTxIn)

theorem readPreviousOutput_outside (site : Site) :
    readPreviousOutput node txin = .error (.outside site) ↔
      site = .previousOutput ∧ NamesBehind node txin := by
  unfold readPreviousOutput NamesBehind
  cases found : getTransaction node txin.prevout.hash with
  | none => simp
  | some pair =>
    obtain ⟨txPrev, hashBlock⟩ := pair
    dsimp only
    split_ifs with behind
    · simp only [Option.some.injEq, Prod.mk.injEq, false_iff, not_and, not_exists]
      intro _ other _ same named
      rw [← same.1] at named
      omega
    · simp only [bind_outside, readAt_outside, reduceCtorEq, and_false, exists_false, or_false,
        Option.some.injEq, Prod.mk.injEq]
      constructor
      · intro outside
        exact ⟨outside.1.symm, txPrev, hashBlock, ⟨rfl, rfl⟩, by omega⟩
      · intro outside
        obtain ⟨place, other, _, ⟨same, _⟩, named⟩ := outside
        rw [← same] at named
        exact ⟨place.symm, by omega⟩

theorem readPreviousOutput_ok :
    readPreviousOutput node txin = .ok () ↔ ¬ NamesBehind node txin := by
  have outside := readPreviousOutput_outside node txin
  cases read : readPreviousOutput node txin with
  | ok done =>
    have inside : ¬ NamesBehind node txin := by
      intro behind
      have stops := (outside .previousOutput).mpr ⟨rfl, behind⟩
      rw [read] at stops
      cases stops
    simp [inside]
  | error stop =>
    cases stop with
    | outside site => simp [((outside site).mp read).2]
    | failed failure =>
      unfold readPreviousOutput at read
      split at read
      · cases read
      · split at read
        · cases read
        · unfold readAt at read
          split at read <;> cases read

theorem readSpentOutput_outside (site : Site) :
    readSpentOutput node txin = .error (.outside site) ↔
      site = .previousOutput ∧ SpendsBehind node txin := by
  unfold readSpentOutput SpendsBehind
  split_ifs with isPublic
  · simp [readPreviousOutput_outside, isPublic]
  · simp [isPublic]

theorem readSpentOutput_ok :
    readSpentOutput node txin = .ok () ↔ ¬ SpendsBehind node txin := by
  unfold readSpentOutput SpendsBehind
  split_ifs with isPublic
  · simp [readPreviousOutput_ok, isPublic]
  · simp [isPublic]

theorem getOutput_inside (hash : Uint256) (index : UInt32) (txout : CTxOut)
    (found : getOutput node hash index = .ok txout) (txPrev : CTransaction) (hashBlock : Uint256)
    (looked : getTransaction node hash = some (txPrev, hashBlock)) :
    index.toNat ≠ txPrev.vout.length := by
  intro behind
  unfold getOutput at found
  rw [looked] at found
  simp only [behind, lt_irrefl, if_false, getElem?_length] at found
  cases found

variable (tx : CTransaction) (fVerifySignature fFakeSerialAttack : Bool)

theorem redeemInput_inside
    (before after : Redemption) (txin : CTxIn)
    (taken : redeemInput services node tx fVerifySignature fFakeSerialAttack before txin =
      .ok after) : ¬ SpendsBehind node txin := by
  intro behind
  obtain ⟨isPublic, txPrev, hashBlock, looked, named⟩ := behind
  have spends : txin.spendsZerocoin = true := by simp [CTxIn.spendsZerocoin, isPublic]
  unfold redeemInput readRedeemed at taken
  simp only [spends, isPublic, Bool.not_true, Bool.false_eq_true, if_false, if_true, bind_eq_ok,
    orDos_eq_ok] at taken
  obtain ⟨_, ⟨prevOut, found, _⟩, _⟩ := taken
  exact getOutput_inside node _ _ prevOut found txPrev hashBlock looked named

theorem countSerial_inside (tx : CTransaction) (before after : List Int) (txIn : CTxIn)
    (taken : countSerial services node tx before txIn = .ok after) :
    ¬ SpendsBehind node txIn := by
  intro behind
  obtain ⟨isPublic, txPrev, hashBlock, looked, named⟩ := behind
  have spends : txIn.spendsZerocoin = true := by simp [CTxIn.spendsZerocoin, isPublic]
  unfold countSerial readSpend parseZerocoinPublicSpend at taken
  simp only [spends, isPublic, if_true, bind_eq_ok, orDos_eq_ok] at taken
  obtain ⟨_, ⟨_, ⟨prevOut, found, _⟩, _⟩, _⟩ := taken
  exact getOutput_inside node _ _ prevOut found txPrev hashBlock looked named

theorem redeemInputReading_ok
    (before after : Redemption) (txin : CTxIn) :
    redeemInputReading services node tx fVerifySignature fFakeSerialAttack before txin =
        .ok after ↔
      redeemInput services node tx fVerifySignature fFakeSerialAttack before txin = .ok after := by
  unfold redeemInputReading
  simp only [bind_eq_ok, attempt_eq_ok]
  constructor
  · intro round
    obtain ⟨_, _, taken⟩ := round
    exact taken
  · intro taken
    exact ⟨(), (readSpentOutput_ok node txin).mpr
      (redeemInput_inside services node tx _ _ before after txin taken), taken⟩

theorem redeemInputReading_outside (before : Redemption) (txin : CTxIn)
    (site : Site) :
    redeemInputReading services node tx fVerifySignature fFakeSerialAttack before txin =
        .error (.outside site) ↔ site = .previousOutput ∧ SpendsBehind node txin := by
  simp [redeemInputReading, bind_outside, readSpentOutput_outside]

theorem countSerialReading_ok (tx : CTransaction) (before after : List Int) (txIn : CTxIn) :
    countSerialReading services node tx before txIn = .ok after ↔
      countSerial services node tx before txIn = .ok after := by
  unfold countSerialReading
  simp only [bind_eq_ok, attempt_eq_ok]
  constructor
  · intro round
    obtain ⟨_, _, taken⟩ := round
    exact taken
  · intro taken
    exact ⟨(), (readSpentOutput_ok node txIn).mpr
      (countSerial_inside services node tx before after txIn taken), taken⟩

theorem countSerialReading_outside (tx : CTransaction) (before : List Int) (txIn : CTxIn)
    (site : Site) :
    countSerialReading services node tx before txIn = .error (.outside site) ↔
      site = .previousOutput ∧ SpendsBehind node txIn := by
  simp [countSerialReading, bind_outside, readSpentOutput_outside]

end Spends

section Transactions

variable (services : Services) (here : LocalState) (node : NodeState)

/-- An input of the transaction that the loop of `CheckZerocoinSpend` comes
to spends behind the end. -/
def RedeemsBehind (fZerocoinActive fFakeSerialAttack : Bool) (tx : CTransaction) : Prop :=
  checkTransactionBasics services tx fZerocoinActive = .ok () ∧
    redeemsInputs services tx fZerocoinActive = true ∧
    ∃ before txin after found, tx.vin = before ++ txin :: after ∧
      before.foldlM (redeemInput services node tx (verifiesSignatures here node)
        fFakeSerialAttack) emptyRedemption = .ok found ∧
      SpendsBehind node txin

/-- An input that the loop over the serial numbers comes to does. -/
def CountsBehind (vBlockSerials : List Int) (tx : CTransaction) : Prop :=
  tx.hasZerocoinSpendInputs = true ∧
    ∃ before txin after noted, tx.vin = before ++ txin :: after ∧
      before.foldlM (countSerial services node tx) vBlockSerials = .ok noted ∧
      SpendsBehind node txin

theorem isCoinBase_vin (tx : CTransaction) (coinBase : tx.isCoinBase = true) :
    ∃ txin, tx.vin = [txin] := by
  unfold CTransaction.isCoinBase at coinBase
  split at coinBase
  · rename_i txin inputs
    exact ⟨txin, inputs⟩
  · cases coinBase

variable (tx : CTransaction) (fZerocoinActive fFakeSerialAttack : Bool)

theorem checkTransaction_ok :
    checkTransaction services here node tx fZerocoinActive fFakeSerialAttack = .ok () ↔
      checkTransactionBasics services tx fZerocoinActive = .ok () ∧
        (fZerocoinActive = true →
          checkZerocoinInputs services here node tx fFakeSerialAttack = .ok ()) ∧
        checkInputCounts services tx fZerocoinActive = .ok () := by
  unfold checkTransaction checkTransactionBasics
  simp only [bind_eq_ok, dos, require_eq_ok, onlyIf_eq_ok, exists_and_right,
    and_assoc, Unique.exists_iff, PUnit.default_eq_unit]

theorem checkTransaction_redeems
    (checked : checkTransaction services here node tx fZerocoinActive fFakeSerialAttack = .ok ())
    (redeems : redeemsInputs services tx fZerocoinActive = true) :
    ∃ redeemed, tx.vin.foldlM (redeemInput services node tx (verifiesSignatures here node)
      fFakeSerialAttack) emptyRedemption = .ok redeemed := by
  simp only [redeemsInputs, Bool.and_eq_true] at redeems
  have inputs := ((checkTransaction_ok services here node tx _ _).mp checked).2.1 redeems.1.1.1.1
  unfold checkZerocoinInputs at inputs
  simp only [bind_eq_ok, dos, require_eq_ok, onlyIf_eq_ok, orDos_eq_ok, exists_and_left,
    exists_const] at inputs
  have spends := (inputs.2 redeems.1.1.2).2
  unfold checkZerocoinSpend at spends
  simp only [bind_eq_ok, dos, require_eq_ok, exists_and_left, exists_const] at spends
  obtain ⟨_, redeemed, folded, _⟩ := spends
  exact ⟨redeemed, folded⟩

theorem coinBaseScriptReading_eq (tx : CTransaction) : coinBaseScriptReading tx = .ok () := by
  unfold coinBaseScriptReading
  rw [isCoinBaseReading_eq]
  cases coinBase : tx.isCoinBase with
  | false => rfl
  | true =>
    obtain ⟨txin, inputs⟩ := isCoinBase_vin tx coinBase
    rw [inputs]
    rfl

theorem redeemedReading_ok
    (checked : checkTransaction services here node tx fZerocoinActive fFakeSerialAttack = .ok ()) :
    redeemedReading services here node tx fZerocoinActive fFakeSerialAttack = .ok () := by
  unfold redeemedReading
  split_ifs with redeems
  · rcases checkTransaction_redeems services here node tx _ _ checked redeems with
      ⟨redeemed, folded⟩
    have read := (foldlM_ok_iff (redeemInputReading services node tx
      (verifiesSignatures here node) fFakeSerialAttack) _ tx.vin emptyRedemption redeemed
      (fun txin _ before after =>
        redeemInputReading_ok services node tx _ _ before after txin)).mpr folded
    rw [bind_eq_ok]
    exact ⟨redeemed, (orDosReading_eq_ok _ _ _ _ _).mpr read, rfl⟩
  · rfl

theorem redeemedReading_outside
    (site : Site) :
    redeemedReading services here node tx fZerocoinActive fFakeSerialAttack =
        .error (.outside site) ↔
      redeemsInputs services tx fZerocoinActive = true ∧ site = .previousOutput ∧
        ∃ before txin after found, tx.vin = before ++ txin :: after ∧
          before.foldlM (redeemInput services node tx (verifiesSignatures here node)
            fFakeSerialAttack) emptyRedemption = .ok found ∧ SpendsBehind node txin := by
  have alike : ∀ (before : List CTxIn) found, before.foldlM (redeemInputReading services node tx
      (verifiesSignatures here node) fFakeSerialAttack) emptyRedemption = .ok found ↔
      before.foldlM (redeemInput services node tx (verifiesSignatures here node)
        fFakeSerialAttack) emptyRedemption = .ok found := by
    intro before found
    apply foldlM_ok_iff
    intro txin _ earlier later
    exact redeemInputReading_ok services node tx _ _ earlier later txin
  unfold redeemedReading
  split_ifs with redeems
  · simp only [bind_outside, orDosReading_outside, reduceCtorEq, and_false, exists_false,
      or_false, foldlM_outside, redeemInputReading_outside, alike, redeems, true_and]
    constructor
    · intro stops
      obtain ⟨before, txin, after, found, split, done, place, behind⟩ := stops
      exact ⟨place, before, txin, after, found, split, done, behind⟩
    · intro stops
      obtain ⟨place, before, txin, after, found, split, done, behind⟩ := stops
      exact ⟨before, txin, after, found, split, done, place, behind⟩
  · simp [redeems]

theorem checkTransactionReading_ok :
    checkTransactionReading services here node tx fZerocoinActive fFakeSerialAttack = .ok () ↔
      checkTransaction services here node tx fZerocoinActive fFakeSerialAttack = .ok () := by
  unfold checkTransactionReading
  simp only [bind_eq_ok, attempt_eq_ok, coinBaseScriptReading_eq, Unique.exists_iff,
    PUnit.default_eq_unit, true_and]
  constructor
  · intro run
    exact run.2.2
  · intro checked
    exact ⟨((checkTransaction_ok services here node tx _ _).mp checked).1,
      redeemedReading_ok services here node tx _ _ checked, checked⟩

theorem checkTransactionReading_outside (site : Site) :
    checkTransactionReading services here node tx fZerocoinActive fFakeSerialAttack =
        .error (.outside site) ↔
      site = .previousOutput ∧
        RedeemsBehind services here node fZerocoinActive fFakeSerialAttack tx := by
  unfold checkTransactionReading RedeemsBehind
  simp only [bind_outside, attempt_eq_ok, attempt_outside, coinBaseScriptReading_eq,
    redeemedReading_outside, Unique.exists_iff, PUnit.default_eq_unit, reduceCtorEq, and_false,
    false_or, or_false]
  constructor
  · intro stops
    obtain ⟨basics, redeems, place, rest⟩ := stops
    exact ⟨place, basics, redeems, rest⟩
  · intro stops
    obtain ⟨place, basics, redeems, rest⟩ := stops
    exact ⟨basics, redeems, place, rest⟩

theorem checkBlockTransactionReading_ok (fZerocoinActive : Bool) (before after : List Int)
    (tx : CTransaction) :
    checkBlockTransactionReading services here node fZerocoinActive before tx = .ok after ↔
      checkBlockTransaction services here node fZerocoinActive before tx = .ok after := by
  have alike : tx.vin.foldlM (countSerialReading services node tx) before = .ok after ↔
      tx.vin.foldlM (countSerial services node tx) before = .ok after := by
    apply foldlM_ok_iff
    intro txIn _ earlier later
    exact countSerialReading_ok services node tx earlier later txIn
  unfold checkBlockTransactionReading checkBlockTransaction
  simp only [bind_eq_ok, Unique.exists_iff, PUnit.default_eq_unit, checkTransactionReading_ok]
  split_ifs
  · rw [alike]
  · simp

/-- The ways out of the loop over the transactions of a block. -/
def ReadsBehind (fZerocoinActive : Bool) (vBlockSerials : List Int) (tx : CTransaction) : Prop :=
  RedeemsBehind services here node fZerocoinActive
      (isBlockBetweenFakeSerialAttackRange services.params (node.chainActive.nHeight + 1)) tx ∨
    checkTransaction services here node tx fZerocoinActive
        (isBlockBetweenFakeSerialAttackRange services.params (node.chainActive.nHeight + 1)) =
      .ok () ∧ CountsBehind services node vBlockSerials tx

theorem checkBlockTransactionReading_outside (fZerocoinActive : Bool) (vBlockSerials : List Int)
    (tx : CTransaction) (site : Site) :
    checkBlockTransactionReading services here node fZerocoinActive vBlockSerials tx =
        .error (.outside site) ↔
      site = .previousOutput ∧
        ReadsBehind services here node fZerocoinActive vBlockSerials tx := by
  have alike : ∀ (before : List CTxIn) noted,
      before.foldlM (countSerialReading services node tx) vBlockSerials = .ok noted ↔
        before.foldlM (countSerial services node tx) vBlockSerials = .ok noted := by
    intro before noted
    apply foldlM_ok_iff
    intro txIn _ earlier later
    exact countSerialReading_ok services node tx earlier later txIn
  unfold checkBlockTransactionReading ReadsBehind CountsBehind
  simp only [bind_outside, checkTransactionReading_outside, Unique.exists_iff,
    PUnit.default_eq_unit, checkTransactionReading_ok]
  cases spends : tx.hasZerocoinSpendInputs with
  | false => simp
  | true =>
    simp only [if_true, foldlM_outside, countSerialReading_outside, alike, true_and]
    constructor
    · intro stops
      rcases stops with redeems | ⟨checked, before, txin, after, noted, split, done, place,
        behind⟩
      · exact ⟨redeems.1, Or.inl redeems.2⟩
      · exact ⟨place, Or.inr ⟨checked, before, txin, after, noted, split, done, behind⟩⟩
    · intro stops
      rcases stops with ⟨place, redeems | ⟨checked, before, txin, after, noted, split, done,
        behind⟩⟩
      · exact Or.inl ⟨place, redeems⟩
      · exact Or.inr ⟨checked, before, txin, after, noted, split, done, place, behind⟩

end Transactions

section Blocks

variable (services : Services) (here : PayeeState) (node : NodeState) (block : CBlock)

/-- The block passes the checks of `CheckBlock` before the payee check. -/
structure ComesToPayee : Prop where
  basics : checkBlockBasics services block true = .ok ()
  shape : checkBlockShape block = .ok ()
  locks : checkBlockLocks here.toLocalState block = .ok ()

/-- The payee of a block above the last proof of work height is looked for in
its second transaction, and there is none. -/
structure PayeeOutside : Prop where
  comes : ComesToPayee services here block
  checked : checksPayee here node block = true
  synced : here.masternodeSynced = true
  height : services.params.nLastPOWBlock < blockHeight node block
  single : block.vtx.length = 1

/-- A transaction that `CheckBlock` comes to spends an output behind the last
one of its transaction. -/
structure OutputBehindLast : Prop where
  comes : ComesToPayee services here block
  payee : checkPayeeReading services.params here node block = .ok ()
  behind : ∃ before tx after vBlockSerials, block.vtx = before ++ tx :: after ∧
    before.foldlM (checkBlockTransaction services here.toLocalState node
      (zerocoinActive services.params block)) [] = .ok vBlockSerials ∧
    ReadsBehind services here.toLocalState node (zerocoinActive services.params block)
      vBlockSerials tx

theorem checkBlockBasics_vtx (basics : checkBlockBasics services block true = .ok ()) :
    ∃ first rest, block.vtx = first :: rest := by
  unfold checkBlockBasics at basics
  simp only [bind_eq_ok, dos, require_eq_ok, Bool.and_eq_true] at basics
  obtain ⟨_, _, _, _, ⟨nonempty, _⟩, _⟩ := basics
  cases transactions : block.vtx with
  | nil => simp [transactions] at nonempty
  | cons first rest => exact ⟨first, rest, rfl⟩

theorem isProofOfStake_vtx (proofOfStake : block.isProofOfStake = true) :
    ∃ first second rest, block.vtx = first :: second :: rest ∧ second.isCoinStake = true := by
  unfold CBlock.isProofOfStake at proofOfStake
  split at proofOfStake
  · rename_i first second rest transactions
    exact ⟨first, second, rest, transactions, proofOfStake⟩
  · cases proofOfStake

theorem isCoinStake_lists (tx : CTransaction) (coinStake : tx.isCoinStake = true) :
    ∃ txin moreInputs txout second moreOutputs, tx.vin = txin :: moreInputs ∧
      tx.vout = txout :: second :: moreOutputs := by
  unfold CTransaction.isCoinStake at coinStake
  split at coinStake
  · cases coinStake
  · rename_i txin moreInputs txout second moreOutputs inputs outputs
    exact ⟨txin, moreInputs, txout, second, moreOutputs, inputs, outputs⟩
  · cases coinStake

variable (first : CTransaction) (rest : List CTransaction)

theorem checkBlockShapeReading_eq (transactions : block.vtx = first :: rest) :
    checkBlockShapeReading block = attempt (checkBlockShape block) := by
  unfold checkBlockShapeReading
  have head : (readAt .checkedTransaction block.vtx 0 : Reading CTransaction) = .ok first := by
    rw [transactions]
    rfl
  rw [head]
  simp only [bind, Except.bind, isCoinBaseReading_eq, isProofOfStakeReading_eq]
  split_ifs with proofOfStake single
  · obtain ⟨_, second, others, same, _⟩ := isProofOfStake_vtx block (by simp_all)
    obtain ⟨txout, outputs⟩ := length_eq_one_iff.mp single
    rw [same, outputs]
    simp [readAt]
  · obtain ⟨_, second, others, same, _⟩ := isProofOfStake_vtx block (by simp_all)
    rw [same]
    simp [readAt]
  · rfl

theorem checkPayeeReading_outside (transactions : block.vtx = first :: rest) (site : Site) :
    checkPayeeReading services.params here node block = .error (.outside site) ↔
      site = .payeeTransaction ∧ checksPayee here node block = true ∧
        here.masternodeSynced = true ∧ services.params.nLastPOWBlock < blockHeight node block ∧
        block.vtx.length = 1 := by
  have short : block.vtx.length ≤ 1 ↔ block.vtx.length = 1 := by
    rw [transactions, length_cons]
    omega
  have nonempty : ¬ block.vtx.length ≤ 0 := by simp [transactions]
  unfold checkPayeeReading isBlockPayeeValidReading
  cases checked : checksPayee here node block with
  | false => simp
  | true =>
    cases synced : here.masternodeSynced with
    | false => simp [bind_outside]
    | true =>
      by_cases above : services.params.nLastPOWBlock < blockHeight node block
      · simp only [if_true, bind_outside, readAt_outside, attempt_outside,
          Bool.not_true, Bool.false_eq_true, if_false, reduceCtorEq, and_false, exists_false,
          or_false, true_and, above, short]
        constructor
        · exact fun outside => ⟨outside.1.symm, outside.2⟩
        · exact fun outside => ⟨outside.1.symm, outside.2⟩
      · simp [bind_outside, readAt_outside, above, nonempty]

/-- The loop of `CheckBlock` over the transactions with its reads, and the
loop itself. -/
theorem checkBlockTransactions_ok (transactions : List CTransaction)
    (vBlockSerials : List Int) (fZerocoinActive : Bool) :
    transactions.foldlM (checkBlockTransactionReading services here.toLocalState node
        fZerocoinActive) [] = .ok vBlockSerials ↔
      transactions.foldlM (checkBlockTransaction services here.toLocalState node
        fZerocoinActive) [] = .ok vBlockSerials := by
  apply foldlM_ok_iff
  intro tx _ before after
  exact checkBlockTransactionReading_ok services here.toLocalState node fZerocoinActive before
    after tx

theorem checkBlockReading_outside (site : Site) :
    checkBlockReading services here node block true = .error (.outside site) ↔
      (site = .payeeTransaction ∧ PayeeOutside services here node block) ∨
        (site = .previousOutput ∧ OutputBehindLast services here node block) := by
  unfold checkBlockReading
  rw [isProofOfStakeReading_eq]
  cases basics : checkBlockBasics services block true with
  | error failure =>
    have never : ¬ ComesToPayee services here block := by
      intro comes
      rw [comes.basics] at basics
      cases basics
    simp only [bind, Except.bind, attempt, reduceCtorEq, false_iff, not_or, not_and,
      Except.error.injEq]
    exact ⟨fun _ outside => never outside.comes, fun _ behind => never behind.comes⟩
  | ok done =>
    obtain ⟨first, rest, transactions⟩ := checkBlockBasics_vtx services block basics
    simp only [bind_outside, attempt_outside, attempt_eq_ok, attempt_ok,
      checkBlockShapeReading_eq block first rest transactions, false_or, or_false,
      checkPayeeReading_outside services here node block first rest transactions, foldlM_outside,
      checkBlockTransactions_ok, checkBlockTransactionReading_outside, Unique.exists_iff,
      PUnit.default_eq_unit, reduceCtorEq, and_false, exists_false]
    constructor
    · intro stops
      obtain ⟨_, _, _, shape, locks, payee | ⟨payee, behind⟩⟩ := stops
      · left
        exact ⟨payee.1, ⟨basics, shape, locks⟩, payee.2.1, payee.2.2.1, payee.2.2.2.1,
          payee.2.2.2.2⟩
      · right
        obtain ⟨before, tx, after, serials, split, folded, place, behind⟩ := behind
        exact ⟨place, ⟨basics, shape, locks⟩, payee, before, tx, after, serials, split, folded,
          behind⟩
    · intro missing
      obtain ⟨place, outside⟩ | ⟨place, behind⟩ := missing
      · exact ⟨_, rfl, trivial, outside.comes.shape, outside.comes.locks, Or.inl ⟨place,
          outside.checked, outside.synced, outside.height, outside.single⟩⟩
      · obtain ⟨before, tx, after, serials, split, folded, reads⟩ := behind.behind
        exact ⟨_, rfl, trivial, behind.comes.shape, behind.comes.locks, Or.inr ⟨behind.payee,
          before, tx, after, serials, split, folded, place, reads⟩⟩

theorem checkBlockReading_ok (checked : checkBlockReading services here node block true = .ok ()) :
    ComesToPayee services here block ∧
      ∃ vBlockSerials, block.vtx.foldlM (checkBlockTransaction services here.toLocalState node
        (zerocoinActive services.params block)) [] = .ok vBlockSerials := by
  unfold checkBlockReading at checked
  simp only [bind_eq_ok, isProofOfStakeReading_eq, Except.ok.injEq, exists_eq_left',
    attempt_eq_ok, Unique.exists_iff, PUnit.default_eq_unit] at checked
  obtain ⟨basics, shape, locks, payee, serials, folded, _⟩ := checked
  obtain ⟨first, rest, transactions⟩ := checkBlockBasics_vtx services block basics
  rw [checkBlockShapeReading_eq block first rest transactions, attempt_eq_ok] at shape
  exact ⟨⟨basics, shape, locks⟩, serials, (checkBlockTransactions_ok services here node _ _ _).mp
    folded⟩

/-- No zerocoin input of a block that passes `CheckBlock` spends behind the
end. -/
theorem checkBlockReading_spends
    (checked : checkBlockReading services here node block true = .ok ()) (tx : CTransaction)
    (inBlock : tx ∈ block.vtx) (txin : CTxIn) (input : txin ∈ tx.vin) :
    ¬ SpendsBehind node txin := by
  intro behind
  obtain ⟨serials, folded⟩ := (checkBlockReading_ok services here node block checked).2
  obtain ⟨before, after, round⟩ := foldlM_visits _ _ _ _ folded tx inBlock
  unfold checkBlockTransaction at round
  rw [bind_eq_ok] at round
  obtain ⟨_, _, counted⟩ := round
  have spends : txin.spendsZerocoin = true := by simp [CTxIn.spendsZerocoin, behind.1]
  rw [if_pos (hasZerocoinSpendInputs_of_mem tx txin input spends)] at counted
  obtain ⟨earlier, later, count⟩ := foldlM_visits _ _ _ _ counted txin input
  exact countSerial_inside services node tx earlier later txin count behind

theorem checkBlockReading_inputs
    (checked : checkBlockReading services here node block true = .ok ()) (tx : CTransaction)
    (inBlock : tx ∈ block.vtx) : ∃ txin rest, tx.vin = txin :: rest := by
  obtain ⟨serials, folded⟩ := (checkBlockReading_ok services here node block checked).2
  obtain ⟨before, after, round⟩ := foldlM_visits _ _ _ _ folded tx inBlock
  unfold checkBlockTransaction at round
  rw [bind_eq_ok] at round
  obtain ⟨_, passed, _⟩ := round
  have basics := ((checkTransaction_ok services here.toLocalState node tx _ _).mp passed).1
  unfold checkTransactionBasics at basics
  simp only [bind_eq_ok, dos, require_eq_ok, exists_and_right] at basics
  cases inputs : tx.vin with
  | nil => simp [inputs] at basics
  | cons txin rest => exact ⟨txin, rest, rfl⟩

theorem blockPubKeyReading_inside (coinstake : CTransaction)
    (staked : coinstake.isCoinStake = true) (site : Site) :
    blockPubKeyReading services coinstake ≠ .error (.outside site) := by
  rcases isCoinStake_lists coinstake staked with ⟨txin, moreInputs, txout, second, moreOutputs,
    inputs, outputs⟩
  have input : (readAt .signature coinstake.vin 0 : Reading CTxIn) = .ok txin := by
    rw [inputs]
    rfl
  have output : (readAt .signature coinstake.vout 1 : Reading CTxOut) = .ok second := by
    rw [outputs]
    rfl
  intro stops
  unfold blockPubKeyReading at stops
  rw [input, output] at stops
  simp only [bind_outside, Except.ok.injEq, exists_eq_left', reduceCtorEq, false_or] at stops
  split at stops
  · simp [bind_outside] at stops
  · simp only [bind_outside, attempt_outside, attempt_eq_ok, ofFault_eq_ok, Except.ok.injEq,
      exists_eq_left', reduceCtorEq, false_or] at stops
    obtain ⟨solution, solved, stops⟩ := stops
    split at stops
    · cases stops
    · rename_i succeeded
      split at stops
      · rename_i keyed
        simp only [bind_outside, readAt_outside, reduceCtorEq, and_false, exists_false, or_false,
          Nat.le_zero, length_eq_zero_iff] at stops
        exact solver_solutions second.scriptPubKey solution solved (by simpa using succeeded)
          keyed stops.2
      · cases stops

theorem checkBlockSignatureReading_inside (signer : BlockSigner) (site : Site) :
    checkBlockSignatureReading services signer block ≠ .error (.outside site) := by
  intro stops
  unfold checkBlockSignatureReading at stops
  rw [isProofOfStakeReading_eq] at stops
  cases proofOfStake : block.isProofOfStake with
  | false =>
    rw [proofOfStake] at stops
    cases stops
  | true =>
    rcases isProofOfStake_vtx block proofOfStake with ⟨first, coinstake, rest, transactions,
      staked⟩
    have reads : (readAt .signature block.vtx 1 : Reading CTransaction) = .ok coinstake := by
      rw [transactions]
      rfl
    rw [proofOfStake, reads] at stops
    simp only [bind_outside, Except.ok.injEq, exists_eq_left', reduceCtorEq, false_or,
      Bool.not_true, Bool.false_eq_true, if_false] at stops
    split at stops
    · cases stops
    · simp only [bind_outside, blockPubKeyReading_inside services coinstake staked,
        Except.ok.injEq, exists_eq_left', reduceCtorEq, false_or] at stops
      obtain ⟨pubkey, _, stops⟩ := stops
      cases pubkey <;> cases stops

end Blocks

section Accepting

variable (services : AcceptServices) (signer : BlockSigner) (here : AcceptState)
  (store : BlockStore) (block : CBlock)

/-- The block has passed `CheckBlock` and `CheckBlockSignature`, and its
parent is known and not marked. -/
structure ComesToProofs (pindexPrev : CBlockIndex) : Prop where
  checked : checkBlockReading services.toServices here.toPayeeState store.node block true = .ok ()
  signed : checkBlockSignatureReading services.toServices signer block = .ok true
  unmarked : markedParent services store block = none
  parent : parentOf services store block = .ok pindexPrev
  work : block.hash = services.params.hashGenesisBlock ∨
    checkWork services.params services.nearEnough block pindexPrev = true

/-- The kernel names an output that the transaction it looks up does not have. -/
def KernelOutputMissing (node : NodeState) (block : CBlock) : Prop :=
  ∃ tx txin txPrev hashBlock, block.vtx[1]? = some tx ∧ tx.vin[0]? = some txin ∧
    txin.isZerocoinSpend = false ∧
    getTransaction node txin.prevout.hash = some (txPrev, hashBlock) ∧
    txPrev.vout.length ≤ txin.prevout.n.toNat

/-- A proof of stake block comes to its proof without its staked output. -/
structure StakedOutputMissing : Prop where
  proofOfStake : block.isProofOfStake = true
  comes : ∃ pindexPrev, pindexPrev ≠ [] ∧ ComesToProofs services signer here store block pindexPrev
  missing : KernelOutputMissing store.node block

/-- A block of one transaction meets modifier V2, which takes the kernel from the second one. -/
structure ModifierKernelMissing : Prop where
  single : block.vtx.length = 1
  unknown : store.node.mapBlockIndex block.hash = none
  comes : ∃ pindexPrev, ComesToProofs services signer here store block pindexPrev ∧
    contextualCheckBlockHeader services here.toLocalState store.node block pindexPrev = .ok ()
  modifier : ∃ pprev, store.node.mapBlockIndex block.hashPrevBlock = some pprev ∧ pprev ≠ [] ∧
    services.params.isStakeModifierV2 (pprev.nHeight + 1) = true

theorem initStakeInput_outside (tx : CTransaction) (staked : tx.isCoinStake = true)
    (nPreviousBlockHeight : Int) (site : Site) :
    initStakeInput services.toStakeServices store.node tx nPreviousBlockHeight =
        .error (.outside site) ↔
      site = .stakedOutput ∧ ∃ txin txPrev hashBlock, tx.vin[0]? = some txin ∧
        txin.isZerocoinSpend = false ∧
        getTransaction store.node txin.prevout.hash = some (txPrev, hashBlock) ∧
        txPrev.vout.length ≤ txin.prevout.n.toNat := by
  rcases isCoinStake_lists tx staked with ⟨txin, moreInputs, txout, second, moreOutputs, inputs,
    outputs⟩
  have input : (readAt .kernel tx.vin 0 : Reading CTxIn) = .ok txin := by
    rw [inputs]
    rfl
  unfold initStakeInput
  rw [input, inputs, staked]
  simp only [bind_outside, attempt_outside, attempt_eq_ok, refuse, require_eq_ok, Except.ok.injEq,
    exists_eq_left', reduceCtorEq, false_or, getElem?_cons_zero, Option.some.injEq,
    Unique.exists_iff, true_and]
  split_ifs with privateSpend
  · simp [bind_outside, privateSpend]
  · simp only [bind_outside, attempt_outside, attempt_eq_ok, ofOption_eq_ok, readAt_outside,
      reduceCtorEq, false_or, and_false, exists_false, or_false]
    constructor
    · intro missing
      obtain ⟨pair, found, place, short⟩ := missing
      exact ⟨place.symm, txin, pair.1, pair.2, rfl, by simpa using privateSpend, found, short⟩
    · intro missing
      obtain ⟨place, other, txPrev, hashBlock, same, _, found, short⟩ := missing
      cases same
      exact ⟨(txPrev, hashBlock), found, place.symm, short⟩

theorem initStakeInput_value (tx : CTransaction) (nPreviousBlockHeight : Int)
    (stake : CStakeInput)
    (initialised : initStakeInput services.toStakeServices store.node tx nPreviousBlockHeight =
      .ok stake) : ∃ nValueIn, getValue stake = .ok nValueIn := by
  unfold initStakeInput at initialised
  simp only [bind_eq_ok] at initialised
  obtain ⟨_, _, txin, _, branch⟩ := initialised
  split at branch
  · simp only [bind_eq_ok] at branch
    obtain ⟨_, _, _, _, _, _, result⟩ := branch
    cases result
    exact ⟨_, rfl⟩
  · simp only [bind_eq_ok, attempt_eq_ok, readAt_eq_ok] at branch
    obtain ⟨txPrev, _, txout, found, _, _, result⟩ := branch
    cases result
    refine ⟨txout.nValue, ?_⟩
    unfold getValue
    rw [bind_eq_ok]
    exact ⟨txout, (readAt_eq_ok _ _ _ _).mpr found, rfl⟩

variable (pindexPrev : CBlockIndex)

theorem checkStakeKernelHash_inside (nBits nTimeTx : UInt32)
    (stake : CStakeInput) (nValueIn : CAmount) (value : getValue stake = .ok nValueIn)
    (site : Site) :
    checkStakeKernelHash services.toStakeServices store.node store.stakeEntry pindexPrev nBits
      stake nTimeTx ≠ .error (.outside site) := by
  unfold checkStakeKernelHash
  simp [bind_outside, value]

theorem checkProofOfStake_outside (nPreviousBlockHeight : Int)
    (proofOfStake : block.isProofOfStake = true) (site : Site) :
    checkProofOfStake services.toStakeServices store.node store.stakeEntry block pindexPrev
        nPreviousBlockHeight = .error (.outside site) ↔
      site = .stakedOutput ∧ KernelOutputMissing store.node block := by
  obtain ⟨first, second, rest, transactions, staked⟩ := isProofOfStake_vtx block proofOfStake
  obtain ⟨txin, moreInputs, _, _, _, inputs, _⟩ := isCoinStake_lists second staked
  have coinstake : (readAt .kernel block.vtx 1 : Reading CTransaction) = .ok second := by
    rw [transactions]
    rfl
  have input : (readAt .kernel second.vin 0 : Reading CTxIn) = .ok txin := by
    rw [inputs]
    rfl
  have same : block.vtx[1]? = some second := by simp [transactions]
  unfold checkProofOfStake
  rw [coinstake]
  constructor
  · intro stops
    simp only [bind_outside, Except.ok.injEq, exists_eq_left', reduceCtorEq, false_or, input,
      attempt_outside] at stops
    obtain outside | ⟨stake, initialised, _, _, _, _, kernel⟩ := stops
    · rcases (initStakeInput_outside services store second staked _ site).mp outside with
        ⟨place, kernel, txPrev, hashBlock, missing⟩
      exact ⟨place, second, kernel, txPrev, hashBlock, same, missing⟩
    · obtain ⟨nValueIn, value⟩ := initStakeInput_value services store second _ stake initialised
      exact absurd kernel (checkStakeKernelHash_inside services store pindexPrev _ _ stake nValueIn
        value site)
  · intro missing
    obtain ⟨place, tx, txin, txPrev, hashBlock, found, rest⟩ := missing
    rw [same] at found
    cases found
    rw [bind_outside]
    right
    refine ⟨second, rfl, ?_⟩
    rw [bind_outside]
    left
    exact (initStakeInput_outside services store second staked _ site).mpr
      ⟨place, txin, txPrev, hashBlock, rest⟩

theorem checkProofs_outside (site : Site) :
    checkProofs services store block pindexPrev = .error (.outside site) ↔
      (block.hash = services.params.hashGenesisBlock ∨
        checkWork services.params services.nearEnough block pindexPrev = true) ∧
      block.isProofOfStake = true ∧ pindexPrev ≠ [] ∧ site = .stakedOutput ∧
        KernelOutputMissing store.node block := by
  unfold checkProofs
  simp only [bind_outside, attempt_outside, attempt_eq_ok, refuse, require_eq_ok,
    isProofOfStakeReading_eq, Except.ok.injEq, exists_eq_left', reduceCtorEq, false_or,
    Bool.or_eq_true, decide_eq_true_eq, Unique.exists_iff]
  cases proofOfStake : block.isProofOfStake with
  | false => simp
  | true =>
    simp only [if_true, bind_outside, attempt_outside, attempt_eq_ok, require_eq_ok,
      orDosReading_outside, reduceCtorEq, false_or, or_false, and_false, exists_false,
      Unique.exists_iff, checkProofOfStake_outside services store block pindexPrev _ proofOfStake,
      true_and, isEmpty_eq_false_iff, Bool.not_eq_true', ne_eq]

theorem readIndexedStake_ok : readIndexedStake block = .ok () := by
  unfold readIndexedStake
  rw [isProofOfStakeReading_eq]
  cases proofOfStake : block.isProofOfStake with
  | false => rfl
  | true =>
    obtain ⟨first, second, rest, transactions, staked⟩ := isProofOfStake_vtx block proofOfStake
    obtain ⟨txin, moreInputs, _, _, _, inputs, _⟩ := isCoinStake_lists second staked
    rw [transactions]
    simp [readAt, inputs, bind, Except.bind, pure, Except.pure]

theorem newStakeEntry_outside (stakeEntry : CBlockIndex → StakeEntry) (pprev : CBlockIndex)
    (inputs : ∀ tx ∈ block.vtx, ∃ txin rest, tx.vin = txin :: rest) (site : Site) :
    newStakeEntry services stakeEntry block pprev = .error (.outside site) ↔
      site = .modifierKernel ∧ pprev ≠ [] ∧
        services.params.isStakeModifierV2 (pprev.nHeight + 1) = true ∧ block.vtx.length ≤ 1 := by
  unfold newStakeEntry
  cases pprev with
  | nil => simp
  | cons parent older =>
    simp only [isEmpty_cons, Bool.false_eq_true, if_false]
    cases version : services.params.isStakeModifierV2
        (CBlockIndex.nHeight (parent :: older) + 1) with
    | false => simp
    | true =>
      simp only [Bool.not_true, Bool.false_eq_true, if_false, bind_outside, readAt_outside,
        readAt_eq_ok, reduceCtorEq, and_false, exists_false, or_false, ne_eq, not_false_eq_true,
        true_and]
      constructor
      · intro stops
        obtain ⟨place, short⟩ | ⟨tx, found, _, none⟩ := stops
        · exact ⟨place.symm, short⟩
        · obtain ⟨txin, rest, same⟩ := inputs tx (mem_of_getElem? found)
          simp [same] at none
      · intro stops
        exact Or.inl ⟨stops.1.symm, stops.2⟩

theorem addToBlockIndex_outside (inputs : ∀ tx ∈ block.vtx, ∃ txin rest, tx.vin = txin :: rest)
    (unknown : store.node.mapBlockIndex block.hash = none) (site : Site) :
    addToBlockIndex services store block = .error (.outside site) ↔
      site = .modifierKernel ∧
        (∃ pprev, store.node.mapBlockIndex block.hashPrevBlock = some pprev ∧ pprev ≠ [] ∧
          services.params.isStakeModifierV2 (pprev.nHeight + 1) = true) ∧
        block.vtx.length ≤ 1 := by
  unfold addToBlockIndex
  simp only [unknown, bind_outside, readIndexedStake_ok, newStakeEntry_outside services block _ _
    inputs, reduceCtorEq, and_false, exists_false, false_or, or_false, Unique.exists_iff, true_and]
  cases store.node.mapBlockIndex block.hashPrevBlock with
  | none => simp
  | some pprev => simp [and_assoc]

theorem acceptBlockHeader_outside
    (inputs : ∀ tx ∈ block.vtx, ∃ txin rest, tx.vin = txin :: rest)
    (unmarked : markedParent services store block = none)
    (parent : parentOf services store block = .ok pindexPrev) (site : Site) :
    acceptBlockHeader services here store block = .error (.outside site) ↔
      site = .modifierKernel ∧ store.node.mapBlockIndex block.hash = none ∧
        contextualCheckBlockHeader services here.toLocalState store.node block pindexPrev =
          .ok () ∧
        (∃ pprev, store.node.mapBlockIndex block.hashPrevBlock = some pprev ∧ pprev ≠ [] ∧
          services.params.isStakeModifierV2 (pprev.nHeight + 1) = true) ∧
        block.vtx.length ≤ 1 := by
  unfold acceptBlockHeader
  cases unknown : store.node.mapBlockIndex block.hash with
  | some pindex => simp [bind_outside]
  | none =>
    have stage : (if block.hash = services.params.hashGenesisBlock then .ok []
        else do
          let pindexPrev ← attempt
            (ofOption (store.node.mapBlockIndex block.hashPrevBlock) (dos 0 "bad-prevblk"))
          attempt (require (!(store.nStatus pindexPrev).fFailed) (dos 100 "bad-prevblk"))
          .ok pindexPrev : Reading CBlockIndex) = .ok pindexPrev := by
      unfold parentOf at parent
      unfold markedParent at unmarked
      split_ifs at parent unmarked ⊢ with genesis
      · cases parent
        rfl
      · simp only [dos, ofOption_eq_ok] at parent
        simp only [parent, Option.filter_eq_none_iff] at unmarked
        have sound := unmarked pindexPrev rfl
        simp only [bind_eq_ok, attempt_eq_ok, dos, ofOption_eq_ok, require_eq_ok, parent]
        exact ⟨pindexPrev, rfl, (), by simpa using sound, rfl⟩
    dsimp only
    rw [stage]
    simp only [bind_outside, attempt_outside, attempt_eq_ok, Except.ok.injEq, exists_eq_left',
      reduceCtorEq, false_or, Unique.exists_iff, true_and, PUnit.default_eq_unit,
      addToBlockIndex_outside services store block inputs unknown]
    constructor
    · intro stops
      exact ⟨stops.2.1, stops.1, stops.2.2⟩
    · intro stops
      exact ⟨stops.2.1, stops.1, stops.2.2⟩

theorem acceptBlockHeader_lookups (after : BlockStore) (pindex : CBlockIndex)
    (accepted : acceptBlockHeader services here store block = .ok (after, pindex)) :
    getTransaction after.node = getTransaction store.node := by
  unfold acceptBlockHeader at accepted
  cases known : store.node.mapBlockIndex block.hash with
  | some found =>
    simp only [known, bind_eq_ok, exists_and_right] at accepted
    obtain ⟨_, result⟩ := accepted
    cases result
    rfl
  | none =>
    simp only [known, bind_eq_ok] at accepted
    obtain ⟨_, _, _, _, added⟩ := accepted
    unfold addToBlockIndex at added
    simp only [known, bind_eq_ok] at added
    obtain ⟨_, _, entry, _, result⟩ := added
    cases result
    rfl

theorem contextualCheckBlock_inside (node : NodeState) (pindexPrev : CBlockIndex)
    (first : CTransaction) (rest : List CTransaction) (transactions : block.vtx = first :: rest)
    (txin : CTxIn) (moreInputs : List CTxIn) (inputs : first.vin = txin :: moreInputs)
    (site : Site) :
    contextualCheckBlock services here.toLocalState node block pindexPrev ≠
      .error (.outside site) := by
  have head : (readAt .heightScript block.vtx 0 : Reading CTransaction) = .ok first := by
    rw [transactions]
    rfl
  have input : (readAt .heightScript first.vin 0 : Reading CTxIn) = .ok txin := by
    rw [inputs]
    rfl
  unfold contextualCheckBlock
  rw [head]
  intro stops
  simp only [bind_outside, attempt_outside, false_or] at stops
  obtain ⟨_, _, _, _, stops⟩ := stops
  split at stops
  · simp [bind_outside, input] at stops
  · cases stops

theorem checkInBlock_inside (nHeight : Int) (stakeTx tx : CTransaction)
    (inBlockSerials : List Int) (txin : CTxIn) (spends : ¬ SpendsBehind store.node txin)
    (site : Site) :
    checkInBlock services store nHeight stakeTx tx inBlockSerials txin ≠
      .error (.outside site) := by
  unfold checkInBlock
  intro stops
  simp only [bind_outside, attempt_outside, reduceCtorEq, and_false, exists_false, or_false]
    at stops
  split at stops
  · simp only [bind_outside, attempt_outside, readSpentOutput_outside, reduceCtorEq, and_false,
      exists_false, or_false, false_or] at stops
    obtain ⟨_, _, _, behind⟩ := stops
    exact spends behind
  · cases stops

theorem checkStake_inside (nHeight : Int)
    (proofOfStake : block.isProofOfStake = true)
    (spends : ∀ tx ∈ block.vtx, ∀ txin ∈ tx.vin, ¬ SpendsBehind store.node txin) (site : Site) :
    checkStake services store block pindexPrev nHeight ≠ .error (.outside site) := by
  obtain ⟨first, second, rest, transactions, _⟩ := isProofOfStake_vtx block proofOfStake
  have coinstake : (readAt .acceptedStake block.vtx 1 : Reading CTransaction) = .ok second := by
    rw [transactions]
    rfl
  unfold checkStake
  rw [coinstake]
  intro stops
  simp only [bind_outside, attempt_outside, foldlM_outside, Except.ok.injEq, exists_eq_left',
    reduceCtorEq, and_false, exists_false, or_false, false_or] at stops
  obtain ⟨before, tx, after, _, split, _, earlier, txin, later, _, inputs, _, outside⟩ := stops
  have inBlock : tx ∈ block.vtx := by simp [split]
  have input : txin ∈ tx.vin := by simp [inputs]
  exact checkInBlock_inside services store nHeight second tx _ txin (spends tx inBlock txin input)
    site outside

theorem andThen_outside {α β : Type} (run : Reading α) (next : α → BlockStore × Reading β)
    (site : Site) :
    (andThen store run next).2 = .error (.outside site) ↔
      run = .error (.outside site) ∨
        ∃ value, run = .ok value ∧ (next value).2 = .error (.outside site) := by
  cases run with
  | error stop => simp [andThen]
  | ok value => simp [andThen]

theorem acceptNew_inside (pindexPrev pindex : CBlockIndex) (isPoS : Bool)
    (first : CTransaction) (rest : List CTransaction) (transactions : block.vtx = first :: rest)
    (txin : CTxIn) (moreInputs : List CTxIn) (inputs : first.vin = txin :: moreInputs)
    (proofOfStake : isPoS = true → block.isProofOfStake = true)
    (spends : ∀ tx ∈ block.vtx, ∀ txin ∈ tx.vin, ¬ SpendsBehind store.node txin) (site : Site) :
    (acceptNew services here store block pindexPrev pindex isPoS true).2 ≠
      .error (.outside site) := by
  unfold acceptNew
  intro stops
  split at stops
  · rename_i stop stopped
    unfold checkAccepted at stopped
    cases stops
    exact contextualCheckBlock_inside services here block store.node pindex.pprev first rest
      transactions txin moreInputs inputs site stopped
  · simp only [andThen_outside, attempt_outside, reduceCtorEq, and_false, exists_false, or_false]
      at stops
    split at stops
    · rename_i isStake
      exact checkStake_inside services store block pindexPrev _ (proofOfStake isStake) spends site
        stops
    · cases stops

theorem checkProofs_ok (proof : Option Uint256)
    (checked : checkProofs services store block pindexPrev = .ok proof) :
    (block.hash = services.params.hashGenesisBlock ∨
      checkWork services.params services.nearEnough block pindexPrev = true) ∧
      proof.isSome = block.isProofOfStake := by
  unfold checkProofs at checked
  simp only [bind_eq_ok, attempt_eq_ok, refuse, require_eq_ok, exists_and_left, exists_const,
    isProofOfStakeReading_eq, Except.ok.injEq, exists_eq_left', Bool.or_eq_true,
    decide_eq_true_eq] at checked
  obtain ⟨work, branch⟩ := checked
  refine ⟨work, ?_⟩
  cases proofOfStake : block.isProofOfStake with
  | false =>
    rw [proofOfStake] at branch
    cases branch
    rfl
  | true =>
    rw [proofOfStake, if_pos rfl] at branch
    simp only [bind_eq_ok] at branch
    obtain ⟨_, _, _, _, result⟩ := branch
    cases result
    rfl

theorem checkProofs_work
    (work : block.hash = services.params.hashGenesisBlock ∨
      checkWork services.params services.nearEnough block pindexPrev = true)
    (proofOfWork : block.isProofOfStake = false) :
    checkProofs services store block pindexPrev = .ok none := by
  unfold checkProofs
  have passes : (decide (block.hash = services.params.hashGenesisBlock) ||
      checkWork services.params services.nearEnough block pindexPrev) = true := by
    simpa using work
  rw [passes, isProofOfStakeReading_eq, proofOfWork]
  rfl

theorem acceptBehindMarked_inside (site : Site) :
    (acceptBehindMarked services here store block pindexPrev).2 ≠ .error (.outside site) := by
  unfold acceptBehindMarked
  split_ifs
  · split <;> simp
  · simp

/-- Where `AcceptBlock` reads outside, once the block has passed the checks of
its caller. -/
theorem acceptBlock_outside
    (checked : checkBlockReading services.toServices here.toPayeeState store.node block true =
      .ok ())
    (signed : checkBlockSignatureReading services.toServices signer block = .ok true)
    (site : Site) :
    (acceptBlock services here store block true).2 = .error (.outside site) ↔
      site = .stakedOutput ∧ StakedOutputMissing services signer here store block ∨
        site = .modifierKernel ∧ ModifierKernelMissing services signer here store block := by
  have inputs : ∀ tx ∈ block.vtx, ∃ txin rest, tx.vin = txin :: rest :=
    checkBlockReading_inputs services.toServices here.toPayeeState store.node block checked
  have spends : ∀ tx ∈ block.vtx, ∀ txin ∈ tx.vin, ¬ SpendsBehind store.node txin :=
    checkBlockReading_spends services.toServices here.toPayeeState store.node block checked
  have basics := (checkBlockReading_ok services.toServices here.toPayeeState store.node block
    checked).1.basics
  obtain ⟨first, rest, transactions⟩ := checkBlockBasics_vtx services.toServices block basics
  obtain ⟨txin, moreInputs, firstInputs⟩ := inputs first (by simp [transactions])
  unfold acceptBlock
  cases unmarked : markedParent services store block with
  | some pindexPrev =>
    constructor
    · intro stops
      exact absurd stops (acceptBehindMarked_inside services here store block pindexPrev site)
    · intro missing
      obtain ⟨_, staked⟩ | ⟨_, modifier⟩ := missing
      · obtain ⟨_, _, comes⟩ := staked.comes
        rw [comes.unmarked] at unmarked
        cases unmarked
      · obtain ⟨_, comes, _⟩ := modifier.comes
        rw [comes.unmarked] at unmarked
        cases unmarked
  | none =>
    simp only [andThen_outside, attempt_outside, attempt_eq_ok, false_or]
    constructor
    · intro stops
      obtain ⟨pindexPrev, parent, proofs | ⟨proof, proved, header⟩⟩ := stops
      · rcases (checkProofs_outside services store block pindexPrev site).mp proofs with
          ⟨work, proofOfStake, present, place, missing⟩
        exact Or.inl ⟨place, proofOfStake, ⟨pindexPrev, present, checked, signed, unmarked,
          parent, work⟩, missing⟩
      · rcases checkProofs_ok services store block pindexPrev proof proved with
          ⟨work, isSome⟩
        obtain outside | ⟨⟨after, pindex⟩, accepted, stops⟩ := header
        · rcases (acceptBlockHeader_outside services here (recordProof store block proof) block
            pindexPrev inputs unmarked parent site).mp outside with
            ⟨place, unknown, contextual, version, short⟩
          have single : block.vtx.length = 1 := by
            rw [transactions, length_cons] at short ⊢
            omega
          exact Or.inr ⟨place, single, unknown, ⟨pindexPrev, ⟨checked, signed, unmarked, parent,
            work⟩, contextual⟩, version⟩
        · have lookups := acceptBlockHeader_lookups services here (recordProof store block proof)
            block after pindex accepted
          have spent : ∀ tx ∈ block.vtx, ∀ txin ∈ tx.vin, ¬ SpendsBehind after.node txin := by
            unfold SpendsBehind NamesBehind
            rw [lookups]
            exact spends
          split at stops
          · cases stops
          · exact absurd stops (acceptNew_inside services here after block pindexPrev pindex _
              first rest transactions txin moreInputs firstInputs (fun stake => isSome ▸ stake)
              spent site)
    · intro missing
      obtain ⟨place, staked⟩ | ⟨place, modifier⟩ := missing
      · obtain ⟨pindexPrev, present, comes⟩ := staked.comes
        refine ⟨pindexPrev, comes.parent, Or.inl ?_⟩
        exact (checkProofs_outside services store block pindexPrev site).mpr
          ⟨comes.work, staked.proofOfStake, present, place, staked.missing⟩
      · obtain ⟨pindexPrev, comes, contextual⟩ := modifier.comes
        have proofOfWork : block.isProofOfStake = false := by
          obtain ⟨tx, only⟩ := length_eq_one_iff.mp modifier.single
          simp [CBlock.isProofOfStake, only]
        refine ⟨pindexPrev, comes.parent, Or.inr ⟨none,
          checkProofs_work services store block pindexPrev comes.work proofOfWork, Or.inl ?_⟩⟩
        exact (acceptBlockHeader_outside services here (recordProof store block none) block
          pindexPrev inputs comes.unmarked comes.parent site).mpr
          ⟨place, modifier.unknown, contextual, modifier.modifier, modifier.single.le⟩

/-- The sender of a block knows its parent, or no peer has sent it. -/
def FromKnownParent (fromPeer : Bool) : Prop :=
  fromPeer = true → block.hash = services.params.hashGenesisBlock ∨
    (store.node.mapBlockIndex block.hashPrevBlock).isSome = true

theorem processNewBlock_stages (fromPeer : Bool) (site : Site) :
    processNewBlock services signer here store block fromPeer = .error (.outside site) ↔
      FromKnownParent services store block fromPeer ∧
        (checkBlockReading services.toServices here.toPayeeState store.node block true =
            .error (.outside site) ∨
          checkBlockReading services.toServices here.toPayeeState store.node block true = .ok () ∧
            checkBlockSignatureReading services.toServices signer block = .ok true ∧
            (acceptBlock services here store block true).2 = .error (.outside site)) := by
  have known : (!fromPeer || decide (block.hash = services.params.hashGenesisBlock) ||
      (store.node.mapBlockIndex block.hashPrevBlock).isSome) = true ↔
        FromKnownParent services store block fromPeer := by
    unfold FromKnownParent
    cases fromPeer <;> simp
  unfold processNewBlock
  simp only [bind_outside, attempt_outside, attempt_eq_ok, refuse, require_eq_ok, known, false_or,
    Unique.exists_iff]
  apply and_congr_right
  intro _
  cases checkBlockReading services.toServices here.toPayeeState store.node block true with
  | ok done =>
    simp only [bind_outside, attempt_outside, attempt_eq_ok, require_eq_ok, reduceCtorEq,
      false_or, true_and, Unique.exists_iff,
      checkBlockSignatureReading_inside services.toServices block signer site]
    constructor
    · intro stops
      obtain ⟨signed, verified, passed, stops⟩ := stops
      rw [passed] at verified
      exact ⟨verified, stops⟩
    · intro stops
      exact ⟨true, stops.1, rfl, stops.2⟩
  | error stop =>
    cases stop with
    | outside place => simp
    | failed failure =>
      simp [bind_outside, checkBlockSignatureReading_inside services.toServices block signer
        site]

theorem processNewBlock_outside (fromPeer : Bool) (site : Site) :
    processNewBlock services signer here store block fromPeer = .error (.outside site) ↔
      FromKnownParent services store block fromPeer ∧
        (site = .payeeTransaction ∧
            PayeeOutside services.toServices here.toPayeeState store.node block ∨
          site = .previousOutput ∧
            OutputBehindLast services.toServices here.toPayeeState store.node block ∨
          site = .stakedOutput ∧ StakedOutputMissing services signer here store block ∨
          site = .modifierKernel ∧ ModifierKernelMissing services signer here store block) := by
  rw [processNewBlock_stages, checkBlockReading_outside]
  apply and_congr_right
  intro _
  constructor
  · intro stops
    obtain (payee | behind) | ⟨checked, signed, accepting⟩ := stops
    · exact Or.inl payee
    · exact Or.inr (Or.inl behind)
    · exact Or.inr (Or.inr ((acceptBlock_outside services signer here store block checked signed
        site).mp accepting))
  · intro missing
    obtain payee | behind | staked | modifier := missing
    · exact Or.inl (Or.inl payee)
    · exact Or.inl (Or.inr behind)
    · obtain ⟨_, _, comes⟩ := staked.2.comes
      exact Or.inr ⟨comes.checked, comes.signed, (acceptBlock_outside services signer here store
        block comes.checked comes.signed site).mpr (Or.inl staked)⟩
    · obtain ⟨_, comes, _⟩ := modifier.2.comes
      exact Or.inr ⟨comes.checked, comes.signed, (acceptBlock_outside services signer here store
        block comes.checked comes.signed site).mpr (Or.inr modifier)⟩

/-- A block is processed inside its lists exactly if it does not come to one of
the four reads that lack their guard. -/
theorem processNewBlock_inside_iff (fromPeer : Bool) :
    Inside (processNewBlock services signer here store block fromPeer) ↔
      (FromKnownParent services store block fromPeer →
        ¬ PayeeOutside services.toServices here.toPayeeState store.node block ∧
        ¬ OutputBehindLast services.toServices here.toPayeeState store.node block ∧
        ¬ StakedOutputMissing services signer here store block ∧
        ¬ ModifierKernelMissing services signer here store block) := by
  unfold Inside
  simp only [ne_eq, processNewBlock_outside]
  constructor
  · intro inside known
    refine ⟨?_, ?_, ?_, ?_⟩
    · exact fun payee => inside .payeeTransaction ⟨known, Or.inl ⟨rfl, payee⟩⟩
    · exact fun behind => inside .previousOutput ⟨known, Or.inr (Or.inl ⟨rfl, behind⟩)⟩
    · exact fun staked => inside .stakedOutput ⟨known, Or.inr (Or.inr (Or.inl ⟨rfl, staked⟩))⟩
    · exact fun modifier => inside .modifierKernel
        ⟨known, Or.inr (Or.inr (Or.inr ⟨rfl, modifier⟩))⟩
  · intro guarded site stops
    obtain ⟨noPayee, noBehind, noStaked, noModifier⟩ := guarded stops.1
    obtain payee | behind | staked | modifier := stops.2
    · exact noPayee payee.2
    · exact noBehind behind.2
    · exact noStaked staked.2
    · exact noModifier modifier.2

end Accepting

/-- A chain of proof of work blocks above the genesis block. -/
def workChain : Nat → CBlockIndex
  | 0 => [genesisBlock]
  | height + 1 =>
    exampleBlock (BitVec.ofNat 256 (1000 + height)) (workChain height).getBlockHash
      (1600000000 + UInt32.ofNat height) [coinbaseTx (BitVec.ofNat 256 (5000 + height))] ::
      workChain height

def workedStore : BlockStore :=
  { forkedStore with
    node :=
      { mintedNode with
        mapBlockIndex := fileEntries (workChain 321).tails
        chainActive := workChain 321
        pcoinsTip := { hashBlock := (workChain 321).getBlockHash, coins := fun _ => none } } }

def lateWorkBlock : CBlock :=
  exampleBlock 2000 (workChain 321).getBlockHash 1600000400 [coinbaseTx 6000]

def anySigner : BlockSigner := { isValid := fun _ => true, verify := fun _ _ _ => true }

/-- The payee check takes the second transaction of a block that has one. -/
theorem late_work_block_reads_outside :
    ¬ ∀ (services : AcceptServices) (signer : BlockSigner) (here : AcceptState)
        (store : BlockStore) (block : CBlock) (fromPeer : Bool),
      BuiltIn services.params → Inside (processNewBlock services signer here store block fromPeer)
      := by
  intro inside
  have stops : processNewBlock mainnetAccepting anySigner quietAccepting workedStore lateWorkBlock
      true = .error (.outside .payeeTransaction) := by
    decide +kernel
  exact inside mainnetAccepting anySigner quietAccepting workedStore lateWorkBlock true
    (Or.inl rfl) .payeeTransaction stops

end ZenonCore.ReadsInside
