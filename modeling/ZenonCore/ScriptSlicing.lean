import ZenonCore.Bloom

/-!
# Fixed offsets into zerocoin scripts

Five routines skip a header of 2, 4, 6 or 44 bytes without a look at the length.
-/

namespace ZenonCore.ScriptSlicing

open Script Primitives Standard Zerocoin
open Bloom Bloom.CBloomFilter

def Ranged {α : Type} (outcome : Except Fault α) : Prop := outcome ≠ .error .outOfRange

@[simp] theorem ranged_ok {α : Type} (value : α) : Ranged (.ok value) := by
  simp [Ranged]

@[simp] theorem ranged_pure {α : Type} (value : α) : Ranged (pure value) := ranged_ok value

@[simp] theorem ranged_exception {α : Type} : Ranged (.error .exception : Except Fault α) := by
  simp [Ranged]

theorem ranged_bind {α β : Type} (first : Except Fault α) (next : α → Except Fault β) :
    Ranged (first >>= next) ↔ Ranged first ∧ ∀ value, first = .ok value → Ranged (next value) := by
  cases first with
  | error fault => simp [Ranged, bind, Except.bind]
  | ok value => simp [Ranged, bind, Except.bind]

theorem ranged_suffixFrom (script : CScript) (first : Nat) :
    Ranged (suffixFrom script first) ↔ first ≤ script.length := by
  rw [Ranged, Ne, suffixFrom_outOfRange, not_lt]

theorem ranged_suffixFrom_bind {β : Type} (script : CScript) (first : Nat)
    (next : Bytes → Except Fault β) (after : ∀ bytes, Ranged (next bytes)) :
    Ranged (suffixFrom script first >>= next) ↔ first ≤ script.length := by
  rw [ranged_bind, ranged_suffixFrom]
  exact ⟨And.left, fun inside => ⟨inside, fun bytes _ => after bytes⟩⟩

theorem ranged_solver (script : CScript) :
    Ranged (solver script) ↔ (isZerocoinMint script = true → 2 ≤ script.length) := by
  rw [Ranged, Ne, solver_outOfRange, not_and, not_lt]

theorem ranged_txOutToPublicCoin (txout : CTxOut) :
    Ranged (txOutToPublicCoin txout) ↔ scriptOffset ≤ txout.scriptPubKey.length := by
  apply ranged_suffixFrom_bind
  intro bytes
  dsimp only
  split_ifs <;> simp

variable (lib : Libzerocoin) (txin : CTxIn)

theorem ranged_txInToZerocoinSpend :
    Ranged (txInToZerocoinSpend lib txin) ↔ bignumSize ≤ txin.scriptSig.length := by
  apply ranged_suffixFrom_bind
  intro bytes
  cases lib.coinSpend bytes <;> simp

theorem ranged_parsePublicCoinSpend :
    Ranged (parsePublicCoinSpend lib txin) ↔ 4 ≤ txin.scriptSig.length := by
  apply ranged_suffixFrom_bind
  intro bytes
  cases lib.publicCoinSpend bytes <;> simp

/-- The lengths a public spend and the output it refers to need. -/
def PublicSpendLongEnough (lib : Libzerocoin) (txin : CTxIn) (prevOut : CTxOut) : Prop :=
  txin.isZerocoinPublicSpend = true → prevOut.isZerocoinMint = true →
    4 ≤ txin.scriptSig.length ∧
      ((lib.publicCoinSpend (txin.scriptSig.drop 4)).isSome = true →
        scriptOffset ≤ prevOut.scriptPubKey.length)

theorem ranged_parseCoinSpend (tx : CTransaction)
    (prevOut : CTxOut) :
    Ranged (parseCoinSpend lib txin tx prevOut) ↔ PublicSpendLongEnough lib txin prevOut := by
  unfold parseCoinSpend PublicSpendLongEnough
  by_cases skipped : (!txin.isZerocoinPublicSpend || !prevOut.isZerocoinMint) = true
  · rw [if_pos skipped]
    simp only [Bool.or_eq_true, Bool.not_eq_true'] at skipped
    rcases skipped with absent | absent <;> simp [absent]
  · rw [if_neg skipped]
    simp only [Bool.or_eq_true, Bool.not_eq_true', not_or, Bool.not_eq_false] at skipped
    obtain ⟨spends, mints⟩ := skipped
    simp only [spends, mints, forall_const]
    rw [ranged_bind, ranged_parsePublicCoinSpend]
    refine and_congr_right fun inside => ?_
    unfold parsePublicCoinSpend
    rw [suffixFrom_ok _ _ inside]
    cases parsed : lib.publicCoinSpend (txin.scriptSig.drop 4) with
    | none => simp [bind, Except.bind, parsed]
    | some spend =>
      simp only [bind, Except.bind, parsed, pure, Except.pure, Except.ok.injEq, forall_eq',
        Option.isSome_some, forall_const]
      show Ranged (txOutToPublicCoin prevOut >>= _) ↔ _
      rw [ranged_bind, ranged_txOutToPublicCoin]
      refine ⟨And.left, fun long => ⟨long, fun result _ => ?_⟩⟩
      cases result <;> simp

theorem ranged_validateInput (prevOut : CTxOut)
    (tx : CTransaction) :
    Ranged (validateInput lib txin prevOut tx) ↔ PublicSpendLongEnough lib txin prevOut := by
  unfold validateInput
  rw [ranged_bind, ranged_parseCoinSpend]
  refine ⟨And.left, fun long => ⟨long, fun result _ => ?_⟩⟩
  cases result with
  | none => simp
  | some spend =>
    simp only
    split_ifs
    · simp
    · cases validatePublicCoinSpend lib spend <;> simp

section Bloom

/-- The length the filter's loop needs of an output's script. -/
def MintLongEnough (txout : CTxOut) : Prop :=
  txout.isZerocoinMint = true → scriptOffset ≤ txout.scriptPubKey.length

theorem ranged_outputData (txout : CTxOut) (pushed : Bytes) :
    Ranged (outputData txout pushed) ↔ MintLongEnough txout := by
  unfold outputData MintLongEnough
  cases txout.isZerocoinMint
  · simp
  · simpa [scriptOffset] using ranged_suffixFrom txout.scriptPubKey 6

variable (filter : CBloomFilter)

theorem matchesOutput_of_long (txout : CTxOut)
    (long : MintLongEnough txout) (fuel : Nat) (pc : CScript) :
    ∃ found, matchesOutput filter txout fuel pc = .ok found := by
  induction fuel generalizing pc with
  | zero => exact ⟨false, rfl⟩
  | succ fuel ih =>
    simp only [matchesOutput]
    cases getOp pc with
    | none => exact ⟨false, rfl⟩
    | some read =>
      obtain ⟨_, pushed, rest⟩ := read
      have found : ∃ data, outputData txout pushed = .ok data := by
        unfold outputData
        by_cases mint : txout.isZerocoinMint = true
        · exact ⟨_, by rw [if_pos mint, suffixFrom_ok _ 6 (long mint)]⟩
        · exact ⟨pushed, by rw [if_neg mint]⟩
      obtain ⟨data, found⟩ := found
      simp only [found, bind, Except.bind]
      split_ifs
      · exact ⟨true, rfl⟩
      · exact ih rest

theorem ranged_matchesOutput (txout : CTxOut) :
    Ranged (matchesOutput filter txout txout.scriptPubKey.length txout.scriptPubKey) ↔
      MintLongEnough txout := by
  constructor
  · intro inside mint
    obtain ⟨rest, shape⟩ := (startsWithOpcode_iff txout.scriptPubKey opZerocoinMint).mp mint
    have read : getOp txout.scriptPubKey = some (opZerocoinMint, [], rest) := by
      rw [shape]
      rfl
    rw [shape] at inside
    simp only [List.length_cons, matchesOutput] at inside
    rw [← shape, read] at inside
    simp only at inside
    rw [ranged_bind, ranged_outputData] at inside
    exact inside.1 mint
  · intro long
    obtain ⟨found, outcome⟩ := matchesOutput_of_long filter txout long _ _
    rw [outcome]
    exact ranged_ok found

theorem update_of_long (hash : Uint256) (i : Nat) (txout : CTxOut)
    (long : MintLongEnough txout) : ∃ updated, update filter hash i txout = .ok updated := by
  have inside : ∃ solution, solver txout.scriptPubKey = .ok solution := by
    have ranged : Ranged (solver txout.scriptPubKey) :=
      (ranged_solver _).mpr fun mint => le_trans (by decide) (long mint)
    cases outcome : solver txout.scriptPubKey with
    | ok solution => exact ⟨solution, rfl⟩
    | error fault =>
      cases fault with
      | outOfRange => exact absurd outcome ranged
      | exception => exact absurd outcome (solver_no_exception _)
  obtain ⟨solution, solved⟩ := inside
  unfold update
  simp only [solved, bind, Except.bind, pure, Except.pure]
  split_ifs
  all_goals exact ⟨_, rfl⟩

theorem ranged_scanOutputs (hash : Uint256) (i : Nat) (vout : List CTxOut) (fFound : Bool)
    (filter : CBloomFilter) :
    Ranged (scanOutputs hash i vout fFound filter) ↔ ∀ txout ∈ vout, MintLongEnough txout := by
  induction vout generalizing i fFound filter with
  | nil => simp [scanOutputs]
  | cons txout rest ih =>
    simp only [scanOutputs, List.forall_mem_cons]
    rw [ranged_bind, ranged_matchesOutput]
    refine and_congr_right fun long => ?_
    obtain ⟨found, outcome⟩ := matchesOutput_of_long filter txout long
      txout.scriptPubKey.length txout.scriptPubKey
    obtain ⟨updated, updates⟩ := update_of_long filter hash i txout long
    rw [outcome]
    simp only [Except.ok.injEq, forall_eq']
    cases found with
    | true =>
      simp only [if_true, updates, bind, Except.bind]
      exact ih (i + 1) true updated
    | false =>
      simp only [Bool.false_eq_true, if_false]
      exact ih (i + 1) fFound filter

/-- The lengths the filter needs: a spend is reached if the serial numbers before it can be parsed.
-/
def SpendsLongEnough (lib : Libzerocoin) : List CTxIn → Prop
  | [] => True
  | txin :: rest =>
    if txin.isZerocoinSpend then
      44 ≤ txin.scriptSig.length ∧
        ((lib.parseSerial (txin.scriptSig.drop 44)).isSome = true → SpendsLongEnough lib rest)
    else SpendsLongEnough lib rest

theorem spend_getOp (txin : CTxIn) (spends : txin.isZerocoinSpend = true) :
    ∃ rest, txin.scriptSig = opZerocoinSpend :: rest ∧
      getOp txin.scriptSig = some (opZerocoinSpend, [], rest) := by
  simp only [CTxIn.isZerocoinSpend, Bool.and_eq_true] at spends
  obtain ⟨rest, shape⟩ := (startsWithOpcode_iff txin.scriptSig opZerocoinSpend).mp spends.2
  refine ⟨rest, shape, ?_⟩
  rw [shape]
  rfl

variable (lib : Libzerocoin) (filter : CBloomFilter)

theorem matchesInput_ok (txin : CTxIn)
    (reads : ∀ pushed, ∃ data, inputData lib txin pushed = .ok data) (fuel : Nat) (pc : CScript) :
    ∃ found, matchesInput lib filter txin fuel pc = .ok found := by
  induction fuel generalizing pc with
  | zero => exact ⟨false, rfl⟩
  | succ fuel ih =>
    simp only [matchesInput]
    cases getOp pc with
    | none => exact ⟨false, rfl⟩
    | some read =>
      obtain ⟨_, pushed, rest⟩ := read
      obtain ⟨data, isData⟩ := reads pushed
      simp only [isData, bind, Except.bind]
      split_ifs
      · exact ⟨true, rfl⟩
      · exact ih rest

theorem matchesInput_plain (txin : CTxIn)
    (plain : txin.isZerocoinSpend = false) (fuel : Nat) (pc : CScript) :
    ∃ found, matchesInput lib filter txin fuel pc = .ok found := by
  apply matchesInput_ok
  intro pushed
  exact ⟨pushed, if_neg (by simp [plain])⟩

theorem matchesInput_parsed (txin : CTxIn)
    (serial : Bytes) (spends : txin.isZerocoinSpend = true)
    (long : 44 ≤ txin.scriptSig.length)
    (parsed : lib.parseSerial (txin.scriptSig.drop 44) = some serial) (fuel : Nat)
    (pc : CScript) : ∃ found, matchesInput lib filter txin fuel pc = .ok found := by
  apply matchesInput_ok
  intro pushed
  refine ⟨serial, ?_⟩
  simp only [inputData, spends, if_true, suffixFrom_ok _ _ long, bind, Except.bind, parsed, pure,
    Except.pure]

theorem matchesInput_spend (txin : CTxIn)
    (spends : txin.isZerocoinSpend = true) :
    matchesInput lib filter txin txin.scriptSig.length txin.scriptSig =
        .error .outOfRange ∧ txin.scriptSig.length < 44 ∨
      44 ≤ txin.scriptSig.length ∧ lib.parseSerial (txin.scriptSig.drop 44) = none ∧
        matchesInput lib filter txin txin.scriptSig.length txin.scriptSig = .error .exception ∨
      44 ≤ txin.scriptSig.length ∧ (lib.parseSerial (txin.scriptSig.drop 44)).isSome = true ∧
        ∃ found, matchesInput lib filter txin txin.scriptSig.length txin.scriptSig =
          .ok found := by
  obtain ⟨rest, shape, read⟩ := spend_getOp txin spends
  have first : matchesInput lib filter txin txin.scriptSig.length txin.scriptSig = (do
      let data ← inputData lib txin []
      if data.length ≠ 0 ∧ filter.contains data then pure true
      else matchesInput lib filter txin rest.length rest) := by
    have length : txin.scriptSig.length = rest.length + 1 := by simp [shape]
    rw [length]
    simp only [matchesInput, read]
  by_cases long : 44 ≤ txin.scriptSig.length
  · right
    cases parsed : lib.parseSerial (txin.scriptSig.drop 44) with
    | none =>
      left
      refine ⟨long, rfl, ?_⟩
      rw [first]
      simp [inputData, spends, suffixFrom_ok _ _ long, bind, Except.bind, parsed]
    | some serial =>
      right
      exact ⟨long, rfl, matchesInput_parsed lib filter txin serial spends long parsed _ _⟩
  · left
    have short : suffixFrom txin.scriptSig 44 = .error .outOfRange :=
      (suffixFrom_outOfRange _ _).mpr (by omega)
    refine ⟨?_, by omega⟩
    rw [first]
    simp [inputData, spends, short, bind, Except.bind]

theorem scanInputs_of_long (vin : List CTxIn)
    (long : SpendsLongEnough lib vin) : Ranged (scanInputs lib filter vin) := by
  induction vin with
  | nil => simp [scanInputs]
  | cons txin rest ih =>
    simp only [scanInputs]
    split_ifs with contained
    · exact ranged_ok true
    · simp only [SpendsLongEnough] at long
      have goesOn : ∀ found, SpendsLongEnough lib rest →
          Ranged (if found = true then pure true else scanInputs lib filter rest) := by
        intro found later
        split_ifs
        · exact ranged_pure true
        · exact ih later
      by_cases spends : txin.isZerocoinSpend = true
      · rw [if_pos spends] at long
        rcases matchesInput_spend lib filter txin spends with
          ⟨_, short⟩ | ⟨_, _, failed⟩ | ⟨_, parsed, found, outcome⟩
        · omega
        · rw [failed]
          exact ranged_exception
        · rw [outcome]
          exact goesOn found (long.2 parsed)
      · rw [if_neg spends] at long
        obtain ⟨found, outcome⟩ := matchesInput_plain lib filter txin (by simpa using spends)
          txin.scriptSig.length txin.scriptSig
        rw [outcome]
        exact goesOn found long

theorem scanInputs_unmatched
    (unmatched : ∀ vKey, filter.contains vKey = false) (vin : List CTxIn)
    (ranged : Ranged (scanInputs lib filter vin)) : SpendsLongEnough lib vin := by
  have misses : ∀ (txin : CTxIn) fuel pc,
      matchesInput lib filter txin fuel pc ≠ .ok true := by
    intro txin fuel
    induction fuel with
    | zero => simp [matchesInput]
    | succ fuel ih =>
      intro pc
      simp only [matchesInput]
      cases getOp pc with
      | none => simp
      | some read =>
        cases outcome : inputData lib txin read.2.1 with
        | error fault => simp [bind, Except.bind, outcome]
        | ok data => simpa [bind, Except.bind, outcome, unmatched] using ih read.2.2
  induction vin with
  | nil => trivial
  | cons txin rest ih =>
    simp only [scanInputs, unmatched, Bool.false_eq_true, if_false] at ranged
    simp only [SpendsLongEnough]
    have later : ∀ found, matchesInput lib filter txin txin.scriptSig.length
        txin.scriptSig = .ok found → SpendsLongEnough lib rest := by
      intro found outcome
      cases found with
      | true => exact absurd outcome (misses _ _ _)
      | false =>
        rw [outcome] at ranged
        exact ih ranged
    by_cases spends : txin.isZerocoinSpend = true
    · rw [if_pos spends]
      rcases matchesInput_spend lib filter txin spends with
        ⟨outside, _⟩ | ⟨long, absent, _⟩ | ⟨long, _, found, outcome⟩
      · rw [outside] at ranged
        exact absurd rfl ranged
      · exact ⟨long, fun parsed => by simp [absent] at parsed⟩
      · exact ⟨long, fun _ => later found outcome⟩
    · rw [if_neg spends]
      obtain ⟨found, outcome⟩ := matchesInput_plain lib filter txin (by simpa using spends)
        txin.scriptSig.length txin.scriptSig
      exact later found outcome

theorem scanOutputs_unmatched (filter : CBloomFilter)
    (unmatched : ∀ vKey, filter.contains vKey = false) (hash : Uint256) (i : Nat)
    (vout : List CTxOut) (long : ∀ txout ∈ vout, MintLongEnough txout) :
    scanOutputs hash i vout false filter = .ok (false, filter) := by
  have misses : ∀ (txout : CTxOut) fuel pc,
      matchesOutput filter txout fuel pc ≠ .ok true := by
    intro txout fuel
    induction fuel with
    | zero => simp [matchesOutput]
    | succ fuel ih =>
      intro pc
      simp only [matchesOutput]
      cases getOp pc with
      | none => simp
      | some read =>
        cases outcome : outputData txout read.2.1 with
        | error fault => simp [bind, Except.bind, outcome]
        | ok data => simpa [bind, Except.bind, outcome, unmatched] using ih read.2.2
  induction vout generalizing i with
  | nil => rfl
  | cons txout rest ih =>
    rw [List.forall_mem_cons] at long
    obtain ⟨found, outcome⟩ := matchesOutput_of_long filter txout long.1
      txout.scriptPubKey.length txout.scriptPubKey
    cases found with
    | true => exact absurd outcome (misses _ _ _)
    | false =>
      simp only [scanOutputs, outcome, bind, Except.bind, Bool.false_eq_true, if_false]
      exact ih (i + 1) long.2

theorem ranged_isRelevantAndUpdate (lib : Libzerocoin) (tx : CTransaction) :
    (∀ filter, Ranged (isRelevantAndUpdate lib filter tx)) ↔
      (∀ txout ∈ tx.vout, MintLongEnough txout) ∧ SpendsLongEnough lib tx.vin := by
  constructor
  · intro all
    have unmatched := construct_contains 0 0
    have ranged := all (construct 0 0)
    have scans : isRelevantAndUpdate lib (construct 0 0) tx =
        scanOutputs tx.hash 0 tx.vout false (construct 0 0) >>= fun found =>
          if found.1 then pure (true, found.2)
          else scanInputs lib found.2 tx.vin >>= fun relevant => pure (relevant, found.2) := by
      unfold isRelevantAndUpdate
      rw [if_neg (by simp [construct]), if_neg (by simp [construct])]
      dsimp only
      rw [unmatched]
    rw [scans, ranged_bind, ranged_scanOutputs] at ranged
    refine ⟨ranged.1, ?_⟩
    have after := ranged.2 _ (scanOutputs_unmatched _ unmatched tx.hash 0 tx.vout ranged.1)
    simp only [Bool.false_eq_true, if_false] at after
    rw [ranged_bind] at after
    exact scanInputs_unmatched lib _ unmatched tx.vin after.1
  · rintro ⟨mints, spends⟩ filter
    unfold isRelevantAndUpdate
    split_ifs
    · exact ranged_ok _
    · exact ranged_ok _
    · rw [ranged_bind, ranged_scanOutputs]
      refine ⟨mints, fun found _ => ?_⟩
      obtain ⟨fFound, updated⟩ := found
      dsimp only
      split_ifs
      · exact ranged_pure _
      · rw [ranged_bind]
        exact ⟨scanInputs_of_long lib updated tx.vin spends, fun _ _ => ranged_pure _⟩

end Bloom

/-- The outputs a transaction's inputs refer to, and the redeem scripts its `scriptSig`s leave on
the stack. -/
structure Received where
  tx : CTransaction
  prevOut : CTxIn → CTxOut
  redeemScripts : List CScript

/-- No routine leaves a script that the transaction brings to it. -/
structure SlicesInRange (lib : Libzerocoin) (received : Received) : Prop where
  solver : ∀ script, (script ∈ received.tx.vout.map CTxOut.scriptPubKey ∨
      script ∈ received.tx.vin.map (fun txin => (received.prevOut txin).scriptPubKey) ∨
      script ∈ received.redeemScripts) → Ranged (solver script)
  txOutToPublicCoin : ∀ txout ∈ received.tx.vout, txout.isZerocoinMint = true →
    Ranged (txOutToPublicCoin txout)
  txInToZerocoinSpend : ∀ txin ∈ received.tx.vin,
    Script.isZerocoinSpend txin.scriptSig = true → Ranged (txInToZerocoinSpend lib txin)
  parseCoinSpend : ∀ txin ∈ received.tx.vin,
    Ranged (parseCoinSpend lib txin received.tx (received.prevOut txin)) ∧
      Ranged (validateInput lib txin (received.prevOut txin) received.tx)
  isRelevantAndUpdate : ∀ filter, Ranged (isRelevantAndUpdate lib filter received.tx)

/-- Every zerocoin script the transaction brings is long enough for the
headers that are skipped in it. -/
structure LongEnough (lib : Libzerocoin) (received : Received) : Prop where
  otherMints : ∀ script, (script ∈ received.tx.vin.map
      (fun txin => (received.prevOut txin).scriptPubKey) ∨ script ∈ received.redeemScripts) →
    isZerocoinMint script = true → 2 ≤ script.length
  mints : ∀ txout ∈ received.tx.vout, MintLongEnough txout
  spends : ∀ txin ∈ received.tx.vin, Script.isZerocoinSpend txin.scriptSig = true →
    bignumSize ≤ txin.scriptSig.length
  publicSpends : ∀ txin ∈ received.tx.vin,
    PublicSpendLongEnough lib txin (received.prevOut txin)
  filtered : SpendsLongEnough lib received.tx.vin

/-- A library that accepts nothing, for scripts that are never deserialised. -/
def rejectingLibrary : Libzerocoin where
  coinSpend := fun _ => none
  publicCoinSpend := fun _ => none
  parseSerial := fun _ => none
  hasValidSignature := fun _ => some false
  hasValidSerial := fun _ _ => false
  verify := fun _ _ _ _ => false
  commitmentValue := fun _ _ => 0
  validate := fun _ => false
  getHash := fun _ _ _ _ => 0

/-- An output whose script is the one byte `OP_ZEROCOINMINT`. -/
def oneByteMint : Received where
  tx :=
    { hash := 1
      nVersion := 1
      vin := [{ prevout := { hash := 2, n := 0 }, scriptSig := [], nSequence := 0xffffffff }]
      vout := [{ nValue := coin, scriptPubKey := [opZerocoinMint] }]
      nLockTime := 0 }
  prevOut := fun _ => { nValue := 2 * coin, scriptPubKey := [op1] }
  redeemScripts := []

end ZenonCore.ScriptSlicing
