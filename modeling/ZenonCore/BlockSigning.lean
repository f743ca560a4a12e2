import ZenonCore.BlockReads
import ZenonCore.Destinations
import ZenonCore.ValueGate

/-!
# The signature of a staked block

`SignBlock` finds the key of the second output by its id, `CheckBlockSignature` by the public key
in the script.
-/

namespace ZenonCore.BlockSigning

open Primitives Chainstate Validation Standard
open BoundedReads BlockReads Destinations ValueGate
open Script (Bytes)

/-- `CKey` with the functions of its curve: the public key of a key is valid, and its signatures
verify under it. -/
structure Curve where
  CKey : Type
  hash160 : Bytes → Uint160
  getPubKey : CKey → Bytes
  sign : CKey → Uint256 → Option Bytes
  verify : Bytes → Uint256 → Bytes → Bool
  valid : ∀ key, pubKeyIsValid (getPubKey key) = true
  verifies : ∀ key hash signature, sign key hash = some signature →
    signature.isEmpty = false ∧ verify (getPubKey key) hash signature = true

/-- A key store files a key under the id of its public key. -/
structure CKeyStore (curve : Curve) where
  getKey : Uint160 → Option curve.CKey
  filed : ∀ keyID key, getKey keyID = some key → curve.hash160 (curve.getPubKey key) = keyID

section Code

variable (curve : Curve)

def Curve.signer : BlockSigner := { isValid := pubKeyIsValid, verify := curve.verify }

/-- `CPubKey(vch).GetID()`; an invalid key has no bytes. -/
def getID (vch : Bytes) : Uint160 :=
  curve.hash160 (if pubKeyIsValid vch then vch else [])

/-- The new value of `keyID` if `GetKeyIDFromUTXO` returns true. -/
def getKeyIDFromUTXO (txout : CTxOut) (keyID : Uint160) : Reading (Option Uint160) := do
  let solution ← attempt (ofFault (solver txout.scriptPubKey))
  if !solution.result then .ok none
  else if solution.typeRet = .pubkey then do
    let vch ← readAt .signature solution.vSolutionsRet 0
    .ok (some (getID curve vch))
  else if solution.typeRet = .pubkeyhash then do
    let vch ← readAt .signature solution.vSolutionsRet 0
    let hash ← attempt (ofFault (uint160 vch))
    .ok (some hash)
  else .ok (some keyID)

/-- The id of a `CKeyID` that nothing was assigned to. -/
def noKeyID : Uint160 := ⟨.replicate 20 0, rfl⟩

/-- The loop of `SignBlock` over the outputs of a coinbase. -/
def firstKeyID : List CTxOut → Reading (Option Uint160)
  | [] => .ok none
  | txout :: rest => do
    let found ← getKeyIDFromUTXO curve txout noKeyID
    match found with
    | some keyID => .ok (some keyID)
    | none => firstKeyID rest

/-- The signed block if `SignBlock` returns true. -/
def signBlock (keystore : CKeyStore curve) (block : CBlock) : Reading (Option CBlock) := do
  let isPoS ← isProofOfStakeReading block
  let found ← if !isPoS then do
      let coinbase ← readAt .signature block.vtx 0
      firstKeyID curve coinbase.vout
    else do
      let coinstake ← readAt .signature block.vtx 1
      let txout ← readAt .signature coinstake.vout 1
      getKeyIDFromUTXO curve txout noKeyID
  .ok do
    let keyID ← found
    let key ← keystore.getKey keyID
    let vchBlockSig ← curve.sign key block.hash
    return { block with vchBlockSig := vchBlockSig }

/-- The valid public key that the second output of the coinstake is paid to. -/
def paidKey (block : CBlock) : Option Bytes := do
  let coinstake ← block.vtx[1]?
  let txout ← coinstake.vout[1]?
  let solution ← (solver txout.scriptPubKey).toOption
  if solution.result = true ∧ solution.typeRet = .pubkey then
    solution.vSolutionsRet.head?.filter pubKeyIsValid
  else none

/-- The block is staked with an input that is no zerocoin spend. -/
structure StakesOutput (block : CBlock) (coinstake : CTransaction) : Prop where
  isProofOfStake : block.isProofOfStake = true
  second : block.vtx[1]? = some coinstake
  ordinary : ∃ txin, coinstake.vin[0]? = some txin ∧ txin.isZerocoinSpend = false

end Code

section Agreement

variable (services : Services) (curve : Curve) (keystore : CKeyStore curve)

theorem hash_no_key (vch : Bytes) (size : vch.length = 20) : pubKeyIsValid vch = false := by
  simp only [pubKeyIsValid, getLen, size]
  split_ifs <;> rfl

theorem getKeyID_cases (txout : CTxOut) (keyID found : Uint160)
    (taken : getKeyIDFromUTXO curve txout keyID = .ok (some found)) :
    ∃ solution, solver txout.scriptPubKey = .ok solution ∧ solution.result = true ∧
      ((solution.typeRet = .pubkey ∧
          ∃ vch, solution.vSolutionsRet[0]? = some vch ∧ found = getID curve vch) ∨
        (solution.typeRet = .pubkeyhash ∧
          ∃ vch, solution.vSolutionsRet[0]? = some vch ∧ pubKeyIsValid vch = false) ∨
        (solution.typeRet ≠ .pubkey ∧ solution.typeRet ≠ .pubkeyhash)) := by
  rcases (bind_eq_ok _ _ _).mp taken with ⟨solution, solved, rest⟩
  refine ⟨solution, by simpa using solved, ?_⟩
  split at rest
  · cases rest
  · rename_i succeeds
    refine ⟨by simpa using succeeds, ?_⟩
    split at rest
    · rename_i key
      rcases (bind_eq_ok _ _ _).mp rest with ⟨vch, first, same⟩
      cases same
      exact .inl ⟨key, vch, (readAt_eq_ok _ _ _ _).mp first, rfl⟩
    · rename_i noKey
      split at rest
      · rename_i hashed
        rcases (bind_eq_ok _ _ _).mp rest with ⟨vch, first, hashes⟩
        rcases (bind_eq_ok _ _ _).mp hashes with ⟨hash, sized, -⟩
        refine .inr (.inl ⟨hashed, vch, (readAt_eq_ok _ _ _ _).mp first, ?_⟩)
        by_cases size : vch.length = 20
        · exact hash_no_key vch size
        · simp [uint160, size, ofFault] at sized
      · rename_i noHash
        exact .inr (.inr ⟨noKey, noHash⟩)

theorem signBlock_cases (block signed : CBlock) (coinstake : CTransaction)
    (staked : StakesOutput block coinstake)
    (signs : signBlock curve keystore block = .ok (some signed)) :
    ∃ txout keyID key signature, coinstake.vout[1]? = some txout ∧
      getKeyIDFromUTXO curve txout noKeyID = .ok (some keyID) ∧
      keystore.getKey keyID = some key ∧ curve.sign key block.hash = some signature ∧
      signed = { block with vchBlockSig := signature } := by
  rcases (bind_eq_ok _ _ _).mp signs with ⟨isPoS, kind, rest⟩
  rw [isProofOfStakeReading_eq, staked.isProofOfStake] at kind
  cases kind
  rcases (bind_eq_ok _ _ _).mp rest with ⟨tx, second, rest⟩
  rw [readAt_eq_ok, staked.second] at second
  cases second
  rcases (bind_eq_ok _ _ _).mp rest with ⟨txout, read, rest⟩
  rcases (bind_eq_ok _ _ _).mp rest with ⟨found, taken, last⟩
  have same := Except.ok.inj last
  cases found with
  | none => cases same
  | some keyID =>
    rw [Option.bind_eq_bind, Option.bind_some] at same
    rcases Option.bind_eq_some_iff.mp same with ⟨key, stored, same⟩
    rcases Option.bind_eq_some_iff.mp same with ⟨signature, made, same⟩
    cases same
    exact ⟨txout, keyID, key, signature, (readAt_eq_ok _ _ _ _).mp read, taken, stored, made, rfl⟩

/-- What `CheckBlockSignature` compares a signature with, by the type of the output. -/
theorem check_spec (block : CBlock) (coinstake : CTransaction) (txout : CTxOut)
    (solution : Solution) (staked : StakesOutput block coinstake)
    (output : coinstake.vout[1]? = some txout)
    (solved : solver txout.scriptPubKey = .ok solution) (succeeds : solution.result = true)
    (signature : Bytes) (filled : signature.isEmpty = false) (pubkey : Bytes)
    (found : if solution.typeRet = .pubkey ∨ solution.typeRet = .pubkeyhash then
      solution.vSolutionsRet[0]? = some pubkey else pubkey = []) :
    checkBlockSignatureReading services curve.signer { block with vchBlockSig := signature } =
      .ok (pubKeyIsValid pubkey && curve.verify pubkey block.hash signature) := by
  have isPoS : CBlock.isProofOfStake { block with vchBlockSig := signature } = true :=
    staked.isProofOfStake
  rcases staked.ordinary with ⟨txin, kernel, ordinary⟩
  have key : blockPubKeyReading services coinstake = .ok (some pubkey) := by
    split at found
    all_goals
      rename_i keyed
      simp [blockPubKeyReading, readAt, kernel, ordinary, output, solved, succeeds, ofFault,
        attempt, bind, Except.bind, keyed, found]
  simp [checkBlockSignatureReading, isPoS, filled, readAt, staked.second, key, bind, Except.bind,
    Curve.signer]

/-- `CheckBlockSignature` accepts what `SignBlock` has signed if and only if the output is paid to
a valid public key. -/
theorem signed_block_checks_iff (block signed : CBlock) (coinstake : CTransaction)
    (staked : StakesOutput block coinstake)
    (noCollision : ∀ pubkey ∈ paidKey block, ∀ keyID key, keystore.getKey keyID = some key →
      curve.hash160 (curve.getPubKey key) = curve.hash160 pubkey → curve.getPubKey key = pubkey)
    (signs : signBlock curve keystore block = .ok (some signed)) :
    checkBlockSignatureReading services curve.signer signed = .ok true ↔
      (paidKey block).isSome = true := by
  rcases signBlock_cases curve keystore block signed coinstake staked signs with
    ⟨txout, keyID, key, signature, output, taken, stored, made, rfl⟩
  rcases curve.verifies key block.hash signature made with ⟨filled, verified⟩
  rcases getKeyID_cases curve txout noKeyID keyID taken with
    ⟨solution, solved, succeeds, cases⟩
  have checked := check_spec services curve block coinstake txout solution staked output solved
    succeeds signature filled
  have paid : paidKey block = if solution.typeRet = .pubkey then
      solution.vSolutionsRet.head?.filter pubKeyIsValid else none := by
    simp [paidKey, staked.second, output, solved, succeeds, Except.toOption]
  rcases cases with ⟨pays, vch, first, rfl⟩ | ⟨hashed, vch, first, invalid⟩ | ⟨noKey, noHash⟩
  · rw [checked vch (by simpa [pays] using first), paid, if_pos pays,
      List.head?_eq_getElem?, first]
    cases valid : pubKeyIsValid vch with
    | false => simp [valid]
    | true =>
      have same : curve.hash160 (curve.getPubKey key) = curve.hash160 vch := by
        rw [keystore.filed _ _ stored, getID, if_pos valid]
      have own := noCollision vch (by simp [paid, pays, List.head?_eq_getElem?, first, valid])
        _ key stored same
      rw [← own, verified]
      simp [own, valid]
  · rw [checked vch (by simpa [hashed] using first), invalid, paid, if_neg (by simp [hashed])]
    simp
  · rw [checked [] (by simp [noKey, noHash]), paid, if_neg noKey]
    simp [pubKeyIsValid]

end Agreement

def oneKey : Bytes := 2 :: .replicate 32 0

/-- A curve with one key, whose id is `noKeyID`. -/
def oneKeyCurve : Curve where
  CKey := Unit
  hash160 := fun vch => if vch = oneKey then noKeyID else ⟨.replicate 20 1, rfl⟩
  getPubKey := fun _ => oneKey
  sign := fun _ _ => some [1]
  verify := fun vch _ signature => vch == oneKey && !signature.isEmpty
  valid := by decide
  verifies := by rintro - hash signature ⟨⟩; decide

def oneKeyStore : CKeyStore oneKeyCurve where
  getKey := fun keyID => if keyID = noKeyID then some () else none
  filed := by
    intro keyID key stored
    split at stored
    · rename_i same
      rw [same]
      rfl
    · cases stored

def coinStakeTo (scriptPubKey : Script.CScript) : CTransaction where
  hash := 7
  nVersion := 1
  vin := [{ prevout := { hash := 5, n := 0 }, scriptSig := [], nSequence := 0 }]
  vout := [{ nValue := 0, scriptPubKey := [] }, { nValue := 9, scriptPubKey := scriptPubKey }]
  nLockTime := 0

def stakedBlock (scriptPubKey : Script.CScript) : CBlock where
  hash := 11
  nVersion := 4
  hashPrevBlock := 10
  hashMerkleRoot := 12
  nTime := 1600000000
  nBits := 0
  nNonce := 0
  nAccumulatorCheckpoint := 0
  vtx := [coinbaseTx 6, coinStakeTo scriptPubKey]
  vchBlockSig := []

theorem stakedBlock_stakes (scriptPubKey : Script.CScript) :
    StakesOutput (stakedBlock scriptPubKey) (coinStakeTo scriptPubKey) :=
  ⟨rfl, rfl, _, rfl, rfl⟩

theorem paid_to_key_checks :
    checkBlockSignatureReading mainnetServices oneKeyCurve.signer
        { stakedBlock (33 :: oneKey ++ [Script.opCheckSig]) with vchBlockSig := [1] } = .ok true ↔
      (paidKey (stakedBlock (33 :: oneKey ++ [Script.opCheckSig]))).isSome = true :=
  signed_block_checks_iff mainnetServices oneKeyCurve oneKeyStore _ _ _ (stakedBlock_stakes _)
    (by
      intro pubkey paid keyID key stored same
      cases paid
      rfl)
    rfl

/-- An output to the hash of the key: it is signed, and not accepted. -/
theorem key_hash_not_checked : ¬ ∀ (services : Services) (curve : Curve)
    (keystore : CKeyStore curve) (block signed : CBlock) (coinstake : CTransaction),
    StakesOutput block coinstake → signBlock curve keystore block = .ok (some signed) →
      checkBlockSignatureReading services curve.signer signed = .ok true := by
  intro agrees
  have accepted := agrees mainnetServices oneKeyCurve oneKeyStore
    (stakedBlock (Script.opDup :: Script.opHash160 :: 20 ::
      (noKeyID.val ++ [Script.opEqualVerify, Script.opCheckSig]))) _ _ (stakedBlock_stakes _) rfl
  cases accepted

end ZenonCore.BlockSigning
