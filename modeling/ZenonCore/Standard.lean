import ZenonCore.Script

/-!
# The script solver

`Solver` of `script/standard.cpp`: the shortcuts for pay-to-script-hash,
zerocoin mints and data carriers, then the scan of the templates.
-/

namespace ZenonCore.Standard

open Script

inductive TxnOutType
  | nonstandard
  | pubkey
  | pubkeyhash
  | scripthash
  | multisig
  | nullData
  | zerocoinmint
deriving DecidableEq, Repr

/-- What `Solver` returns and what it leaves in its two reference arguments. -/
structure Solution where
  result : Bool
  typeRet : TxnOutType
  vSolutionsRet : List Bytes
deriving DecidableEq, Repr

def mTemplates : List (TxnOutType × CScript) :=
  [(.pubkey, [opPubKey, opCheckSig]),
    (.pubkeyhash, [opDup, opHash160, opPubKeyHash, opEqualVerify, opCheckSig]),
    (.multisig, [opSmallInteger, opPubKeys, opSmallInteger, opCheckMultiSig])]

def decodeOpN (opcode : UInt8) : UInt8 :=
  if opcode = op0 then 0 else opcode - (op1 - 1)

/-- The reader while it collects the keys of a multisig template. -/
structure Reader where
  opcode : UInt8
  vch : Bytes
  pc : CScript
  vSolutions : List Bytes

/-- The inner loop at `OP_PUBKEYS`. A failed `GetOp` leaves `OP_INVALIDOPCODE` and no data behind.
-/
def collectPubKeys : Nat → Reader → Reader
  | 0, reader => reader
  | fuel + 1, reader =>
    if 33 ≤ reader.vch.length ∧ reader.vch.length ≤ 65 then
      let vSolutions := reader.vSolutions ++ [reader.vch]
      match getOp reader.pc with
      | none => { opcode := opInvalidOpcode, vch := [], pc := [], vSolutions := vSolutions }
      | some (opcode, vch, pc) =>
        collectPubKeys fuel { opcode := opcode, vch := vch, pc := pc, vSolutions := vSolutions }
    else reader

/-- One instruction of the script against one opcode of the template. -/
def matchOpcode (opcode2 : UInt8) (vch2 : Bytes) (reader : Reader) : Option (List Bytes) :=
  if opcode2 = opPubKey then
    if reader.vch.length < 33 ∨ 65 < reader.vch.length then none
    else some (reader.vSolutions ++ [reader.vch])
  else if opcode2 = opPubKeyHash then
    if reader.vch.length ≠ 20 then none else some (reader.vSolutions ++ [reader.vch])
  else if opcode2 = opSmallInteger then
    if reader.opcode = op0 ∨ (op1 ≤ reader.opcode ∧ reader.opcode ≤ op16) then
      some (reader.vSolutions ++ [[decodeOpN reader.opcode]])
    else none
  else if reader.opcode ≠ opcode2 ∨ reader.vch ≠ vch2 then none
  else some reader.vSolutions

/-- The comparison loop for one template, over at most `fuel` instructions. -/
def matchTemplate : Nat → CScript → CScript → List Bytes → Option (List Bytes)
  | 0, _, _, _ => none
  | fuel + 1, pc1, pc2, vSolutions =>
    if pc1 = [] ∧ pc2 = [] then some vSolutions
    else match getOp pc1, getOp pc2 with
      | some (opcode1, vch1, pc1), some (opcode2, vch2, pc2) =>
        let reader : Reader :=
          { opcode := opcode1, vch := vch1, pc := pc1, vSolutions := vSolutions }
        if opcode2 = opPubKeys then
          let reader := collectPubKeys fuel reader
          match getOp pc2 with
          | none => none
          | some (opcode2, vch2, pc2) =>
            match matchOpcode opcode2 vch2 reader with
            | none => none
            | some vSolutions => matchTemplate fuel reader.pc pc2 vSolutions
        else
          match matchOpcode opcode2 vch2 reader with
          | none => none
          | some vSolutions => matchTemplate fuel pc1 pc2 vSolutions
      | _, _ => none

def multisigCounts (vSolutions : List Bytes) : Bool :=
  let m := (vSolutions.headD []).headD 0
  let n := (vSolutions.getLastD []).headD 0
  !(m < 1 || n < 1 || n < m || vSolutions.length - 2 != n.toNat)

/-- The scan of the templates; no template means `TX_NONSTANDARD`. -/
def scanTemplates (script1 : CScript) : List (TxnOutType × CScript) → Solution
  | [] => { result := false, typeRet := .nonstandard, vSolutionsRet := [] }
  | (typeRet, script2) :: rest =>
    match matchTemplate (script1.length + 1) script1 script2 [] with
    | some vSolutions =>
      { result := typeRet != .multisig || multisigCounts vSolutions
        typeRet := typeRet
        vSolutionsRet := vSolutions }
    | none => scanTemplates script1 rest

def solver (scriptPubKey : CScript) : Except Fault Solution :=
  if isPayToScriptHash scriptPubKey then do
    let hashBytes ← subrange scriptPubKey 2 22
    pure { result := true, typeRet := .scripthash, vSolutionsRet := [hashBytes] }
  else if isZerocoinMint scriptPubKey then
    if 150 < scriptPubKey.length then
      pure { result := false, typeRet := .zerocoinmint, vSolutionsRet := [] }
    else do
      let hashBytes ← suffixFrom scriptPubKey 2
      pure { result := true, typeRet := .zerocoinmint, vSolutionsRet := [hashBytes] }
  else if scriptPubKey.head? = some opReturn ∧ isPushOnly (scriptPubKey.drop 1) then
    pure { result := true, typeRet := .nullData, vSolutionsRet := [] }
  else pure (scanTemplates scriptPubKey mTemplates)

variable (script : CScript)

theorem payToScriptHash_length (p2sh : isPayToScriptHash script = true) :
    script.length = 23 := by
  simp only [isPayToScriptHash, Bool.and_eq_true, beq_iff_eq] at p2sh
  exact p2sh.1.1.1

theorem solver_outOfRange :
    solver script = .error .outOfRange ↔
      isZerocoinMint script = true ∧ script.length < 2 := by
  unfold solver
  by_cases p2sh : isPayToScriptHash script = true
  · have length := payToScriptHash_length script p2sh
    have inside : subrange script 2 22 = .ok ((script.take 22).drop 2) := by
      simp [subrange, length]
    simp [p2sh, inside, length]
  · rw [if_neg p2sh]
    by_cases mint : isZerocoinMint script = true
    · simp only [mint, if_true, true_and]
      by_cases long : 150 < script.length
      · simp only [long, if_true, pure, Except.pure, reduceCtorEq, false_iff]
        omega
      · simp only [long, if_false]
        by_cases inside : 2 ≤ script.length
        · simp only [suffixFrom_ok script 2 inside, bind, Except.bind, pure, Except.pure,
            reduceCtorEq, false_iff]
          omega
        · have outside : suffixFrom script 2 = .error .outOfRange :=
            (suffixFrom_outOfRange script 2).mpr (by omega)
          simp only [outside, bind, Except.bind, true_iff]
          omega
    · simp only [mint, Bool.false_eq_true, if_false, false_and, iff_false]
      split_ifs <;> simp [pure, Except.pure]

theorem solver_no_exception : solver script ≠ .error .exception := by
  unfold solver suffixFrom subrange
  split_ifs <;> simp [bind, Except.bind, pure, Except.pure]

theorem matchTemplate_cons (fuel : Nat) (pc1 pc2 : CScript) (opcode2 : UInt8)
    (vSolutions found : List Bytes)
    (single : getOp (opcode2 :: pc2) = some (opcode2, [], pc2)) (noKeys : opcode2 ≠ opPubKeys)
    (matched : matchTemplate fuel pc1 (opcode2 :: pc2) vSolutions = some found) :
    ∃ fewer reader next, reader.vSolutions = vSolutions ∧
      matchOpcode opcode2 [] reader = some next ∧
      matchTemplate fewer reader.pc pc2 next = some found := by
  cases fuel with
  | zero => cases matched
  | succ fuel =>
    unfold matchTemplate at matched
    rw [if_neg (by simp), single] at matched
    cases read : getOp pc1 with
    | none =>
      rw [read] at matched
      cases matched
    | some instruction =>
      obtain ⟨opcode1, vch1, rest⟩ := instruction
      simp only [read, if_neg noKeys] at matched
      split at matched
      · cases matched
      · rename_i next taken
        exact ⟨fuel, _, next, rfl, taken, matched⟩

theorem matchTemplate_nil (fuel : Nat) (pc1 : CScript) (vSolutions found : List Bytes)
    (matched : matchTemplate fuel pc1 [] vSolutions = some found) : found = vSolutions := by
  cases fuel with
  | zero => cases matched
  | succ fuel =>
    unfold matchTemplate at matched
    split at matched
    · exact (Option.some.inj matched).symm
    · split at matched
      · rename_i other
        cases other
      · cases matched

variable (opcode2 : UInt8) (reader : Reader) (next : List Bytes)

theorem matchOpcode_plain (plain : opcode2 ≠ opPubKey ∧ opcode2 ≠ opPubKeyHash ∧ opcode2 ≠ opSmallInteger)
    (taken : matchOpcode opcode2 [] reader = some next) : next = reader.vSolutions := by
  unfold matchOpcode at taken
  rw [if_neg plain.1, if_neg plain.2.1, if_neg plain.2.2] at taken
  split at taken
  · cases taken
  · exact (Option.some.inj taken).symm

theorem matchOpcode_key (key : opcode2 = opPubKey ∨ opcode2 = opPubKeyHash)
    (taken : matchOpcode opcode2 [] reader = some next) :
    next = reader.vSolutions ++ [reader.vch] := by
  unfold matchOpcode at taken
  split at taken
  · split at taken
    · cases taken
    · exact (Option.some.inj taken).symm
  · rename_i notKey
    rw [if_pos (key.resolve_left notKey)] at taken
    split at taken
    · cases taken
    · exact (Option.some.inj taken).symm

theorem pubKeyTemplate_solutions (fuel : Nat) (script : CScript) (vSolutions : List Bytes)
    (matched : matchTemplate fuel script [opPubKey, opCheckSig] [] = some vSolutions) :
    vSolutions ≠ [] := by
  rcases matchTemplate_cons _ _ _ _ _ _ rfl (by decide) matched with
    ⟨fewer, first, keyed, _, takenKey, rest⟩
  rcases matchTemplate_cons _ _ _ _ _ _ rfl (by decide) rest with
    ⟨fewest, second, last, kept, takenSig, done⟩
  rw [matchTemplate_nil _ _ _ _ done, matchOpcode_plain _ _ _ (by decide) takenSig, kept,
    matchOpcode_key _ _ _ (Or.inl rfl) takenKey]
  simp

theorem pubKeyHashTemplate_solutions (fuel : Nat) (script : CScript) (vSolutions : List Bytes)
    (matched : matchTemplate fuel script
      [opDup, opHash160, opPubKeyHash, opEqualVerify, opCheckSig] [] = some vSolutions) :
    vSolutions ≠ [] := by
  obtain ⟨_, _, _, _, _, hashed⟩ := matchTemplate_cons _ _ _ _ _ _ rfl (by decide) matched
  obtain ⟨_, _, _, _, _, keyed⟩ := matchTemplate_cons _ _ _ _ _ _ rfl (by decide) hashed
  rcases matchTemplate_cons _ _ _ _ _ _ rfl (by decide) keyed with
    ⟨_, third, withKey, _, takenKey, verified⟩
  rcases matchTemplate_cons _ _ _ _ _ _ rfl (by decide) verified with
    ⟨_, fourth, withVerify, keptVerify, takenVerify, signed⟩
  rcases matchTemplate_cons _ _ _ _ _ _ rfl (by decide) signed with
    ⟨_, fifth, last, keptSig, takenSig, done⟩
  rw [matchTemplate_nil _ _ _ _ done, matchOpcode_plain _ _ _ (by decide) takenSig, keptSig,
    matchOpcode_plain _ _ _ (by decide) takenVerify, keptVerify,
    matchOpcode_key _ _ _ (Or.inr rfl) takenKey]
  simp

theorem solver_solutions (solution : Solution)
    (solved : solver script = .ok solution) (succeeded : solution.result = true)
    (keyed : solution.typeRet = .pubkey ∨ solution.typeRet = .pubkeyhash) :
    solution.vSolutionsRet ≠ [] := by
  have other : ∀ result typeRet vSolutions, typeRet ≠ .pubkey → typeRet ≠ .pubkeyhash →
      (.ok { result := result, typeRet := typeRet, vSolutionsRet := vSolutions } :
        Except Fault Solution) ≠ .ok solution := by
    intro result typeRet vSolutions notKey notHash same
    cases same
    obtain key | hash := keyed
    · exact notKey key
    · exact notHash hash
  unfold solver at solved
  split at solved
  · cases read : subrange script 2 22 with
    | error fault =>
      rw [read] at solved
      cases solved
    | ok hashBytes =>
      rw [read] at solved
      exact absurd solved (other _ _ _ (by decide) (by decide))
  · split at solved
    · split at solved
      · exact absurd solved (other _ _ _ (by decide) (by decide))
      · cases read : suffixFrom script 2 with
        | error fault =>
          rw [read] at solved
          cases solved
        | ok hashBytes =>
          rw [read] at solved
          exact absurd solved (other _ _ _ (by decide) (by decide))
    · split at solved
      · exact absurd solved (other _ _ _ (by decide) (by decide))
      · -- one branch for each template
        simp only [mTemplates, scanTemplates] at solved
        split at solved
        · rename_i vSolutions matched
          cases solved
          exact pubKeyTemplate_solutions _ _ _ matched
        · split at solved
          · rename_i vSolutions matched
            cases solved
            exact pubKeyHashTemplate_solutions _ _ _ matched
          · split at solved
            · exact absurd solved (other _ _ _ (by decide) (by decide))
            · exact absurd solved (other _ _ _ (by decide) (by decide))

theorem solver_mint (solution : Solution)
    (mint : isZerocoinMint script = true) (solved : solver script = .ok solution) :
    solution.typeRet = .scripthash ∨ solution.typeRet = .zerocoinmint := by
  unfold solver at solved
  split_ifs at solved
  · cases read : subrange script 2 22 with
    | error fault =>
      rw [read] at solved
      cases solved
    | ok hashBytes =>
      rw [read] at solved
      cases solved
      exact Or.inl rfl
  · cases solved
    exact Or.inr rfl
  · cases read : suffixFrom script 2 with
    | error fault =>
      rw [read] at solved
      cases solved
    | ok hashBytes =>
      rw [read] at solved
      cases solved
      exact Or.inr rfl

end ZenonCore.Standard
