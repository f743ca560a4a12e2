import ZenonCore.ScriptReader
import ZenonCore.Standard

/-!
# Destinations

The scripts that `GetScriptForDestination` and `GetScriptForMultisig` build, and what
`ExtractDestination` and `Solver` find in them again.
-/

namespace ZenonCore.Destinations

open Script Standard List
open ScriptNum (pushOf)
open ScriptReader

abbrev Uint160 := { bytes : Bytes // bytes.length = 20 }

/-- The constructor of `uint160` from a vector, which throws at another size. -/
def uint160 (vch : Bytes) : Except Fault Uint160 :=
  if size : vch.length = 20 then .ok ⟨vch, size⟩ else .error .exception

inductive CTxDestination where
  | noDestination
  | keyID (keyID : Uint160)
  | scriptID (scriptID : Uint160)
deriving DecidableEq

def getLen (chHeader : UInt8) : Nat :=
  if chHeader = 2 ∨ chHeader = 3 then 33
  else if chHeader = 4 ∨ chHeader = 6 ∨ chHeader = 7 then 65
  else 0

def pubKeyIsValid (vch : Bytes) : Bool :=
  let len := if vch.isEmpty then 0 else getLen (vch.headD 0)
  len != 0 && len == vch.length

def getScriptForDestination : CTxDestination → Except Fault CScript
  | .noDestination => .ok []
  | .keyID keyID =>
    build [.operation opDup, .operation opHash160, .push keyID.val, .operation opEqualVerify,
      .operation opCheckSig]
  | .scriptID scriptID => build [.operation opHash160, .push scriptID.val, .operation opEqual]

def encodeOpN (n : Int) : Option UInt8 :=
  if 0 ≤ n ∧ n ≤ 16 then
    if n = 0 then some op0 else some (UInt8.ofNat ((op1.toNat : Int) + n - 1).toNat)
  else none

/-- `GetScriptForMultisig`; the number of the keys is passed on as an `int`. -/
def getScriptForMultisig (nRequired : Int) (keys : List Bytes) : Option CScript := do
  let required ← encodeOpN nRequired
  let size ← encodeOpN (Int.bmod keys.length (2 ^ 32))
  (build ([.operation required] ++ keys.map Item.push ++
    [.operation size, .operation opCheckMultiSig])).toOption

def firstOf (vSolutions : List Bytes) : Except Fault Bytes :=
  match vSolutions with
  | [] => .error .outOfRange
  | vch :: _ => .ok vch

/-- `ExtractDestination`, with the destination if it returns true. The hash of a key is a
parameter. -/
def extractDestination (hash160 : Bytes → Uint160) (scriptPubKey : CScript) :
    Except Fault (Option CTxDestination) := do
  let solution ← solver scriptPubKey
  if solution.result = false then pure none
  else if solution.typeRet = .pubkey then do
    let vch ← firstOf solution.vSolutionsRet
    if pubKeyIsValid vch then pure (some (.keyID (hash160 vch))) else pure none
  else if solution.typeRet = .pubkeyhash then do
    let vch ← firstOf solution.vSolutionsRet
    let keyID ← uint160 vch
    pure (some (.keyID keyID))
  else if solution.typeRet = .scripthash then do
    let vch ← firstOf solution.vSolutionsRet
    let scriptID ← uint160 vch
    pure (some (.scriptID scriptID))
  else pure none

theorem getOp_direct (b rest : CScript) (short : b.length < 76) :
    getOp (pushOf b ++ rest) = some (UInt8.ofNat b.length, b, rest) := by
  have direct : opPushData1.toNat = 76 := rfl
  have byte : (UInt8.ofNat b.length).toNat = b.length := by
    rw [UInt8.toNat_ofNat']
    omega
  have small : UInt8.ofNat b.length < opPushData1 := by
    rw [UInt8.lt_iff_toNat_lt, byte]
    exact short
  rw [pushOf, if_pos (by omega), cons_append, getOp,
    if_pos (UInt8.le_of_lt (UInt8.lt_trans small (by decide))), if_pos small, takeOperand, byte,
    if_neg (by rw [length_append]; omega), take_left, drop_left]

theorem getOp_operation (opcode : UInt8) (rest : CScript) (above : opPushData4 < opcode) :
    getOp (opcode :: rest) = some (opcode, [], rest) := by
  rw [getOp, if_neg (UInt8.not_le.mpr above)]

theorem encodeOpN_spec (n : Nat) (least : 1 ≤ n) (most : n ≤ 16) :
    ∃ opcode, encodeOpN n = some opcode ∧ opPushData4 < opcode ∧ op1 ≤ opcode ∧
      opcode ≤ op16 ∧ decodeOpN opcode = UInt8.ofNat n := by
  have every : ∀ n ≤ 16, 1 ≤ n → encodeOpN (n : Nat) =
      some (UInt8.ofNat (op1.toNat + n - 1)) ∧ opPushData4 < UInt8.ofNat (op1.toNat + n - 1) ∧
        op1 ≤ UInt8.ofNat (op1.toNat + n - 1) ∧ UInt8.ofNat (op1.toNat + n - 1) ≤ op16 ∧
          decodeOpN (UInt8.ofNat (op1.toNat + n - 1)) = UInt8.ofNat n := by
    decide
  exact ⟨_, every n most least⟩

section Matching

variable (fuel : Nat)

theorem matchTemplate_round (pc1 pc2 rest1 rest2 vch1 vch2 : Bytes)
    (opcode1 opcode2 : UInt8) (vSolutions : List Bytes)
    (read : getOp pc1 = some (opcode1, vch1, rest1))
    (template : getOp pc2 = some (opcode2, vch2, rest2)) (single : opcode2 ≠ opPubKeys) :
    matchTemplate (fuel + 1) pc1 pc2 vSolutions =
      (matchOpcode opcode2 vch2
        { opcode := opcode1, vch := vch1, pc := rest1, vSolutions := vSolutions }).bind
          fun next => matchTemplate fuel rest1 rest2 next := by
  have present : pc1 ≠ [] := by
    rintro rfl
    cases read
  rw [matchTemplate, if_neg fun ends => present ends.1]
  simp only [read, template, if_neg single]
  cases matchOpcode opcode2 vch2
    { opcode := opcode1, vch := vch1, pc := rest1, vSolutions := vSolutions } <;> rfl

theorem matchTemplate_keys_round (pc1 pc2 rest1 rest2 later vch1 vch2 : Bytes)
    (opcode1 opcode2 : UInt8) (vSolutions : List Bytes) (reader : Reader)
    (read : getOp pc1 = some (opcode1, vch1, rest1))
    (template : getOp pc2 = some (opPubKeys, [], rest2))
    (next : getOp rest2 = some (opcode2, vch2, later))
    (collected : collectPubKeys fuel
      { opcode := opcode1, vch := vch1, pc := rest1, vSolutions := vSolutions } = reader) :
    matchTemplate (fuel + 1) pc1 pc2 vSolutions =
      (matchOpcode opcode2 vch2 reader).bind fun next =>
        matchTemplate fuel reader.pc later next := by
  have present : pc1 ≠ [] := by
    rintro rfl
    cases read
  rw [matchTemplate, if_neg fun ends => present ends.1]
  simp only [read, template, if_true, collected, next]
  cases matchOpcode opcode2 vch2 reader <;> rfl

theorem matchTemplate_end (vSolutions : List Bytes) :
    matchTemplate (fuel + 1) [] [] vSolutions = some vSolutions := by
  rw [matchTemplate, if_pos ⟨rfl, rfl⟩]

theorem matchTemplate_same (opcode : UInt8) (rest1 rest2 : CScript)
    (vSolutions : List Bytes) (above : opPushData4 < opcode)
    (plain : opcode ≠ opPubKeys ∧ opcode ≠ opPubKey ∧ opcode ≠ opPubKeyHash ∧
      opcode ≠ opSmallInteger) :
    matchTemplate (fuel + 1) (opcode :: rest1) (opcode :: rest2) vSolutions =
      matchTemplate fuel rest1 rest2 vSolutions := by
  obtain ⟨single, key, hash, small⟩ := plain
  rw [matchTemplate_round _ _ _ _ _ _ _ _ _ _ (getOp_operation opcode rest1 above)
    (getOp_operation opcode rest2 above) single, matchOpcode, if_neg key, if_neg hash,
    if_neg small, if_neg (by simp), Option.bind_some]

theorem matchOpcode_small (reader : Reader) (least : op1 ≤ reader.opcode)
    (most : reader.opcode ≤ op16) :
    matchOpcode opSmallInteger [] reader =
      some (reader.vSolutions ++ [[decodeOpN reader.opcode]]) := by
  rw [matchOpcode, if_neg (by decide), if_neg (by decide), if_pos rfl,
    if_pos (Or.inr ⟨least, most⟩)]

theorem collectPubKeys_keys (keys : List Bytes) (last opcode : UInt8) (key tail : Bytes)
    (vSolutions : List Bytes) (fuel : Nat) (above : opPushData4 < last)
    (sizes : ∀ other ∈ key :: keys, 33 ≤ other.length ∧ other.length ≤ 65)
    (enough : keys.length < fuel) :
    collectPubKeys fuel ⟨opcode, key, keys.flatMap pushOf ++ last :: tail, vSolutions⟩ =
      ⟨last, [], tail, vSolutions ++ key :: keys⟩ := by
  induction keys generalizing opcode key vSolutions fuel with
  | nil =>
    cases fuel with
    | zero => cases enough
    | succ fuel =>
      have read := getOp_operation last tail above
      rw [collectPubKeys, if_pos (sizes key mem_cons_self), flatMap_nil,
        nil_append, read]
      simp only
      cases fuel with
      | zero => rfl
      | succ fuel => rw [collectPubKeys, if_neg (by simp)]
  | cons other keys ih =>
    cases fuel with
    | zero => cases enough
    | succ fuel =>
      have size := sizes other (by simp)
      have read := getOp_direct other (keys.flatMap pushOf ++ last :: tail) (by omega)
      rw [← append_assoc] at read
      rw [collectPubKeys, if_pos (sizes key mem_cons_self), flatMap_cons, read]
      simp only
      rw [ih _ other (vSolutions ++ [key]) fuel
        (fun third among => sizes third (mem_cons_of_mem key among))
        (by simpa using enough), append_assoc]
      rfl

end Matching

theorem keyID_script (keyID : Uint160) :
    getScriptForDestination (.keyID keyID) =
      .ok (opDup :: opHash160 :: (pushOf keyID.val ++ [opEqualVerify, opCheckSig])) := by
  rw [getScriptForDestination, build_eq]
  rfl

theorem scriptID_script (scriptID : Uint160) :
    getScriptForDestination (.scriptID scriptID) =
      .ok (opHash160 :: (pushOf scriptID.val ++ [opEqual])) := by
  rw [getScriptForDestination, build_eq]
  rfl

theorem push_hash (hash : Uint160) : pushOf hash.val = 20 :: hash.val := by
  have direct : opPushData1.toNat = 76 := rfl
  have size := hash.property
  rw [pushOf, if_pos (by omega), size]
  rfl

theorem uint160_val (hash : Uint160) : uint160 hash.val = .ok hash := by
  rw [uint160, dif_pos hash.property]

theorem extract_scriptID (hash160 : Bytes → Uint160) (scriptID : Uint160) :
    extractDestination hash160 (opHash160 :: (pushOf scriptID.val ++ [opEqual])) =
      .ok (some (.scriptID scriptID)) := by
  have size := scriptID.property
  have last : (opHash160 :: 20 :: (scriptID.val ++ [opEqual]))[22]? = some opEqual := by
    simp only [getElem?_cons_succ]
    rw [getElem?_append_right (by omega), size]
    rfl
  have p2sh : isPayToScriptHash (opHash160 :: 20 :: (scriptID.val ++ [opEqual])) = true := by
    simp only [isPayToScriptHash, last, length_cons, length_append, length_nil,
      size, getElem?_cons_zero, getElem?_cons_succ]
    rfl
  have hash : subrange (opHash160 :: 20 :: (scriptID.val ++ [opEqual])) 2 22 =
      .ok scriptID.val := by
    rw [subrange, if_pos (by simp [size]), take_succ_cons, take_succ_cons,
      take_append_of_le_length (by omega), take_of_length_le (by omega)]
    rfl
  rw [push_hash, cons_append, extractDestination, solver, if_pos p2sh, hash]
  change (do
    let scriptID ← uint160 scriptID.val
    pure (some (CTxDestination.scriptID scriptID)) : Except Fault _) = _
  rw [uint160_val]
  rfl

theorem solver_keyID (keyID : Uint160) :
    solver (opDup :: opHash160 :: (pushOf keyID.val ++ [opEqualVerify, opCheckSig])) =
      .ok { result := true, typeRet := .pubkeyhash, vSolutionsRet := [keyID.val] } := by
  have size := keyID.property
  have length : (opDup :: opHash160 :: (pushOf keyID.val ++ [opEqualVerify, opCheckSig])).length =
      25 := by
    simp [push_hash, size]
  have notP2sh : isPayToScriptHash
      (opDup :: opHash160 :: (pushOf keyID.val ++ [opEqualVerify, opCheckSig])) = false := by
    rw [isPayToScriptHash, length]
    rfl
  have dup := getOp_operation opDup (opHash160 :: (pushOf keyID.val ++
    [opEqualVerify, opCheckSig])) (by decide)
  have pushed := getOp_direct keyID.val [opEqualVerify, opCheckSig] (by omega)
  have noKey (fuel : Nat) : matchTemplate (fuel + 1)
      (opDup :: opHash160 :: (pushOf keyID.val ++ [opEqualVerify, opCheckSig]))
        [opPubKey, opCheckSig] [] = none := by
    rw [matchTemplate_round _ _ _ _ _ _ _ _ _ _ dup (getOp_operation opPubKey _ (by decide))
      (by decide)]
    rfl
  have keyHash (fuel : Nat) : matchTemplate (fuel + 6)
      (opDup :: opHash160 :: (pushOf keyID.val ++ [opEqualVerify, opCheckSig]))
        [opDup, opHash160, opPubKeyHash, opEqualVerify, opCheckSig] [] = some [keyID.val] := by
    rw [matchTemplate_same _ _ _ _ _ (by decide) (by decide),
      matchTemplate_same _ _ _ _ _ (by decide) (by decide),
      matchTemplate_round _ _ _ _ _ _ _ _ _ _ pushed (getOp_operation opPubKeyHash _ (by decide))
        (by decide), matchOpcode, if_neg (by decide), if_pos rfl, if_neg (by simp [size]),
      Option.bind_some, matchTemplate_same _ _ _ _ _ (by decide) (by decide),
      matchTemplate_same _ _ _ _ _ (by decide) (by decide), matchTemplate_end]
    rfl
  have noMint : isZerocoinMint
      (opDup :: opHash160 :: (pushOf keyID.val ++ [opEqualVerify, opCheckSig])) = false := rfl
  have noData : ¬ ((opDup :: opHash160 :: (pushOf keyID.val ++
      [opEqualVerify, opCheckSig])).head? = some opReturn) := by
    rw [head?_cons]
    decide
  rw [solver, notP2sh, noMint, if_neg (by decide), if_neg (by decide),
    if_neg fun both => noData both.1, mTemplates, scanTemplates, length, noKey, scanTemplates,
    length, keyHash]
  rfl

theorem extract_keyID (hash160 : Bytes → Uint160) (keyID : Uint160) :
    extractDestination hash160
      (opDup :: opHash160 :: (pushOf keyID.val ++ [opEqualVerify, opCheckSig])) =
        .ok (some (.keyID keyID)) := by
  rw [extractDestination, solver_keyID]
  change (do
    let keyID ← uint160 keyID.val
    pure (some (CTxDestination.keyID keyID)) : Except Fault _) = _
  rw [uint160_val]
  rfl

section Multisig

variable (keys : List Bytes) (required size : UInt8)

def multisigScript : CScript :=
  required :: (keys.flatMap pushOf ++ [size, opCheckMultiSig])

theorem keys_length_le : keys.length ≤ (keys.flatMap pushOf).length := by
  induction keys with
  | nil => exact Nat.le_refl 0
  | cons key keys ih =>
    have positive : 0 < (pushOf key).length := by
      rw [pushOf]
      split_ifs <;> simp
    rw [flatMap_cons, length_append, length_cons]
    omega

theorem multisig_script (m : Nat) (least : 1 ≤ m) (most : m ≤ keys.length)
    (few : keys.length ≤ 16) :
    ∃ required size, getScriptForMultisig m keys = some (multisigScript keys required size) ∧
      op1 ≤ required ∧ required ≤ op16 ∧ decodeOpN required = UInt8.ofNat m ∧
        op1 ≤ size ∧ size ≤ op16 ∧ decodeOpN size = UInt8.ofNat keys.length := by
  obtain ⟨required, encoded, _, low, high, decoded⟩ := encodeOpN_spec m least (by omega)
  obtain ⟨size, counted, _, lowSize, highSize, decodedSize⟩ :=
    encodeOpN_spec keys.length (by omega) few
  have count : Int.bmod keys.length (2 ^ 32) = keys.length := by
    apply Int.bmod_eq_of_le <;> omega
  refine ⟨required, size, ?_, low, high, decoded, lowSize, highSize, decodedSize⟩
  rw [getScriptForMultisig, encoded, count, counted]
  simp only [Option.bind_eq_bind, Option.bind_some]
  rw [build_eq, flatMap_append, flatMap_append, flatMap_map]
  rfl

variable {keys required size}

theorem multisig_template (valid : ∀ key ∈ keys, 33 ≤ key.length ∧ key.length ≤ 65)
    (nonempty : keys ≠ []) (low : op1 ≤ required) (high : required ≤ op16) (lowSize : op1 ≤ size)
    (highSize : size ≤ op16) (fuel : Nat) (enough : keys.length + 4 ≤ fuel) :
    matchTemplate fuel (multisigScript keys required size)
        [opSmallInteger, opPubKeys, opSmallInteger, opCheckMultiSig] [] =
      some ([[decodeOpN required]] ++ keys ++ [[decodeOpN size]]) := by
  obtain ⟨fuel, rfl⟩ : ∃ more, fuel = more + 4 := ⟨fuel - 4, by omega⟩
  have above : opPushData4 < required := UInt8.lt_of_lt_of_le (by decide) low
  have aboveSize : opPushData4 < size := UInt8.lt_of_lt_of_le (by decide) lowSize
  cases keys with
  | nil => exact absurd rfl nonempty
  | cons key keys =>
    have keySize := valid key mem_cons_self
    have pushed := getOp_direct key (keys.flatMap pushOf ++ size :: [opCheckMultiSig]) (by omega)
    have collected := collectPubKeys_keys keys size (UInt8.ofNat key.length) key
      [opCheckMultiSig] [[decodeOpN required]] (fuel + 2) aboveSize valid
      (by simp only [length_cons] at enough; omega)
    rw [multisigScript, flatMap_cons, append_assoc,
      matchTemplate_round _ _ _ _ _ _ _ _ _ _ (getOp_operation required _ above)
        (getOp_operation opSmallInteger _ (by decide)) (by decide),
      matchOpcode_small _ low high, Option.bind_some]
    change matchTemplate (fuel + 2 + 1) _ _ [[decodeOpN required]] = _
    rw [matchTemplate_keys_round _ _ _ _ _ _ _ _ _ _ _ _ pushed
        (getOp_operation opPubKeys _ (by decide)) (getOp_operation opSmallInteger _ (by decide))
        collected,
      matchOpcode_small _ lowSize highSize, Option.bind_some,
      matchTemplate_same _ _ _ _ _ (by decide) (by decide), matchTemplate_end]

theorem multisig_other (low : op1 ≤ required) (high : required ≤ op16) (fuel : Nat)
    (template : TxnOutType × CScript) (among : template ∈ mTemplates)
    (other : template.1 ≠ .multisig) :
    matchTemplate (fuel + 1) (multisigScript keys required size) template.2 [] = none := by
  have above : opPushData4 < required := UInt8.lt_of_lt_of_le (by decide) low
  have notDup : required ≠ opDup := by
    rintro rfl
    exact absurd high (by decide)
  simp only [mTemplates, mem_cons, not_mem_nil, or_false] at among
  rw [multisigScript]
  obtain rfl | rfl | rfl := among
  · rw [matchTemplate_round _ _ _ _ _ _ _ _ _ _ (getOp_operation required _ above)
      (getOp_operation opPubKey _ (by decide)) (by decide)]
    rfl
  · rw [matchTemplate_round _ _ _ _ _ _ _ _ _ _ (getOp_operation required _ above)
      (getOp_operation opDup _ (by decide)) (by decide), matchOpcode, if_neg (by decide),
      if_neg (by decide), if_neg (by decide), if_pos (Or.inl notDup)]
    rfl
  · exact absurd rfl other

theorem multisig_counts (m : Nat) (least : 1 ≤ m) (most : m ≤ keys.length)
    (few : keys.length ≤ 16) :
    multisigCounts ([[UInt8.ofNat m]] ++ keys ++ [[UInt8.ofNat keys.length]]) = true := by
  have every : ∀ n ≤ 16, ∀ m ≤ n, 1 ≤ m →
      ¬ (UInt8.ofNat m < 1) ∧ ¬ (UInt8.ofNat n < 1) ∧ ¬ (UInt8.ofNat n < UInt8.ofNat m) ∧
        n = (UInt8.ofNat n).toNat := by
    decide
  obtain ⟨first, second, third, number⟩ := every keys.length few m most least
  have length : ([[UInt8.ofNat m]] ++ keys ++ [[UInt8.ofNat keys.length]]).length - 2 =
      keys.length := by
    simp
  rw [multisigCounts, length, getLastD_concat]
  simp only [cons_append, headD_cons]
  simp [first, second, third, ← number]

theorem multisig_solved (valid : ∀ key ∈ keys, 33 ≤ key.length ∧ key.length ≤ 65) (m : Nat)
    (least : 1 ≤ m) (most : m ≤ keys.length) (few : keys.length ≤ 16) (low : op1 ≤ required)
    (high : required ≤ op16) (lowSize : op1 ≤ size) (highSize : size ≤ op16)
    (decoded : decodeOpN required = UInt8.ofNat m)
    (decodedSize : decodeOpN size = UInt8.ofNat keys.length) :
    solver (multisigScript keys required size) =
      .ok
        { result := true
          typeRet := .multisig
          vSolutionsRet := [[UInt8.ofNat m]] ++ keys ++ [[UInt8.ofNat keys.length]] } := by
  have nonempty : keys ≠ [] := by
    rintro rfl
    cases most.trans' least
  have differs (opcode : UInt8) (outside : ¬ opcode ≤ op16) : required ≠ opcode := by
    rintro rfl
    exact outside high
  have notP2sh : isPayToScriptHash (multisigScript keys required size) = false := by
    simp [isPayToScriptHash, multisigScript, differs opHash160 (by decide)]
  have noMint : isZerocoinMint (multisigScript keys required size) = false := by
    simp [isZerocoinMint, startsWithOpcode, multisigScript, differs opZerocoinMint (by decide)]
  have noData : ¬ (multisigScript keys required size).head? = some opReturn := by
    simp [multisigScript, differs opReturn (by decide)]
  have room : keys.length + 4 ≤ (multisigScript keys required size).length + 1 := by
    have bytes := keys_length_le keys
    simp only [multisigScript, length_cons, length_append, length_nil]
    omega
  have matched := multisig_template valid nonempty low high lowSize highSize _ room
  have other := @multisig_other keys required size low high
    (multisigScript keys required size).length
  rw [solver, notP2sh, noMint, if_neg (by decide), if_neg (by decide),
    if_neg fun both => noData both.1, mTemplates, scanTemplates,
    other (.pubkey, _) (by simp [mTemplates]) (by decide), scanTemplates,
    other (.pubkeyhash, _) (by simp [mTemplates]) (by decide), scanTemplates, matched, decoded,
    decodedSize]
  simp only [multisig_counts m least most few, Bool.or_true]
  rfl

end Multisig

/-- `ExtractDestination` gives back the destination of a script built for it, and `Solver` the
number, the keys and their count of one built for several keys, which matches no other template. -/
theorem solver_inverts_builders (hash160 : Bytes → Uint160) :
    (∀ destination ≠ CTxDestination.noDestination, ∃ script,
      getScriptForDestination destination = .ok script ∧
        extractDestination hash160 script = .ok (some destination)) ∧
    ∀ (m : Nat) (keys : List Bytes), (∀ key ∈ keys, 33 ≤ key.length ∧ key.length ≤ 65) →
      1 ≤ m → m ≤ keys.length → keys.length ≤ 16 →
        ∃ script, getScriptForMultisig m keys = some script ∧
          solver script = .ok
            { result := true
              typeRet := .multisig
              vSolutionsRet := [[UInt8.ofNat m]] ++ keys ++ [[UInt8.ofNat keys.length]] } ∧
          ∀ template ∈ mTemplates, template.1 ≠ .multisig →
            matchTemplate (script.length + 1) script template.2 [] = none := by
  constructor
  · intro destination known
    cases destination with
    | noDestination => exact absurd rfl known
    | keyID keyID => exact ⟨_, keyID_script keyID, extract_keyID hash160 keyID⟩
    | scriptID scriptID => exact ⟨_, scriptID_script scriptID, extract_scriptID hash160 scriptID⟩
  · intro m keys valid least most few
    obtain ⟨required, size, built, low, high, decoded, lowSize, highSize, decodedSize⟩ :=
      multisig_script keys m least most few
    exact ⟨_, built, multisig_solved valid m least most few low high lowSize highSize decoded
      decodedSize, multisig_other low high _⟩

/-- Three keys, compressed and uncompressed, of which two have to sign. -/
def threeKeys : List Bytes :=
  [2 :: List.replicate 32 7, 4 :: List.replicate 64 8, 3 :: List.replicate 32 9]

theorem two_of_three_keys : ∃ script, getScriptForMultisig 2 threeKeys = some script ∧
    solver script = .ok
      { result := true
        typeRet := .multisig
        vSolutionsRet := [[UInt8.ofNat 2]] ++ threeKeys ++ [[UInt8.ofNat threeKeys.length]] } ∧
    ∀ template ∈ mTemplates, template.1 ≠ .multisig →
      matchTemplate (script.length + 1) script template.2 [] = none :=
  (solver_inverts_builders fun _ => ⟨replicate 20 0, rfl⟩).2 2 threeKeys (by decide)
    (by decide) (by decide) (by decide)

end ZenonCore.Destinations
