import ZenonCore.ScriptEngine
import ZenonCore.ScriptNumCodec

/-!
# The accesses of the script engine are there

Every size guard covers the accesses behind it. A stack of `2^31` elements, whose size is no
`int`, may be refused where it need not be.
-/

namespace ZenonCore.ScriptAccesses

open CheckedStacks Interpreter Script ScriptEngine List
open NetMessage (readLE_lt)
open ScriptNum ScriptNumCodec Strictness
open ConnectBlock (scriptVerifyCheckLockTimeVerify)

/-- The engine does what the interpreter does, or refuses a stack whose size does
not fit in an `int`. -/
abbrev Agrees {α : Type} (stack : List Bytes) (engine : Engine α) (plain : Except ScriptError α) :
    Prop :=
  AgreesOr (2 ^ 31 ≤ stack.length) .invalidStackOperation engine plain

theorem intSize_le (stack : List Bytes) : intSize stack ≤ stack.length := by
  unfold intSize Int.bmod
  dsimp only
  split <;> omega

theorem intSize_eq (stack : List Bytes) (small : stack.length < 2 ^ 31) :
    intSize stack = stack.length := by
  unfold intSize Int.bmod
  dsimp only
  split <;> omega

/-! ## Numbers -/

theorem magnitude_bound (body : Bytes) (last : Nat) (small : last < 128)
    (short : body.length ≤ 3) : readLE body + 256 ^ body.length * last < 2 ^ 31 := by
  have below := readLE_lt body
  have most : 256 ^ body.length * last ≤ 256 ^ body.length * 127 :=
    Nat.mul_le_mul_left _ (by omega)
  have power : 256 ^ body.length ≤ 256 ^ 3 := Nat.pow_le_pow_right (by decide) short
  omega

theorem setVch_bound (vch : Bytes) (short : vch.length ≤ 4) :
    -2 ^ 31 < setVch vch ∧ setVch vch < 2 ^ 31 := by
  obtain isEmpty | ⟨body, last, split⟩ := eq_nil_or_concat vch
  · rw [isEmpty]
    decide
  · rw [split, concat_eq_append, length_append, length_singleton] at short
    have byte := last.toNat_lt
    rw [split, concat_eq_append, setVch_snoc]
    by_cases negative : 128 ≤ last.toNat
    · have bound := magnitude_bound body (last.toNat - 128) (by omega) (by omega)
      rw [if_pos negative]
      omega
    · have bound := magnitude_bound body last.toNat (by omega) (by omega)
      rw [if_neg negative]
      omega

theorem scriptNum_bound (fRequireMinimal : Bool) (vch : Bytes) (bn : Int)
    (read : scriptNum fRequireMinimal nDefaultMaxNumSize vch = .ok bn) :
    -2 ^ 31 < bn ∧ bn < 2 ^ 31 := by
  unfold scriptNum at read
  cases sized : ensure (decide (vch.length ≤ nDefaultMaxNumSize)) ScriptError.unknownError with
  | error failure =>
    rw [sized] at read
    cases read
  | ok done =>
    cases minimal : demand fRequireMinimal
        (ensure (isMinimal vch) ScriptError.unknownError) with
    | error failure =>
      rw [sized, minimal] at read
      cases read
    | ok shortest =>
      rw [sized, minimal] at read
      cases read
      exact setVch_bound vch (of_decide_eq_true ((ensure_eq_ok _ _).mp sized))

theorem inInt64_ok (value : Int) (lower : -2 ^ 63 ≤ value) (upper : value < 2 ^ 63) :
    inInt64 value = .ok value := by
  unfold inInt64 int64Min int64Max
  rw [if_pos (by omega)]

theorem assert_ok {condition : Prop} [Decidable condition] (holds : condition) :
    (CheckedStacks.assert (decide condition) : Engine PUnit) = .ok ⟨⟩ := by
  rw [decide_eq_true holds]
  rfl

theorem negate_ok (bn : Int) (lower : -2 ^ 63 < bn) (upper : bn < 2 ^ 63) :
    negate bn = .ok (-bn) := by
  have notSmallest : (bn != int64Min) = true := by
    rw [bne_iff_ne]
    unfold int64Min
    omega
  unfold negate
  rw [notSmallest, inInt64_ok (-bn) (by omega) (by omega)]
  rfl

theorem plusAssign_one (bn : Int) (lower : -2 ^ 63 ≤ bn) (upper : bn < 2 ^ 63 - 1) :
    plusAssign bn 1 = .ok (bn + 1) := by
  unfold plusAssign int64Max int64Min
  rw [assert_ok (by omega), inInt64_ok (bn + 1) (by omega) (by omega)]
  rfl

theorem minusAssign_one (bn : Int) (lower : -2 ^ 63 < bn) (upper : bn < 2 ^ 63) :
    minusAssign bn 1 = .ok (bn - 1) := by
  unfold minusAssign int64Max int64Min
  rw [assert_ok (by omega), inInt64_ok (bn - 1) (by omega) (by omega)]
  rfl

theorem unarySwitch_ok (opcode : UInt8) (member : opcode ∈ unaryOpcodes) (bn : Int)
    (bound : -2 ^ 31 < bn ∧ bn < 2 ^ 31) :
    unarySwitch opcode bn = .ok (unaryOp opcode bn) := by
  have negated := negate_ok bn (by omega) (by omega)
  simp only [unaryOpcodes, mem_cons, not_mem_nil, or_false] at member
  obtain same | same | same | same | same | same := member
  · rw [same]
    exact plusAssign_one bn (by omega) (by omega)
  · rw [same]
    exact minusAssign_one bn (by omega) (by omega)
  · rw [same]
    exact negated
  · rw [same]
    change (if bn < 0 then negate bn else .ok bn) = .ok (if bn < 0 then -bn else bn)
    rw [negated]
    exact (apply_ite Except.ok _ _ _).symm
  · rw [same]
    rfl
  · rw [same]
    rfl

theorem binarySwitch_ok (opcode : UInt8) (member : opcode ∈ binaryOpcodes) (bn1 bn2 : Int)
    (first : -2 ^ 31 < bn1 ∧ bn1 < 2 ^ 31) (second : -2 ^ 31 < bn2 ∧ bn2 < 2 ^ 31) :
    binarySwitch opcode bn1 bn2 = .ok (binaryOp opcode bn1 bn2) := by
  simp only [binaryOpcodes, mem_cons, not_mem_nil, or_false] at member
  obtain same | same | same := member
  · rw [same]
    exact inInt64_ok (bn1 + bn2) (by omega) (by omega)
  · rw [same]
    exact inInt64_ok (bn1 - bn2) (by omega) (by omega)
  · -- the other opcodes compare
    obtain same | same | same | same | same | same | same | same | same | same | same := same
    all_goals
      rw [same]
      rfl

/-! ## The opcodes -/

theorem refuse_enough {α : Type} (stack : List Bytes) (count : Nat) (failure : ScriptError)
    (next : PUnit → Engine α) (enough : count ≤ stack.length) :
    (refuseIf (decide (stack.length < count)) failure >>= next) = next ⟨⟩ := by
  rw [decide_eq_false (Nat.not_lt.mpr enough)]
  rfl

theorem stacktop_first (x1 : Bytes) (rest : List Bytes) : stacktop (x1 :: rest) (-1) = .ok x1 :=
  rfl

theorem stacktop_second (x2 x1 : Bytes) (rest : List Bytes) :
    stacktop (x2 :: x1 :: rest) (-2) = .ok x1 := rfl

theorem stacktop_third (x3 x2 x1 : Bytes) (rest : List Bytes) :
    stacktop (x3 :: x2 :: x1 :: rest) (-3) = .ok x1 := rfl

theorem stackCase_regular (opcode : UInt8) (member : opcode ∈ stackOpcodes)
    (stack : List Bytes) :
    stackCase opcode stack =
      regular ((stackOp opcode stack).elim (.error .invalidStackOperation) .ok) := by
  simp only [stackOpcodes, mem_cons, not_mem_nil, or_false] at member
  obtain _ | ⟨x6, _ | ⟨x5, _ | ⟨x4, _ | ⟨x3, _ | ⟨x2, _ | ⟨x1, rest⟩⟩⟩⟩⟩⟩ := stack
  all_goals
    rcases member with same | same | same | same | same | same | same | same | same | same |
      same | same | same | same | same | same
  all_goals
    rw [same]
    rfl

theorem verifyResult_finish (verify fSuccess : Bool) (failure : ScriptError) (machine : Machine)
    (rest : List Bytes) :
    verifyResult verify fSuccess failure { machine with stack := vchBool fSuccess :: rest } =
      regular (finish verify failure (vchBool fSuccess) { machine with stack := rest }) := by
  cases verify with
  | false => rfl
  | true =>
    cases fSuccess with
    | true => rfl
    | false => rfl

theorem finish_true (failure : ScriptError) (result : Bytes) (machine : Machine) :
    (if castToBool result then .ok machine else (fail failure : Engine Machine)) =
      regular (finish true failure result machine) := by
  change _ = regular (ensure (castToBool result) failure >>= fun _ => .ok machine)
  cases castToBool result with
  | true => rfl
  | false => rfl

section Cases

variable (opcode : UInt8) (machine : Machine)

theorem altstackCase_regular :
    altstackCase opcode machine = regular (altstackOp opcode machine) := by
  obtain ⟨stack, altstack, vfExec, nOpCount, pbegincodehash⟩ := machine
  unfold altstackCase altstackOp
  rw [regular_ite]
  apply ite_congr rfl
  · intro _
    cases stack with
    | nil => rfl
    | cons vch rest => rfl
  · intro _
    cases altstack with
    | nil => rfl
    | cons vch rest => rfl

theorem closeCase_regular :
    closeCase opcode machine = regular (closeConditional opcode machine) := by
  obtain ⟨stack, altstack, vfExec, nOpCount, pbegincodehash⟩ := machine
  unfold closeCase closeConditional
  cases vfExec with
  | nil => rfl
  | cons fValue outer =>
    dsimp only
    by_cases isElse : opcode = opElse
    · rw [if_pos isElse, if_pos isElse]
      rfl
    · rw [if_neg isElse, if_neg isElse]
      rfl

theorem openCase_regular (fExec : Bool) :
    openCase opcode fExec machine = regular (openConditional opcode fExec machine) := by
  obtain ⟨stack, altstack, vfExec, nOpCount, pbegincodehash⟩ := machine
  cases fExec with
  | false => rfl
  | true =>
    cases stack with
    | nil => rfl
    | cons vch rest => rfl

theorem equalCase_regular : equalCase opcode machine = regular (equalOp opcode machine) := by
  obtain ⟨stack, altstack, vfExec, nOpCount, pbegincodehash⟩ := machine
  obtain _ | ⟨vch2, _ | ⟨vch1, rest⟩⟩ := stack
  · rfl
  · rfl
  · exact verifyResult_finish (opcode = opEqualVerify) (vch1 == vch2) .equalVerify
      ⟨vch2 :: vch1 :: rest, altstack, vfExec, nOpCount, pbegincodehash⟩ rest

theorem verifyCase_cons (vch : Bytes) (rest : List Bytes) :
    verifyCase { machine with stack := vch :: rest } =
      regular (finish true .verify vch { machine with stack := rest }) :=
  finish_true .verify vch { machine with stack := rest }

end Cases

section Numbers

variable (flags : UInt32) (checker : BaseSignatureChecker) (opcode : UInt8) (machine : Machine)

theorem lockTimeCase_regular :
    lockTimeCase flags checker machine = regular (checkLockTimeVerify flags checker machine) := by
  obtain ⟨stack, altstack, vfExec, nOpCount, pbegincodehash⟩ := machine
  unfold lockTimeCase checkLockTimeVerify
  rw [regular_ite]
  apply ite_congr rfl
  · intro _
    rw [regular_bind, regular_demand_error]
    rfl
  · intro _
    cases stack with
    | nil => rfl
    | cons top rest =>
      dsimp only
      rw [refuse_enough _ _ _ _ (by simp), stacktop_first, ok_bind, regular_bind]
      apply bind_congr
      intro nLockTime
      have negative : (!decide (0 ≤ nLockTime)) = decide (nLockTime < 0) := by
        rw [← decide_not, decide_eq_decide]
        exact Int.not_le
      rw [regular_bind, regular_ensure, negative]
      apply bind_congr
      intro _
      rw [regular_bind, regular_ensure]
      rfl

theorem unaryCase_regular (member : opcode ∈ unaryOpcodes) :
    unaryCase flags opcode machine = regular (unaryNumeric flags opcode machine) := by
  obtain ⟨stack, altstack, vfExec, nOpCount, pbegincodehash⟩ := machine
  cases stack with
  | nil => rfl
  | cons top rest =>
    unfold unaryCase unaryNumeric number
    dsimp only
    rw [refuse_enough _ _ _ _ (by simp), stacktop_first, ok_bind, regular_bind]
    cases read : scriptNum (fRequireMinimal flags) nDefaultMaxNumSize top with
    | error failure => rfl
    | ok bn =>
      have bound := scriptNum_bound (fRequireMinimal flags) top bn read
      rw [regular_ok, ok_bind, ok_bind, unarySwitch_ok opcode member bn bound]
      rfl

theorem binaryCase_regular (member : opcode ∈ binaryOpcodes) :
    binaryCase flags opcode machine = regular (binaryNumeric flags opcode machine) := by
  obtain ⟨stack, altstack, vfExec, nOpCount, pbegincodehash⟩ := machine
  obtain _ | ⟨top, _ | ⟨second, rest⟩⟩ := stack
  · rfl
  · rfl
  · unfold binaryCase binaryNumeric number
    dsimp only
    rw [refuse_enough _ _ _ _ (by simp), stacktop_second, stacktop_first, ok_bind, regular_bind]
    cases readSecond : scriptNum (fRequireMinimal flags) nDefaultMaxNumSize second with
    | error failure => rfl
    | ok bn1 =>
      rw [regular_ok, ok_bind, ok_bind, ok_bind, regular_bind]
      cases readTop : scriptNum (fRequireMinimal flags) nDefaultMaxNumSize top with
      | error failure => rfl
      | ok bn2 =>
        have first := scriptNum_bound (fRequireMinimal flags) second bn1 readSecond
        have other := scriptNum_bound (fRequireMinimal flags) top bn2 readTop
        rw [regular_ok, ok_bind, ok_bind, binarySwitch_ok opcode member bn1 bn2 first other]
        by_cases verify : opcode = opNumEqualVerify
        · rw [decide_eq_true verify]
          change (if opcode = opNumEqualVerify then _ else _) = _
          rw [if_pos verify]
          exact finish_true .numEqualVerify (serialize (binaryOp opcode bn1 bn2))
            ⟨rest, altstack, vfExec, nOpCount, pbegincodehash⟩
        · rw [decide_eq_false verify]
          change (if opcode = opNumEqualVerify then _ else _) = _
          rw [if_neg verify]
          rfl

theorem withinCase_regular :
    withinCase flags machine = regular (within flags machine) := by
  obtain ⟨stack, altstack, vfExec, nOpCount, pbegincodehash⟩ := machine
  obtain _ | ⟨top, _ | ⟨second, _ | ⟨third, rest⟩⟩⟩ := stack
  · rfl
  · rfl
  · rfl
  · unfold withinCase within number
    dsimp only
    rw [refuse_enough _ _ _ _ (by simp), stacktop_third, stacktop_second, stacktop_first, ok_bind,
      regular_bind]
    apply bind_congr
    intro bn1
    rw [ok_bind, regular_bind]
    apply bind_congr
    intro bn2
    rw [ok_bind, regular_bind]
    apply bind_congr
    intro bn3
    rfl

/-- A position that `OP_PICK` has read is in the stack, whatever its size is as an
`int`. -/
theorem pickAt_agrees (stack : List Bytes) (n : Int) :
    Agrees stack (pickAt opcode machine stack n)
      (ensure (decide (0 ≤ n) && decide (n < stack.length)) .invalidStackOperation >>= fun _ =>
        .ok { machine with
          stack := stack.getD n.toNat [] ::
            if opcode = opRoll then stack.eraseIdx n.toNat else stack }) := by
  have size := intSize_le stack
  by_cases refused : n < 0 ∨ intSize stack ≤ n
  · have fails : pickAt opcode machine stack n = fail .invalidStackOperation := by
      unfold pickAt
      rw [← Bool.decide_or, decide_eq_true refused]
      rfl
    by_cases small : stack.length < 2 ^ 31
    · left
      have same := intSize_eq stack small
      have outside : (decide (0 ≤ n) && decide (n < stack.length)) = false := by
        rw [← Bool.decide_and, decide_eq_false_iff_not]
        omega
      rw [fails, outside]
      rfl
    · right
      exact ⟨by omega, fails⟩
  · left
    have inside : (decide (0 ≤ n) && decide (n < stack.length)) = true := by
      rw [← Bool.decide_and, decide_eq_true_iff]
      omega
    have depth : n.toNat < stack.length := by omega
    have position : -n - 1 = -(n.toNat + 1 : Nat) := by omega
    have there : stack[n.toNat]? = some (stack.getD n.toNat []) := by
      rw [getD_eq_getElem?_getD, getElem?_eq_getElem depth]
      rfl
    unfold pickAt stacktop
    rw [← Bool.decide_or, decide_eq_false refused, refuseIf_false, ok_bind, position,
      back_of_getElem stack n.toNat _ there, ok_bind, inside, eraseBack_one stack n.toNat depth]
    by_cases isRoll : opcode = opRoll
    · rw [if_pos isRoll, if_pos isRoll]
      rfl
    · rw [if_neg isRoll, if_neg isRoll]
      rfl

theorem pickCase_agrees :
    Agrees machine.stack (pickCase flags opcode machine) (pickOrRoll flags opcode machine) := by
  obtain ⟨stack, altstack, vfExec, nOpCount, pbegincodehash⟩ := machine
  obtain _ | ⟨top, _ | ⟨second, below⟩⟩ := stack
  · exact AgreesOr.of_eq rfl
  · exact AgreesOr.of_eq rfl
  · unfold pickCase pickOrRoll
    dsimp only
    rw [refuse_enough _ _ _ _ (by simp), stacktop_first, ok_bind]
    apply AgreesOr.bind (AgreesOr.of_eq rfl)
    intro n _
    rcases pickAt_agrees opcode ⟨top :: second :: below, altstack, vfExec, nOpCount,
      pbegincodehash⟩ (second :: below) (getint n) with same | ⟨large, failed⟩
    · exact Or.inl same
    · right
      exact ⟨le_trans large (by simp), failed⟩

end Numbers

section Signatures

variable (crypto : Crypto) (flags : UInt32) (checker : BaseSignatureChecker) (opcode : UInt8)

theorem findAndDeleteLoop_ends (b : CScript) (nonempty : b ≠ []) (fuel : Nat) (pc : CScript)
    (enough : pc.length < fuel) :
    findAndDeleteLoop b fuel pc = .ok (findAndDeleteFrom b fuel pc) := by
  induction fuel generalizing pc with
  | zero => cases enough
  | succ fuel ih =>
    rw [findAndDeleteLoop, findAndDeleteFrom]
    by_cases stands : b.isPrefixOf pc = true
    · have size : 0 < b.length := length_pos_iff.mpr nonempty
      have shorter : (pc.drop b.length).length < fuel := by
        have inside := (List.isPrefixOf_iff_prefix.mp stands).length_le
        rw [length_drop]
        omega
      rw [if_pos stands, if_pos stands]
      exact ih _ shorter
    · rw [if_neg stands, if_neg stands]
      cases read : getOp pc with
      | none => rfl
      | some found =>
        obtain ⟨code, vch, rest⟩ := found
        have shorter := getOp_length pc code vch rest read
        dsimp only
        rw [ih rest (by omega)]
        rfl

theorem dropSignature_ok (scriptCode : CScript) (vchSig : Bytes) :
    dropSignature scriptCode vchSig = .ok (findAndDelete scriptCode (pushOf vchSig)) := by
  unfold dropSignature findAndDelete
  by_cases nothing : (pushOf vchSig).isEmpty = true
  · rw [if_pos nothing, if_pos nothing]
  · rw [if_neg nothing, if_neg nothing]
    exact findAndDeleteLoop_ends _ (by simpa using nothing) _ _ (Nat.lt_succ_self _)

theorem checkSigCase_regular (machine : Machine) :
    checkSigCase crypto flags checker opcode machine =
      regular (checkSigOp crypto flags checker opcode machine) := by
  obtain ⟨stack, altstack, vfExec, nOpCount, pbegincodehash⟩ := machine
  obtain _ | ⟨vchPubKey, _ | ⟨vchSig, rest⟩⟩ := stack
  · rfl
  · rfl
  · unfold checkSigCase checkSigOp checkEncodings
    dsimp only
    rw [refuse_enough _ _ _ _ (by simp), stacktop_second, stacktop_first, ok_bind, ok_bind,
      dropSignature_ok, ok_bind, bind_assoc, regular_bind]
    apply bind_congr
    intro _
    rw [regular_bind]
    apply bind_congr
    intro _
    exact verifyResult_finish _ _ .checkSigVerify
      ⟨vchPubKey :: vchSig :: rest, altstack, vfExec, nOpCount, pbegincodehash⟩ rest

theorem dropSignatures_foldl (stack : List Bytes) (depth k : Nat) (sigs : List Bytes)
    (scriptCode : CScript) (lie : sigs <+: stack.drop (depth + k)) :
    dropSignatures stack (depth + 1 : Nat) sigs.length k scriptCode =
      .ok (sigs.foldl (fun code vchSig => findAndDelete code (pushOf vchSig)) scriptCode) := by
  induction sigs generalizing k scriptCode with
  | nil => rfl
  | cons vchSig sigs ih =>
    have there := getElem_of_prefix_drop stack sigs vchSig (depth + k) lie
    have position : -((depth + 1 : Nat) : Int) - k = -(depth + k + 1 : Nat) := by omega
    rw [length_cons, dropSignatures, stacktop, position,
      back_of_getElem stack _ vchSig there, ok_bind, dropSignature_ok, ok_bind]
    exact ih (k + 1) _ (prefix_drop_succ stack sigs vchSig (depth + k) lie)

/-- The counters where the signatures and the keys that are left lie at their depths. -/
def matchingAt (isig ikey : Nat) (sigs keys : List Bytes) (fSuccess : Bool) : Matching where
  isig := (isig + 1 : Nat)
  ikey := (ikey + 1 : Nat)
  nSigsCount := sigs.length
  nKeysCount := keys.length
  fSuccess := fSuccess

variable (stack : List Bytes) (scriptCode : CScript)

theorem matchRound_eq (isig ikey : Nat)
    (vchSig vchPubKey : Bytes) (sigs keys : List Bytes)
    (sigsLie : vchSig :: sigs <+: stack.drop isig)
    (keysLie : vchPubKey :: keys <+: stack.drop ikey) :
    matchRound crypto flags checker stack scriptCode
        (matchingAt isig ikey (vchSig :: sigs) (vchPubKey :: keys) true) =
      checkEncodings crypto flags vchSig vchPubKey >>= fun _ => .ok
        (if checker.checkSig vchSig vchPubKey scriptCode then
          matchingAt (isig + 1) (ikey + 1) sigs keys (decide (sigs.length ≤ keys.length))
        else
          matchingAt isig (ikey + 1) (vchSig :: sigs) keys
            (decide (sigs.length + 1 ≤ keys.length))) := by
  have sigThere := getElem_of_prefix_drop stack sigs vchSig isig sigsLie
  have keyThere := getElem_of_prefix_drop stack keys vchPubKey ikey keysLie
  unfold matchRound stacktop
  change (back stack (-(isig + 1 : Nat)) >>= fun _ => _) = _
  rw [back_of_getElem stack isig vchSig sigThere, ok_bind]
  change (back stack (-(ikey + 1 : Nat)) >>= fun _ => _) = _
  rw [back_of_getElem stack ikey vchPubKey keyThere, ok_bind]
  apply bind_congr
  intro _
  apply congrArg Except.ok
  unfold matchingAt
  by_cases fOk : checker.checkSig vchSig vchPubKey scriptCode = true
  · simp only [if_pos fOk, length_cons, Matching.mk.injEq, Bool.true_and, decide_eq_decide]
    omega
  · simp only [if_neg fOk, length_cons, Matching.mk.injEq, Bool.true_and, decide_eq_decide,
      true_and]
    omega

theorem matchLoop_stops (fuel : Nat)
    (matching : Matching)
    (stops : (matching.fSuccess && decide (0 < matching.nSigsCount)) = false) :
    matchLoop crypto flags checker stack scriptCode fuel matching = .ok matching.fSuccess := by
  unfold matchLoop
  rw [whileLoop_done _ _ fuel matching stops]
  rfl

theorem matchLoop_goes_on (fuel : Nat)
    (matching : Matching)
    (goesOn : (matching.fSuccess && decide (0 < matching.nSigsCount)) = true) :
    matchLoop crypto flags checker stack scriptCode (fuel + 1) matching =
      matchRound crypto flags checker stack scriptCode matching >>=
        matchLoop crypto flags checker stack scriptCode fuel := by
  unfold matchLoop
  rw [whileLoop, if_pos goesOn, bind_assoc]

theorem matchLoop_matches (fuel : Nat)
    (sigs keys : List Bytes) (isig ikey : Nat) (sigsLie : sigs <+: stack.drop isig)
    (keysLie : keys <+: stack.drop ikey) (fewer : sigs.length ≤ keys.length)
    (enough : keys.length ≤ fuel) :
    matchLoop crypto flags checker stack scriptCode fuel (matchingAt isig ikey sigs keys true) =
      regular (matchSignatures crypto flags checker scriptCode sigs keys) := by
  induction fuel generalizing sigs keys isig ikey with
  | zero =>
    have noKeys : keys = [] := length_eq_zero_iff.mp (Nat.le_zero.mp enough)
    rw [noKeys, length_nil] at fewer
    rw [noKeys, length_eq_zero_iff.mp (Nat.le_zero.mp fewer)]
    exact matchLoop_stops crypto flags checker stack scriptCode 0 _ rfl
  | succ fuel ih =>
    obtain _ | ⟨vchSig, sigs⟩ := sigs
    · rw [matchSignatures]
      exact matchLoop_stops crypto flags checker stack scriptCode _
        (matchingAt isig ikey [] keys true) rfl
    · obtain _ | ⟨vchPubKey, keys⟩ := keys
      · cases fewer
      · rw [length_cons] at enough
        rw [length_cons, length_cons] at fewer
        have keysLeft := prefix_drop_succ stack keys vchPubKey ikey keysLie
        rw [matchLoop_goes_on crypto flags checker stack scriptCode fuel _ (by simp [matchingAt]),
          matchRound_eq crypto flags checker stack scriptCode isig ikey vchSig vchPubKey sigs keys
            sigsLie keysLie]
        rw [matchSignatures, regular_bind, checkEncodings, bind_assoc, bind_assoc]
        apply bind_congr
        intro _
        rw [regular_bind]
        apply bind_congr
        intro _
        rw [ok_bind, regular_ite]
        by_cases fOk : checker.checkSig vchSig vchPubKey scriptCode = true
        · simp only [if_pos fOk]
          have few : sigs.length ≤ keys.length := by omega
          rw [decide_eq_true few, if_neg (Nat.not_lt.mpr few)]
          exact ih sigs keys (isig + 1) (ikey + 1)
            (prefix_drop_succ stack sigs vchSig isig sigsLie) keysLeft few (by omega)
        · simp only [if_neg fOk, length_cons]
          by_cases few : sigs.length + 1 ≤ keys.length
          · rw [decide_eq_true few, if_neg (Nat.not_lt.mpr few)]
            exact ih (vchSig :: sigs) keys isig (ikey + 1) sigsLie keysLeft few (by omega)
          · rw [decide_eq_false few, if_pos (Nat.lt_of_not_le few)]
            exact matchLoop_stops crypto flags checker stack scriptCode fuel _ rfl

/-- A guard on the size as an `int`. Where it stops a stack that is long enough,
the size does not fit. -/
theorem guard_agrees {α : Type} (stack : List Bytes) (count : Nat)
    {engine : PUnit → Engine α} {plain : Except ScriptError α}
    (short : stack.length < count → plain = .error .invalidStackOperation)
    (enough : count ≤ stack.length → Agrees stack (engine ⟨⟩) plain) :
    Agrees stack
      (refuseIf (decide (intSize stack < count)) .invalidStackOperation >>= engine) plain := by
  have size := intSize_le stack
  by_cases stops : intSize stack < count
  · rw [decide_eq_true stops]
    by_cases long : count ≤ stack.length
    · right
      refine ⟨?_, rfl⟩
      by_contra small
      have same := intSize_eq stack (Nat.lt_of_not_le small)
      omega
    · left
      rw [short (Nat.lt_of_not_le long)]
      rfl
  · rw [decide_eq_false stops]
    exact enough (by omega)

variable (count upper : Int) (failure : ScriptError)

theorem refuse_outside :
    refuseIf (decide (count < 0) || decide (upper < count)) failure =
      regular (ensure (decide (0 ≤ count) && decide (count ≤ upper)) failure) := by
  have same : (decide (count < 0) || decide (upper < count)) =
      !(decide (0 ≤ count) && decide (count ≤ upper)) := by
    rw [Bool.eq_iff_iff]
    simp
  rw [regular_ensure, same]

theorem refuse_above :
    refuseIf (decide (upper < count)) failure =
      regular (ensure (decide (count ≤ upper)) failure) := by
  have same : decide (upper < count) = !decide (count ≤ upper) := by
    rw [Bool.eq_iff_iff]
    simp
  rw [regular_ensure, same]

theorem badDummy_cons (dummy : Bytes) (rest : List Bytes) :
    (badDummy flags (dummy :: rest) >>= fun refused => refuseIf refused .sigNullDummy) =
      regular (demand (hasFlag flags scriptVerifyNullDummy)
        (ensure dummy.isEmpty .sigNullDummy)) := by
  rw [regular_demand_ensure]
  unfold badDummy
  cases hasFlag flags scriptVerifyNullDummy with
  | true => rfl
  | false => rfl

section Counted

variable (machine : Machine) (top second : Bytes) (belowCount belowKeys : List Bytes)
  (keysCount sigsCount : Nat)

theorem drop_belowKeys (keysLie : belowCount.drop keysCount = second :: belowKeys) :
    (top :: belowCount).drop (keysCount + 2) = belowKeys := by
  rw [drop_succ_cons, ← drop_drop, keysLie]
  rfl

theorem length_belowKeys (keysLie : belowCount.drop keysCount = second :: belowKeys) :
    belowCount.length = keysCount + 1 + belowKeys.length := by
  have length := congrArg length keysLie
  rw [length_drop, length_cons] at length
  omega

theorem checkSigs_agrees (few : sigsCount ≤ keysCount) (plain : Except ScriptError Machine)
    (short : machine.stack.length < keysCount + 3 + sigsCount →
      plain = .error .invalidStackOperation)
    (enough : keysCount + 3 + sigsCount ≤ machine.stack.length →
      Agrees machine.stack
        (do
          let scriptCode ← dropSignatures machine.stack (keysCount + 2 + 1 : Nat) sigsCount 0
            machine.pbegincodehash
          let fSuccess ← matchLoop crypto flags checker machine.stack scriptCode keysCount
            { isig := (keysCount + 2 + 1 : Nat)
              ikey := (1 + 1 : Nat)
              nSigsCount := sigsCount
              nKeysCount := keysCount
              fSuccess := true }
          let stack ← popTimes (keysCount + 2 + sigsCount) machine.stack
          refuseIf (decide (stack.length < 1)) .invalidStackOperation
          let refused ← badDummy flags stack
          refuseIf refused .sigNullDummy
          let stack ← popstack stack
          verifyResult (opcode = opCheckMultiSigVerify) fSuccess .checkMultiSigVerify
            { machine with
              stack := vchBool fSuccess :: stack
              nOpCount := machine.nOpCount + keysCount }) plain) :
    Agrees machine.stack (checkSigs crypto flags checker opcode machine keysCount sigsCount)
      plain := by
  have counted : (decide (0 ≤ (sigsCount : Int)) && decide ((sigsCount : Int) ≤ keysCount)) =
      true := by
    rw [← Bool.decide_and, decide_eq_true_iff]
    omega
  have isig : (2 : Int) + keysCount + 1 = (keysCount + 2 + 1 : Nat) := by omega
  have i : ((keysCount + 2 + 1 : Nat) : Int) + sigsCount = (keysCount + 3 + sigsCount : Nat) := by
    omega
  have pops : (((keysCount + 3 + sigsCount : Nat) : Int) - 1).toNat =
      keysCount + 2 + sigsCount := by
    omega
  have passes : regular (ensure true ScriptError.sigCount) = .ok ⟨⟩ := rfl
  unfold checkSigs
  dsimp only
  rw [refuse_outside, counted, passes, ok_bind, isig, i, pops, Int.toNat_natCast,
    Int.toNat_natCast]
  exact guard_agrees machine.stack (keysCount + 3 + sigsCount) short enough

theorem checkSigs_short (few : sigsCount ≤ keysCount)
    (stack : machine.stack = top :: belowCount)
    (keysLie : belowCount.drop keysCount = second :: belowKeys)
    (none : belowKeys.drop sigsCount = []) :
    Agrees machine.stack (checkSigs crypto flags checker opcode machine keysCount sigsCount)
      (.error .invalidStackOperation) := by
  apply checkSigs_agrees crypto flags checker opcode machine keysCount sigsCount few
  · exact fun _ => rfl
  · intro enough
    have length := length_belowKeys second belowCount belowKeys keysCount keysLie
    have atMost := drop_eq_nil_iff.mp none
    rw [stack, length_cons] at enough
    omega

theorem checkSigs_enough (few : sigsCount ≤ keysCount)
    (stack : machine.stack = top :: belowCount)
    (keysLie : belowCount.drop keysCount = second :: belowKeys) (dummy : Bytes)
    (rest : List Bytes) (some : belowKeys.drop sigsCount = dummy :: rest) :
    Agrees machine.stack (checkSigs crypto flags checker opcode machine keysCount sigsCount)
      (matchSignatures crypto flags checker
          ((belowKeys.take sigsCount).foldl
            (fun code vchSig => findAndDelete code (pushOf vchSig)) machine.pbegincodehash)
          (belowKeys.take sigsCount) (belowCount.take keysCount) >>= fun fSuccess =>
        demand (hasFlag flags scriptVerifyNullDummy)
            (ensure dummy.isEmpty .sigNullDummy) >>= fun _ =>
          finish (opcode = opCheckMultiSigVerify) .checkMultiSigVerify (vchBool fSuccess)
            { machine with stack := rest, nOpCount := machine.nOpCount + keysCount }) := by
  have below := drop_belowKeys top second belowCount belowKeys keysCount keysLie
  have length := length_belowKeys second belowCount belowKeys keysCount keysLie
  have left := congrArg List.length some
  rw [length_drop, length_cons] at left
  have sigsLength : (belowKeys.take sigsCount).length = sigsCount := by
    rw [length_take]
    omega
  have keysLength : (belowCount.take keysCount).length = keysCount := by
    rw [length_take]
    omega
  have sigsLie : belowKeys.take sigsCount <+: (top :: belowCount).drop (keysCount + 2) := by
    rw [below]
    exact take_prefix _ _
  apply checkSigs_agrees crypto flags checker opcode machine keysCount sigsCount few
  · intro short
    rw [stack, length_cons] at short
    omega
  · intro _
    rw [stack]
    have dropped := dropSignatures_foldl (top :: belowCount) (keysCount + 2) 0
      (belowKeys.take sigsCount) machine.pbegincodehash sigsLie
    have matched := matchLoop_matches crypto flags checker (top :: belowCount)
      ((belowKeys.take sigsCount).foldl
        (fun code vchSig => findAndDelete code (pushOf vchSig)) machine.pbegincodehash)
      keysCount (belowKeys.take sigsCount) (belowCount.take keysCount) (keysCount + 2) 1 sigsLie
      (List.take_prefix _ _) (by omega) (by omega)
    unfold matchingAt at matched
    rw [sigsLength] at dropped matched
    rw [keysLength] at matched
    rw [dropped, ok_bind, matched]
    apply AgreesOr.bind (AgreesOr.of_eq rfl)
    intro fSuccess _
    left
    have popped : (top :: belowCount).drop (keysCount + 2 + sigsCount) = dummy :: rest := by
      rw [← drop_drop, below, some]
    rw [popTimes_drop _ _ (by rw [length_cons]; omega), popped, ok_bind,
      refuse_enough _ _ _ _ (by simp), ← bind_assoc, badDummy_cons, regular_bind]
    apply bind_congr
    intro _
    exact verifyResult_finish _ _ .checkMultiSigVerify
      { machine with nOpCount := machine.nOpCount + keysCount } rest

end Counted

theorem checkMultiSigCase_agrees (machine : Machine) :
    Agrees machine.stack (checkMultiSigCase crypto flags checker opcode machine)
      (checkMultiSigOp crypto flags checker opcode machine) := by
  obtain ⟨stack, altstack, vfExec, nOpCount, pbegincodehash⟩ := machine
  unfold checkMultiSigCase
  apply guard_agrees stack 1
  · intro short
    rw [length_eq_zero_iff.mp (Nat.lt_one_iff.mp short)]
    rfl
  · intro nonempty
    cases stack with
    | nil => cases nonempty
    | cons top belowCount =>
      unfold checkMultiSigOp
      dsimp only
      rw [stacktop_first, ok_bind]
      apply AgreesOr.bind (AgreesOr.of_eq rfl)
      intro keysNumber _
      unfold checkKeys
      rw [refuse_outside, refuse_above]
      apply AgreesOr.bind (AgreesOr.of_eq rfl)
      intro _ counts
      apply AgreesOr.bind (AgreesOr.of_eq rfl)
      intro _ _
      have bounds := (ensure_eq_ok _ _).mp counts
      rw [← Bool.decide_and, decide_eq_true_iff] at bounds
      obtain ⟨keysCount, isKeys⟩ := Int.eq_ofNat_of_zero_le bounds.1
      rw [isKeys, Int.toNat_natCast]
      have guarded : (2 : Int) + (keysCount : Int) = (2 + keysCount : Nat) := by omega
      rw [guarded]
      apply guard_agrees (top :: belowCount) (2 + keysCount)
      · intro short
        rw [length_cons] at short
        rw [drop_eq_nil_of_le (by omega)]
      · intro enough
        rw [length_cons] at enough
        rcases exists_cons_of_length_pos (l := belowCount.drop keysCount)
          (by rw [length_drop]; omega) with ⟨second, belowKeys, keysLie⟩
        rw [keysLie]
        dsimp only
        have position : -((2 + keysCount : Nat) : Int) = -((keysCount + 1) + 1 : Nat) := by omega
        have there : (top :: belowCount)[keysCount + 1]? = some second := by
          rw [getElem?_cons_succ]
          apply getElem_of_prefix_drop belowCount belowKeys
          rw [keysLie]
        rw [stacktop, position, back_of_getElem _ _ second there, ok_bind]
        apply AgreesOr.bind (AgreesOr.of_eq rfl)
        intro sigsNumber _
        by_cases counted : 0 ≤ getint sigsNumber ∧ getint sigsNumber ≤ keysCount
        · rw [← Bool.decide_and, decide_eq_true counted]
          obtain ⟨sigsCount, isSigs⟩ := Int.eq_ofNat_of_zero_le counted.1
          rw [isSigs] at counted ⊢
          have few : sigsCount ≤ keysCount := Int.ofNat_le.mp counted.2
          rw [Int.toNat_natCast]
          have passes : ensure true ScriptError.sigCount = .ok ⟨⟩ := rfl
          rw [passes]
          cases below : belowKeys.drop sigsCount with
          | nil =>
            exact checkSigs_short crypto flags checker opcode
              ⟨top :: belowCount, altstack, vfExec, nOpCount, pbegincodehash⟩ top second
              belowCount belowKeys keysCount sigsCount few rfl keysLie below
          | cons dummy rest =>
            exact checkSigs_enough crypto flags checker opcode
              ⟨top :: belowCount, altstack, vfExec, nOpCount, pbegincodehash⟩ top second
              belowCount belowKeys keysCount sigsCount few rfl keysLie dummy rest below
        · left
          unfold checkSigs
          rw [refuse_outside, ← Bool.decide_and, decide_eq_false counted]
          rfl

end Signatures

end ZenonCore.ScriptAccesses
