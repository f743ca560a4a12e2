import Mathlib.Data.List.GetD
import ZenonCore.Serialize

/-!
# Compression of scripts

`CScriptCompressor`. `nSpecialScripts` is added to a size in 32 bits; the curve functions of
`CPubKey` are parameters.
-/

namespace ZenonCore.ScriptCompression

open Formats Script Serialize List

/-- `IsFullyValid` of a key of 65 bytes, and `Decompress` of one of 33. -/
structure PubKeyFunctions where
  isFullyValid : Bytes → Bool
  decompress : Bytes → Option Bytes

/-- Decompression inverts taking the x coordinate and the parity of a fully valid
key. -/
def PubKeyFunctions.Inverts (keys : PubKeyFunctions) : Prop :=
  ∀ x y : Bytes, x.length = 32 → y.length = 32 →
    keys.isFullyValid (0x04 :: (x ++ y)) = true →
    keys.decompress ((0x02 + (y.getD 31 0 &&& 0x01)) :: x) = some (0x04 :: (x ++ y))

def nSpecialScripts : Nat := 6

def slice (script : CScript) (start count : Nat) : Bytes := (script.drop start).take count

section Compress

variable (keys : PubKeyFunctions) (script : CScript)

def isToKeyID : Option Bytes :=
  if script.length = 25 ∧ script.getD 0 0 = opDup ∧ script.getD 1 0 = opHash160 ∧
      script.getD 2 0 = 20 ∧ script.getD 23 0 = opEqualVerify ∧ script.getD 24 0 = opCheckSig then
    some (slice script 3 20)
  else none

def isToScriptID : Option Bytes :=
  if script.length = 23 ∧ script.getD 0 0 = opHash160 ∧ script.getD 1 0 = 20 ∧
      script.getD 22 0 = opEqual then
    some (slice script 2 20)
  else none

def isToPubKey : Option Bytes :=
  if script.length = 35 ∧ script.getD 0 0 = 33 ∧ script.getD 34 0 = opCheckSig ∧
      (script.getD 1 0 = 0x02 ∨ script.getD 1 0 = 0x03) then
    some (slice script 1 33)
  else if script.length = 67 ∧ script.getD 0 0 = 65 ∧ script.getD 66 0 = opCheckSig ∧
      script.getD 1 0 = 0x04 then
    if keys.isFullyValid (slice script 1 65) then some (slice script 1 65) else none
  else none

def compress : Option Bytes :=
  match isToKeyID script with
  | some keyID => some (0x00 :: keyID)
  | none =>
    match isToScriptID script with
    | some scriptID => some (0x01 :: scriptID)
    | none =>
      match isToPubKey keys script with
      | none => none
      | some pubkey =>
        if pubkey.getD 0 0 = 0x02 ∨ pubkey.getD 0 0 = 0x03 then
          some (pubkey.getD 0 0 :: slice pubkey 1 32)
        else if pubkey.getD 0 0 = 0x04 then
          some ((0x04 ||| (pubkey.getD 64 0 &&& 0x01)) :: slice pubkey 1 32)
        else none

end Compress

def getSpecialSize (nSize : Nat) : Nat :=
  if nSize = 0 ∨ nSize = 1 then 20
  else if nSize = 2 ∨ nSize = 3 ∨ nSize = 4 ∨ nSize = 5 then 32
  else 0

/-- `Decompress` behind a tag. A key that cannot be decompressed leaves the script as it is. -/
def decompress (keys : PubKeyFunctions) (before : CScript) (nSize : Nat) (bytes : Bytes) :
    Option CScript :=
  if nSize = 0 then
    some ([opDup, opHash160, 20] ++ (bytes ++ [opEqualVerify, opCheckSig]))
  else if nSize = 1 then some ([opHash160, 20] ++ (bytes ++ [opEqual]))
  else if nSize = 2 ∨ nSize = 3 then
    some ([33, UInt8.ofNat nSize] ++ (bytes ++ [opCheckSig]))
  else if nSize = 4 ∨ nSize = 5 then
    match keys.decompress (UInt8.ofNat (nSize - 2) :: bytes) with
    | none => some before
    | some pubkey =>
      if pubkey.length = 65 then some ([65] ++ (pubkey ++ [opCheckSig])) else none
  else some before

section Stream

variable (keys : PubKeyFunctions)

/-- The size field of a script that is not special, an `unsigned int`. -/
def sizeField (script : CScript) : Nat := (script.length + nSpecialScripts) % 2 ^ 32

def serialize (script : CScript) : Bytes :=
  match compress keys script with
  | some compr => compr
  | none => varInt.write (sizeField script) ++ script

def unserialize (before : CScript) : Reader UInt8 CScript := do
  let nSize ← varInt.read
  if nSize < nSpecialScripts then do
    let bytes ← Format.takeBlock (getSpecialSize nSize)
    match decompress keys before nSize bytes with
    | none => failure
    | some script => pure script
  else Format.takeBlock (nSize - nSpecialScripts)

end Stream

section Shapes

theorem drop_getD (script : CScript) (index : Nat) (inside : index < script.length) :
    script.drop index = script.getD index 0 :: script.drop (index + 1) := by
  rw [drop_eq_getElem_cons inside, getD_eq_getElem _ _ inside]

variable (script : CScript) (start count : Nat)

theorem drop_slice :
    script.drop start = slice script start count ++ script.drop (start + count) := by
  unfold slice
  rw [← drop_drop, take_append_drop]

theorem slice_length (inside : start + count ≤ script.length) : (slice script start count).length = count := by
  unfold slice
  rw [length_take, length_drop]
  omega

theorem isToKeyID_shape (script keyID : Bytes) (found : isToKeyID script = some keyID) :
    keyID.length = 20 ∧
      script = [opDup, opHash160, 20] ++ (keyID ++ [opEqualVerify, opCheckSig]) := by
  unfold isToKeyID at found
  split_ifs at found with shape
  cases found
  obtain ⟨length, dup, hash, size, verify, check⟩ := shape
  refine ⟨slice_length script 3 20 (by omega), ?_⟩
  have whole : script = script.drop 0 := rfl
  rw [drop_getD script 0 (by omega), drop_getD script 1 (by omega), drop_getD script 2 (by omega),
    drop_slice script 3 20, drop_getD script 23 (by omega), drop_getD script 24 (by omega),
    drop_eq_nil_of_le (by omega), dup, hash, size, verify, check] at whole
  exact whole

theorem isToScriptID_shape (script scriptID : Bytes) (found : isToScriptID script = some scriptID) :
    scriptID.length = 20 ∧ script = [opHash160, 20] ++ (scriptID ++ [opEqual]) := by
  unfold isToScriptID at found
  split_ifs at found with shape
  cases found
  obtain ⟨length, hash, size, equal⟩ := shape
  refine ⟨slice_length script 2 20 (by omega), ?_⟩
  have whole : script = script.drop 0 := rfl
  rw [drop_getD script 0 (by omega), drop_getD script 1 (by omega), drop_slice script 2 20,
    drop_getD script 22 (by omega), drop_eq_nil_of_le (by omega), hash, size, equal] at whole
  exact whole

theorem isToPubKey_shape (keys : PubKeyFunctions) (script pubkey : Bytes)
    (found : isToPubKey keys script = some pubkey) :
    (∃ header x, (header = 0x02 ∨ header = 0x03) ∧ x.length = 32 ∧ pubkey = header :: x ∧
        script = [33, header] ++ (x ++ [opCheckSig])) ∨
      ∃ x y, x.length = 32 ∧ y.length = 32 ∧ pubkey = 0x04 :: (x ++ y) ∧
        keys.isFullyValid pubkey = true ∧ script = [65] ++ (pubkey ++ [opCheckSig]) := by
  unfold isToPubKey at found
  split_ifs at found with short long valid
  · cases found
    obtain ⟨length, size, check, header⟩ := short
    left
    have key : slice script 1 33 = script.getD 1 0 :: slice script 2 32 := by
      unfold slice
      rw [drop_getD script 1 (by omega)]
      rfl
    refine ⟨script.getD 1 0, slice script 2 32, header, slice_length script 2 32 (by omega), key, ?_⟩
    have whole : script = script.drop 0 := rfl
    rw [drop_getD script 0 (by omega), drop_getD script 1 (by omega), drop_slice script 2 32,
      drop_getD script 34 (by omega), drop_eq_nil_of_le (by omega), size, check] at whole
    exact whole
  · cases found
    obtain ⟨length, size, check, header⟩ := long
    right
    have key : slice script 1 65 = 0x04 :: (slice script 2 32 ++ slice script 34 32) := by
      show (script.drop 1).take 65 = _
      rw [drop_getD script 1 (by omega), header, take_succ_cons, drop_slice script 2 32,
        take_append, take_of_length_le (by rw [slice_length script 2 32 (by omega)]; omega),
        slice_length script 2 32 (by omega)]
      rfl
    refine ⟨slice script 2 32, slice script 34 32, slice_length script 2 32 (by omega),
      slice_length script 34 32 (by omega), key, valid, ?_⟩
    have whole : script = script.drop 0 := rfl
    rw [drop_getD script 0 (by omega), drop_slice script 1 65, drop_getD script 66 (by omega),
      drop_eq_nil_of_le (by omega), size, check] at whole
    exact whole

theorem parity_cases (last : UInt8) : last &&& 0x01 = 0 ∨ last &&& 0x01 = 1 := by
  have bit : (last &&& 0x01).toNat = last.toNat % 2 := by
    rw [UInt8.toNat_and]
    exact Nat.and_two_pow_sub_one_eq_mod last.toNat 1
  obtain zero | one := Nat.mod_two_eq_zero_or_one last.toNat
  · left
    exact UInt8.toNat_inj.mp (bit.trans zero)
  · right
    exact UInt8.toNat_inj.mp (bit.trans one)

/-- What a special form stands for: a tag, its number of bytes, and the script they decompress to.
-/
structure IsSpecial (keys : PubKeyFunctions) (script compr : Bytes) : Prop where
  form : ∃ tag bytes, compr = UInt8.ofNat tag :: bytes ∧ tag < nSpecialScripts ∧
    bytes.length = getSpecialSize tag ∧ ∀ before, decompress keys before tag bytes = some script

theorem compress_special (keys : PubKeyFunctions) (inverts : keys.Inverts) (script compr : Bytes)
    (compressed : compress keys script = some compr) : IsSpecial keys script compr := by
  unfold compress at compressed
  cases byKey : isToKeyID script with
  | some keyID =>
    rw [byKey] at compressed
    cases compressed
    obtain ⟨length, shape⟩ := isToKeyID_shape script keyID byKey
    exact ⟨0, keyID, rfl, by decide, length, fun _ => congrArg some shape.symm⟩
  | none =>
    rw [byKey] at compressed
    cases byScript : isToScriptID script with
    | some scriptID =>
      rw [byScript] at compressed
      cases compressed
      obtain ⟨length, shape⟩ := isToScriptID_shape script scriptID byScript
      exact ⟨1, scriptID, rfl, by decide, length, fun _ => congrArg some shape.symm⟩
    | none =>
      rw [byScript] at compressed
      cases byPubKey : isToPubKey keys script with
      | none =>
        rw [byPubKey] at compressed
        cases compressed
      | some pubkey =>
        rw [byPubKey] at compressed
        dsimp only at compressed
        rcases isToPubKey_shape keys script pubkey byPubKey with
          ⟨header, x, even | odd, length, key, shape⟩ | ⟨x, y, xLength, yLength, key, valid, shape⟩
        · rw [key, even] at compressed
          cases compressed
          refine ⟨2, slice (0x02 :: x) 1 32, rfl, by decide, ?_, ?_⟩
          · exact slice_length _ 1 32 (by rw [length_cons, length])
          · intro before
            have all : slice ((0x02 : UInt8) :: x) 1 32 = x :=
              take_of_length_le length.le
            rw [all, shape, even]
            rfl
        · rw [key, odd] at compressed
          cases compressed
          refine ⟨3, slice (0x03 :: x) 1 32, rfl, by decide, ?_, ?_⟩
          · exact slice_length _ 1 32 (by rw [length_cons, length])
          · intro before
            have all : slice ((0x03 : UInt8) :: x) 1 32 = x :=
              take_of_length_le length.le
            rw [all, shape, odd]
            rfl
        · have parity : (0x04 :: (x ++ y) : Bytes).getD 64 0 = y.getD 31 0 := by
            rw [getD_cons_succ, getD_append_right _ _ _ _ (by omega), xLength]
          have taken : slice (0x04 :: (x ++ y)) 1 32 = x := by
            show (x ++ y).take 32 = x
            rw [← xLength, take_left]
          have inverse := inverts x y xLength yLength (by rw [← key]; exact valid)
          rw [key, parity, taken] at compressed
          obtain zero | one := parity_cases (y.getD 31 0)
          · rw [zero] at compressed inverse
            cases compressed
            refine ⟨4, x, rfl, by decide, xLength, ?_⟩
            intro before
            unfold decompress
            rw [if_neg (by decide), if_neg (by decide), if_neg (by decide), if_pos (by decide)]
            rw [show (UInt8.ofNat (4 - 2) :: x) = (0x02 + 0) :: x from rfl, inverse]
            dsimp only
            rw [if_pos (by simp [xLength, yLength]), shape, key]
          · rw [one] at compressed inverse
            cases compressed
            refine ⟨5, x, rfl, by decide, xLength, ?_⟩
            intro before
            unfold decompress
            rw [if_neg (by decide), if_neg (by decide), if_neg (by decide), if_pos (by decide)]
            rw [show (UInt8.ofNat (5 - 2) :: x) = (0x02 + 1) :: x from rfl, inverse]
            dsimp only
            rw [if_pos (by simp [xLength, yLength]), shape, key]

end Shapes

section RoundTrip

variable (keys : PubKeyFunctions)

theorem takeBlock_run (bytes rest : Bytes) :
    (Format.takeBlock bytes.length).run (bytes ++ rest) = some (bytes, rest) := by
  show (if (bytes ++ rest).length < bytes.length then none
    else some ((bytes ++ rest).take bytes.length, (bytes ++ rest).drop bytes.length)) = _
  rw [if_neg (by rw [length_append]; omega), take_left, drop_left]

theorem readVarInt_tag (tag : Nat) (small : tag < nSpecialScripts) (rest : Bytes) :
    varInt.read.run (UInt8.ofNat tag :: rest) = some (tag, rest) := by
  unfold nSpecialScripts at small
  have read := readVarInt_last 32 0 tag (by omega) rest (by omega)
  rw [Nat.zero_mul, Nat.zero_add] at read
  exact read

theorem unserialize_special (inverts : keys.Inverts) (script compr before rest : Bytes)
    (compressed : compress keys script = some compr) :
    (unserialize keys before).run (compr ++ rest) = some (script, rest) := by
  rcases (compress_special keys inverts script compr compressed).form with
    ⟨tag, bytes, shape, small, length, decompressed⟩
  unfold unserialize
  rw [shape, cons_append, StateT.run_bind, readVarInt_tag tag small]
  show (if tag < nSpecialScripts then _ else _ : Reader UInt8 CScript).run (bytes ++ rest) = _
  rw [if_pos small, StateT.run_bind, ← length, takeBlock_run]
  show (match decompress keys before tag bytes with
    | none => failure
    | some script => pure script : Reader UInt8 CScript).run rest = _
  rw [decompressed]
  rfl

theorem special_short (script compr : Bytes) (compressed : compress keys script = some compr) :
    script.length ≤ 67 := by
  unfold compress at compressed
  cases byKey : isToKeyID script with
  | some keyID =>
    obtain ⟨length, shape⟩ := isToKeyID_shape script keyID byKey
    rw [shape]
    simp [length]
  | none =>
    cases byScript : isToScriptID script with
    | some scriptID =>
      obtain ⟨length, shape⟩ := isToScriptID_shape script scriptID byScript
      rw [shape]
      simp [length]
    | none =>
      rw [byKey, byScript] at compressed
      cases byPubKey : isToPubKey keys script with
      | none =>
        rw [byPubKey] at compressed
        cases compressed
      | some pubkey =>
        rcases isToPubKey_shape keys script pubkey byPubKey with
          ⟨header, x, _, length, _, shape⟩ | ⟨x, y, xLength, yLength, key, _, shape⟩
        · rw [shape]
          simp [length]
        · rw [shape, key]
          simp [xLength, yLength]

theorem unserialize_length (script rest bytes : Bytes) (nSize : Nat) (fits : nSize < 2 ^ 32)
    (read : (unserialize keys []).run (varInt.write nSize ++ bytes) = some (script, rest)) :
    script.length ≤ max 67 (nSize - nSpecialScripts) := by
  unfold unserialize at read
  rw [varInt.run_bind nSize fits] at read
  by_cases special : nSize < nSpecialScripts
  · rw [if_pos special, StateT.run_bind] at read
    apply le_max_of_le_left
    cases taken : (Format.takeBlock (getSpecialSize nSize)).run bytes with
    | none =>
      rw [taken] at read
      cases read
    | some result =>
      rw [taken] at read
      have length : result.1.length ≤ 32 := by
        change (if bytes.length < getSpecialSize nSize then none
          else some (bytes.take (getSpecialSize nSize), bytes.drop (getSpecialSize nSize))) = _
          at taken
        split_ifs at taken
        cases taken
        unfold getSpecialSize
        rw [length_take]
        split_ifs <;> omega
      change (match decompress keys [] nSize result.1 with
        | none => failure
        | some script => pure script : Reader UInt8 CScript).run result.2 = _ at read
      cases decompressed : decompress keys [] nSize result.1 with
      | none =>
        rw [decompressed] at read
        cases read
      | some found =>
        rw [decompressed] at read
        cases read
        unfold decompress at decompressed
        split_ifs at decompressed with zero one two four
        · cases decompressed
          simp
          omega
        · cases decompressed
          simp
          omega
        · cases decompressed
          simp
          omega
        · cases key : keys.decompress (UInt8.ofNat (nSize - 2) :: result.1) with
          | none =>
            rw [key] at decompressed
            cases decompressed
            exact Nat.zero_le _
          | some pubkey =>
            rw [key] at decompressed
            dsimp only at decompressed
            split_ifs at decompressed with size
            cases decompressed
            simp [size]
        · cases decompressed
          exact Nat.zero_le _
  · rw [if_neg special] at read
    apply le_max_of_le_right
    change (if bytes.length < nSize - nSpecialScripts then none
      else some (bytes.take (nSize - nSpecialScripts), bytes.drop (nSize - nSpecialScripts))) = _
      at read
    split_ifs at read
    cases read
    exact length_take_le _ _

/-- What was serialized is read back, into any script and before any bytes. -/
def RoundTrips (script : CScript) : Prop :=
  ∀ before rest, (unserialize keys before).run (serialize keys script ++ rest) = some (script, rest)

theorem size_of_roundTrips (script : CScript) (roundTrips : RoundTrips keys script) :
    script.length + nSpecialScripts < 2 ^ 32 := by
  cases compressed : compress keys script with
  | some compr =>
    have short := special_short keys script compr compressed
    unfold nSpecialScripts
    omega
  | none =>
    by_contra long
    have field : sizeField script < 2 ^ 32 := Nat.mod_lt _ (by decide)
    have read := roundTrips [] []
    unfold serialize at read
    rw [compressed, append_nil] at read
    have length := unserialize_length keys script [] script (sizeField script) field read
    unfold nSpecialScripts at length long
    omega

theorem roundTrips_of_short (inverts : keys.Inverts) (script : CScript)
    (short : script.length + nSpecialScripts < 2 ^ 32) : RoundTrips keys script := by
  intro before rest
  cases compressed : compress keys script with
  | some compr =>
    unfold serialize
    rw [compressed]
    exact unserialize_special keys inverts script compr before rest compressed
  | none =>
    have field : sizeField script < 2 ^ 32 := Nat.mod_lt _ (by decide)
    have exactly : sizeField script = script.length + nSpecialScripts := Nat.mod_eq_of_lt short
    unfold serialize unserialize
    rw [compressed]
    dsimp only
    rw [append_assoc, varInt.run_bind _ field, exactly,
      if_neg (by unfold nSpecialScripts; omega), Nat.add_sub_cancel]
    exact takeBlock_run script rest

/-- A script comes back if and only if its size and the tags fit in 32 bits. -/
theorem script_round_trips_iff (inverts : keys.Inverts) (script : CScript) :
    RoundTrips keys script ↔ script.length + nSpecialScripts < 2 ^ 32 := by
  constructor
  · exact size_of_roundTrips keys script
  · exact roundTrips_of_short keys inverts script

def generatorX : Bytes :=
  [0x79, 0xbe, 0x66, 0x7e, 0xf9, 0xdc, 0xbb, 0xac, 0x55, 0xa0, 0x62, 0x95, 0xce, 0x87, 0x0b, 0x07,
    0x02, 0x9b, 0xfc, 0xdb, 0x2d, 0xce, 0x28, 0xd9, 0x59, 0xf2, 0x81, 0x5b, 0x16, 0xf8, 0x17, 0x98]

def generatorY : Bytes :=
  [0x48, 0x3a, 0xda, 0x77, 0x26, 0xa3, 0xc4, 0x65, 0x5d, 0xa4, 0xfb, 0xfc, 0x0e, 0x11, 0x08, 0xa8,
    0xfd, 0x17, 0xb4, 0x48, 0xa6, 0x85, 0x54, 0x19, 0x9c, 0x47, 0xd0, 0x8f, 0xfb, 0x10, 0xd4, 0xb8]

/-- The functions of `CPubKey`, as far as they know the generator only. -/
def generatorKeys : PubKeyFunctions where
  isFullyValid := fun key => key == 0x04 :: (generatorX ++ generatorY)
  decompress := fun key =>
    if key = 0x02 :: generatorX then some (0x04 :: (generatorX ++ generatorY)) else none

theorem generatorKeys_inverts : generatorKeys.Inverts := by
  intro x y xLength yLength valid
  have same : (0x04 :: (x ++ y) : Bytes) = 0x04 :: (generatorX ++ generatorY) := beq_iff_eq.mp valid
  have parts := append_inj (cons_inj_right _ |>.mp same) xLength
  rw [parts.1, parts.2]
  decide +kernel

/-- A payment to the uncompressed key of the generator comes back. -/
theorem payment_to_generator_round_trips :
    RoundTrips generatorKeys ([65] ++ ((0x04 :: (generatorX ++ generatorY)) ++ [opCheckSig])) :=
  (script_round_trips_iff generatorKeys generatorKeys_inverts _).mpr (by decide +kernel)

/-- A script of 2³² - 6 bytes is written behind a size field of zero. -/
theorem huge_script_is_lost :
    ¬ ∀ (keys : PubKeyFunctions) (script : CScript), keys.Inverts → script.length < 2 ^ 64 →
      RoundTrips keys script := by
  intro always
  have length : (replicate (2 ^ 32 - 6) (0 : UInt8)).length = 2 ^ 32 - 6 :=
    length_replicate
  have roundTrips := always generatorKeys (replicate (2 ^ 32 - 6) 0) generatorKeys_inverts
    (by rw [length]; decide)
  have short := size_of_roundTrips generatorKeys _ roundTrips
  rw [length] at short
  exact absurd short (by decide)

end RoundTrip

end ZenonCore.ScriptCompression
