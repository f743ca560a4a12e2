import ZenonCore.AmountCompression
import ZenonCore.Library.SparseMasks
import ZenonCore.ScriptCompression

/-!
# Serialization of coins

An entry of the coin database: version, header, mask, the unspent outputs in compressed form,
height.
-/

namespace ZenonCore.CoinsSerialize

open AmountCompression Coins Formats Primitives List Option
open Script Serialize SparseMasks
open ScriptCompression (PubKeyFunctions nSpecialScripts roundTrips_of_short)

/-- `WriteVarInt` of an `int`: a negative number is not greater than `0x7f`. -/
def writeInt (n : Int) : Bytes :=
  if n ≤ 0x7f then [UInt8.ofNat (n % 128).toNat] else writeVarInt n.toNat

def readInt : Reader UInt8 Int := (fun n : Nat => Int.bmod n (2 ^ 32)) <$> varInt.read

theorem writeInt_nonneg (n : Int) (nonneg : 0 ≤ n) : writeInt n = writeVarInt n.toNat := by
  unfold writeInt
  split_ifs with short
  · unfold writeVarInt
    have digit : (n % 128).toNat = n.toNat % 128 := by omega
    rw [if_pos (by omega), nil_append, digit]
  · rfl

theorem readInt_write (n : Int) (nonneg : 0 ≤ n) (fits : n < 2 ^ 31) (rest : Bytes) :
    readInt.run (writeInt n ++ rest) = some (n, rest) := by
  unfold readInt
  rw [writeInt_nonneg n nonneg, StateT.run_map,
    show varInt.read.run (writeVarInt n.toNat ++ rest) = some (n.toNat, rest) from
      varInt.reads n.toNat (show n.toNat < 2 ^ 32 by omega) rest]
  show some (Int.bmod (n.toNat : Int) (2 ^ 32), rest) = some (n, rest)
  rw [Int.toNat_of_nonneg nonneg, Int.bmod_eq_of_le_mul_two (by omega) (by omega)]

def int : ByteFormat Int where
  write := writeInt
  read := readInt
  fits := fun n => 0 ≤ n ∧ n < 2 ^ 31
  reads := fun n fitting rest => readInt_write n fitting.1 fitting.2 rest

section Outputs

variable (keys : PubKeyFunctions)

def writeTxOut (txout : CTxOut) : Bytes :=
  (varIntOf 64).write (compressAmount (word txout.nValue)).toNat ++
    ScriptCompression.serialize keys txout.scriptPubKey

def readTxOut (before : CTxOut) : Reader UInt8 CTxOut := do
  let nVal ← (varIntOf 64).read
  let scriptPubKey ← ScriptCompression.unserialize keys before.scriptPubKey
  pure
    { nValue := Int.bmod (decompressAmount (UInt64.ofNat nVal)).toNat (2 ^ 64)
      scriptPubKey := scriptPubKey }

/-- The loops over the outputs pass over those that are spent. -/
def writeOutputs (vout : List CTxOut) : Bytes :=
  vout.flatMap fun txout => if txout.isNull then [] else writeTxOut keys txout

def readIfAvailable (available : Bool) : Reader UInt8 CTxOut :=
  if available then readTxOut keys CTxOut.null else pure CTxOut.null

def readOutputs : List Bool → Reader UInt8 (List CTxOut)
  | [] => pure []
  | available :: vAvail => do
      let txout ← readIfAvailable keys available
      let vout ← readOutputs vAvail
      pure (txout :: vout)

structure Compressible (txout : CTxOut) : Prop where
  nonneg : (0 : Int) ≤ txout.nValue
  ninefold : 9 * txout.nValue.toNat < 2 ^ 64
  script : txout.scriptPubKey.length + nSpecialScripts < 2 ^ 32

theorem readTxOut_write (inverts : keys.Inverts) (before txout : CTxOut)
    (compressible : Compressible txout) (rest : Bytes) :
    (readTxOut keys before).run (writeTxOut keys txout ++ rest) = some (txout, rest) := by
  have fits := compressible.ninefold
  have value := word_toNat txout.nValue compressible.nonneg (by omega)
  have exactly := exact_of_fits txout.nValue value fits
  have scripts := roundTrips_of_short keys inverts txout.scriptPubKey compressible.script
  have amount : Int.bmod (word txout.nValue).toNat (2 ^ 64) = txout.nValue := by
    rw [value]
    have nonneg := compressible.nonneg
    have whole : (txout.nValue.toNat : Int) = txout.nValue := Int.toNat_of_nonneg nonneg
    rw [Int.bmod_eq_of_le_mul_two (by omega) (by omega), whole]
  unfold readTxOut writeTxOut
  rw [append_assoc, (varIntOf 64).run_bind _ (UInt64.toNat_lt _), StateT.run_bind,
    scripts before.scriptPubKey rest]
  show some (CTxOut.mk (Int.bmod (decompressAmount (UInt64.ofNat
    (compressAmount (word txout.nValue)).toNat)).toNat (2 ^ 64)) txout.scriptPubKey, rest) = _
  rw [UInt64.ofNat_toNat, exactly.inverse, amount]

theorem readOutputs_replicate (count : Nat) (rest : Bytes) :
    (readOutputs keys (replicate count false)).run rest =
      some (replicate count CTxOut.null, rest) := by
  induction count with
  | zero => rfl
  | succ count ih =>
    rw [replicate_succ, readOutputs]
    show ((readOutputs keys (replicate count false) >>= fun vout =>
      pure (CTxOut.null :: vout)) : Reader UInt8 (List CTxOut)).run rest = _
    rw [StateT.run_bind, ih]
    rfl

theorem readOutputs_write (inverts : keys.Inverts) (vout : List CTxOut) (count : Nat)
    (nulls : ∀ txout ∈ vout, txout.isNull = true → txout = CTxOut.null)
    (others : ∀ txout ∈ vout, txout.isNull = false → Compressible txout) (rest : Bytes) :
    (readOutputs keys (vout.map (fun txout => !txout.isNull) ++ replicate count false)).run
        (writeOutputs keys vout ++ rest) =
      some (vout ++ replicate count CTxOut.null, rest) := by
  induction vout with
  | nil => exact readOutputs_replicate keys count rest
  | cons txout vout ih =>
    have later := ih (fun other member => nulls other (mem_cons_of_mem _ member))
      (fun other member => others other (mem_cons_of_mem _ member))
    unfold writeOutputs at later ⊢
    rw [map_cons, cons_append, flatMap_cons, readOutputs]
    cases spent : txout.isNull with
    | true =>
      rw [if_pos rfl, nil_append]
      show ((readOutputs keys _ >>= fun vout =>
        pure (CTxOut.null :: vout)) : Reader UInt8 (List CTxOut)).run _ = _
      rw [StateT.run_bind, later, nulls txout mem_cons_self spent]
      rfl
    | false =>
      rw [if_neg Bool.false_ne_true, append_assoc, StateT.run_bind,
        show readIfAvailable keys (!false) = readTxOut keys CTxOut.null from rfl,
        readTxOut_write keys inverts CTxOut.null txout (others txout mem_cons_self spent)]
      show ((readOutputs keys _ >>= fun vout =>
        pure (txout :: vout)) : Reader UInt8 (List CTxOut)).run _ = _
      rw [StateT.run_bind, later]
      rfl

end Outputs

def isUnspent (vout : List CTxOut) (i : Nat) : Bool :=
  match vout[i]? with
  | none => false
  | some txout => !txout.isNull

def maskBit (vout : List CTxOut) (position : Nat) : Bool := isUnspent vout (2 + position)

/-- `CalcMaskSize`: the bytes of the mask, and those that are not zero. -/
def calcMaskSize (vout : List CTxOut) : Nat × Nat :=
  maskSize (maskBit vout) ((vout.length - 2 + 7) / 8)

def fFirst (coins : CCoins) : Bool := isUnspent coins.vout 0

def fSecond (coins : CCoins) : Bool := isUnspent coins.vout 1

/-- The mask bytes the header counts: all that are not zero, less one without the first two outputs.
-/
def codedBytes (coins : CCoins) : Nat :=
  (calcMaskSize coins.vout).2 - if fFirst coins || fSecond coins then 0 else 1

def codedFlags (coins : CCoins) : Nat :=
  (if coins.fCoinBase then 1 else 0) + (if coins.fCoinStake then 2 else 0) +
    (if fFirst coins then 4 else 0) + if fSecond coins then 8 else 0

/-- The header code, an `unsigned int`, in the `packing` of one of the two
functions; none where the assertion fails. -/
def headerCode (packing : Nat) (coins : CCoins) : Option Nat :=
  if fFirst coins || fSecond coins || (calcMaskSize coins.vout).2 != 0 then
    some ((packing * codedBytes coins + codedFlags coins) % 2 ^ 32)
  else none

section Bits

theorem codedFlags_lt (coins : CCoins) : codedFlags coins < 16 := by
  unfold codedFlags
  split_ifs <;> omega

theorem testBit_code (coins : CCoins) (count : Nat) :
    (16 * count + codedFlags coins).testBit 0 = coins.fCoinBase ∧
      (16 * count + codedFlags coins).testBit 1 = coins.fCoinStake ∧
      (16 * count + codedFlags coins).testBit 2 = fFirst coins ∧
      (16 * count + codedFlags coins).testBit 3 = fSecond coins := by
  unfold codedFlags
  simp only [Nat.testBit_eq_decide_div_mod_eq]
  cases coins.fCoinBase <;> cases coins.fCoinStake <;> cases fFirst coins <;>
    cases fSecond coins <;> simp <;> omega

variable (vout : List CTxOut)

theorem isUnspent_of_lt (i : Nat) (inside : i < vout.length) :
    isUnspent vout i = !(vout[i]).isNull := by
  unfold isUnspent
  rw [getElem?_eq_getElem inside]

theorem isUnspent_of_ge (i : Nat) (outside : vout.length ≤ i) :
    isUnspent vout i = false := by
  unfold isUnspent
  rw [getElem?_eq_none outside]

theorem range_isUnspent (count : Nat) (enough : vout.length ≤ count) :
    (range count).map (isUnspent vout) =
      vout.map (fun txout => !txout.isNull) ++ replicate (count - vout.length) false := by
  apply ext_getElem
  · rw [length_map, length_range, length_append, length_map,
      length_replicate]
    omega
  · intro i left right
    rw [getElem_map, getElem_range]
    by_cases inside : i < vout.length
    · rw [isUnspent_of_lt vout i inside, getElem_append_left (by rwa [length_map]),
        getElem_map]
    · rw [isUnspent_of_ge vout i (Nat.le_of_not_lt inside),
        getElem_append_right (by rw [length_map]; omega), getElem_replicate]

theorem length_le_mask (txout : CTxOut) (last : vout.getLast? = some txout)
    (unspent : txout.isNull = false) : vout.length ≤ 2 + (calcMaskSize vout).1 * 8 := by
  by_cases short : vout.length ≤ 2
  · omega
  · have inside : vout.length - 1 < vout.length := by omega
    have bit : maskBit vout (vout.length - 3) = true := by
      have position : 2 + (vout.length - 3) = vout.length - 1 := by omega
      rw [getLast?_eq_getElem?, getElem?_eq_getElem inside] at last
      unfold maskBit
      rw [position, isUnspent_of_lt vout _ inside, some.inj last, unspent]
      rfl
    have less := lt_of_bit (maskBit vout) ((vout.length - 2 + 7) / 8) (vout.length - 3)
      (by omega) bit
    unfold calcMaskSize
    omega

theorem calcMaskSize_le :
    (calcMaskSize vout).2 ≤ (calcMaskSize vout).1 ∧
      (calcMaskSize vout).1 ≤ (vout.length - 2 + 7) / 8 :=
  ⟨maskSize_nonzero_le _ _, maskSize_le _ _⟩

theorem assertion_holds (coins : CCoins) (unpruned : coins.isPruned = false) :
    (fFirst coins || fSecond coins || (calcMaskSize coins.vout).2 != 0) = true := by
  have some_unspent : ∃ i, ∃ inside : i < coins.vout.length, coins.vout[i].isNull = false := by
    by_contra none
    have all : coins.isPruned = true := by
      apply all_eq_true.mpr
      intro txout member
      obtain ⟨i, inside, same⟩ := getElem_of_mem member
      by_contra unspent
      apply none
      exact ⟨i, inside, by rw [same]; simpa using unspent⟩
    rw [unpruned] at all
    cases all
  obtain ⟨i, inside, unspent⟩ := some_unspent
  have available : isUnspent coins.vout i = true := by
    rw [isUnspent_of_lt coins.vout i inside, unspent]
    rfl
  match i, available with
  | 0, available => simp [fFirst, available]
  | 1, available => simp [fSecond, available]
  | position + 2, available =>
    have bit : maskBit coins.vout position = true := by
      unfold maskBit
      rw [Nat.add_comm]
      exact available
    have less := lt_of_bit (maskBit coins.vout) ((coins.vout.length - 2 + 7) / 8) position
      (by omega) bit
    have count : 0 < (calcMaskSize coins.vout).2 := maskSize_nonzero_pos _ _ (by omega)
    simp [count.ne']

end Bits

section Entry

variable (keys : PubKeyFunctions)

def serialize (coins : CCoins) : Option Bytes :=
  (headerCode 16 coins).map fun nCode =>
    int.write coins.nVersion ++
      (varInt.write nCode ++
        (maskBytes (maskBit coins.vout) (calcMaskSize coins.vout).1 ++
          (writeOutputs keys coins.vout ++ int.write coins.nHeight)))

def readMaskBytes (nMaskCode : Nat) : Reader UInt8 (List Bool) := fun bytes =>
  readMask bytes nMaskCode

def unserialize : Reader UInt8 CCoins := do
  let nVersion ← int.read
  let nCode ← varInt.read
  let mask ← readMaskBytes (nCode / 16 + if nCode.testBit 2 || nCode.testBit 3 then 0 else 1)
  let vout ← readOutputs keys (nCode.testBit 2 :: nCode.testBit 3 :: mask)
  let nHeight ← int.read
  pure <| CCoins.cleanup
    { fCoinBase := nCode.testBit 0
      fCoinStake := nCode.testBit 1
      vout := vout
      nHeight := nHeight
      nVersion := nVersion }

def RoundTrips (coins : CCoins) : Prop :=
  ∃ bytes, serialize keys coins = some bytes ∧
    ∀ rest, (unserialize keys).run (bytes ++ rest) = some (coins, rest)

/-- What the encoding provides for: no negative numbers, a code that fits, scripts that can be
compressed. -/
structure Encodable (coins : CCoins) : Prop where
  version : int.fits coins.nVersion
  height : int.fits coins.nHeight
  size : coins.vout.length + 5 < 2 ^ 31
  spent : ∀ txout ∈ coins.vout, txout.isNull = true → txout = CTxOut.null
  unspent : ∀ txout ∈ coins.vout, txout.isNull = false → Compressible txout

/-- The last output is there and not null, as after a cleanup. -/
def LastUnspent (coins : CCoins) : Prop :=
  ∃ txout, coins.vout.getLast? = some txout ∧ txout.isNull = false

variable (coins : CCoins)

theorem unpruned_of_last (last : LastUnspent coins) : coins.isPruned = false := by
  obtain ⟨txout, last, unspent⟩ := last
  apply Bool.eq_false_iff.mpr
  intro pruned
  have spent := all_eq_true.mp pruned txout (mem_of_getLast? last)
  rw [unspent] at spent
  cases spent

theorem count_of_code (unpruned : coins.isPruned = false) :
    (codedBytes coins + if fFirst coins || fSecond coins then 0 else 1) =
      (calcMaskSize coins.vout).2 := by
  have assertion := assertion_holds coins unpruned
  unfold codedBytes
  by_cases front : (fFirst coins || fSecond coins) = true
  · rw [if_pos front]
    rfl
  · rw [Bool.not_eq_true] at front
    rw [front, Bool.false_or, bne_iff_ne] at assertion
    rw [front, if_neg Bool.false_ne_true]
    omega

theorem code_lt (size : coins.vout.length + 5 < 2 ^ 31) :
    16 * codedBytes coins + codedFlags coins < 2 ^ 32 := by
  have flags := codedFlags_lt coins
  obtain ⟨number, bytes⟩ := calcMaskSize_le coins.vout
  have less : codedBytes coins ≤ (calcMaskSize coins.vout).2 := Nat.sub_le _ _
  omega

/-- The outputs that are read are those of the entry, with null ones behind them
that the cleanup drops. -/
theorem cleanup_replicate (count : Nat)
    (last : LastUnspent coins) :
    CCoins.cleanup { coins with vout := coins.vout ++ replicate count CTxOut.null } = coins := by
  have dropped : (coins.vout ++ replicate count CTxOut.null).rdropWhile CTxOut.isNull =
      coins.vout := by
    induction count with
    | zero =>
      rw [replicate_zero, append_nil]
      apply rdropWhile_eq_self_iff.mpr
      intro nonempty
      obtain ⟨txout, last, unspent⟩ := last
      rw [getLast?_eq_getLast_of_ne_nil nonempty] at last
      rw [some.inj last, unspent]
      exact Bool.false_ne_true
    | succ count ih =>
      rw [replicate_succ', ← append_assoc, rdropWhile_concat_pos _ _ _ rfl, ih]
  unfold CCoins.cleanup
  rw [dropped]

/-- An encodable entry comes back, with the outputs that are spent, and exactly
its bytes are read. -/
theorem coins_round_trip (inverts : keys.Inverts) (coins : CCoins) (last : LastUnspent coins)
    (encodable : Encodable coins) : RoundTrips keys coins := by
  have unpruned := unpruned_of_last coins last
  have fits := code_lt coins encodable.size
  have reach : coins.vout.length ≤ 2 + (calcMaskSize coins.vout).1 * 8 := by
    obtain ⟨txout, last, unspent⟩ := last
    exact length_le_mask coins.vout txout last unspent
  have code : headerCode 16 coins = some (16 * codedBytes coins + codedFlags coins) := by
    unfold headerCode
    rw [if_pos (assertion_holds coins unpruned), Nat.mod_eq_of_lt fits]
  refine ⟨_, congrArg (Option.map _) code, ?_⟩
  intro rest
  obtain ⟨coinBase, coinStake, first, second⟩ := testBit_code coins (codedBytes coins)
  have flags := codedFlags_lt coins
  have quotient : (16 * codedBytes coins + codedFlags coins) / 16 = codedBytes coins := by omega
  have mask : ∀ bytes, (readMaskBytes (calcMaskSize coins.vout).2).run
      (maskBytes (maskBit coins.vout) (calcMaskSize coins.vout).1 ++ bytes) =
        some ((range ((calcMaskSize coins.vout).1 * 8)).map (maskBit coins.vout), bytes) :=
    readMask_maskBytes (maskBit coins.vout) ((coins.vout.length - 2 + 7) / 8)
  -- the bits of the header and those of the mask are the bits of all positions
  have bits : fFirst coins :: fSecond coins ::
      (range ((calcMaskSize coins.vout).1 * 8)).map (maskBit coins.vout) =
        (range (2 + (calcMaskSize coins.vout).1 * 8)).map (isUnspent coins.vout) := by
    rw [List.range_add, List.map_append, List.map_map]
    rfl
  have outputs := readOutputs_write keys inverts coins.vout
    (2 + (calcMaskSize coins.vout).1 * 8 - coins.vout.length) encodable.spent encodable.unspent
    (int.write coins.nHeight ++ rest)
  have cleaned := cleanup_replicate coins
    (2 + (calcMaskSize coins.vout).1 * 8 - coins.vout.length) last
  unfold unserialize
  rw [append_assoc, append_assoc, append_assoc, append_assoc,
    int.run_bind _ encodable.version, varInt.run_bind _ fits, coinBase, coinStake, first, second,
    quotient, count_of_code coins unpruned, StateT.run_bind, mask, bind_eq_bind,
    bind_some, bits, range_isUnspent coins.vout _ reach, StateT.run_bind, outputs,
    bind_eq_bind, bind_some, int.run_bind _ encodable.height]
  exact congrArg (fun result => some (result, rest)) cleaned

def thirdOutputLeft (nVersion : Int) : CCoins where
  fCoinBase := true
  fCoinStake := false
  vout := [CTxOut.null, CTxOut.null, { nValue := 5 * coin, scriptPubKey := [opReturn] }]
  nHeight := 1
  nVersion := nVersion

theorem third_output_comes_back :
    RoundTrips ScriptCompression.generatorKeys (thirdOutputLeft 1) := by
  apply coins_round_trip _ ScriptCompression.generatorKeys_inverts
  · exact ⟨_, rfl, by decide⟩
  · exact
      { version := by
          show (0 : Int) ≤ 1 ∧ (1 : Int) < 2 ^ 31
          decide
        height := by
          show (0 : Int) ≤ 1 ∧ (1 : Int) < 2 ^ 31
          decide
        size := by decide
        spent := by decide
        unspent := by
          intro txout member unspent
          have third : txout = { nValue := 5 * coin, scriptPubKey := [opReturn] } := by
            revert txout
            decide
          rw [third]
          exact ⟨by decide, by decide, by decide⟩ }

/-- A version of -1 comes back as 127. -/
theorem negative_version_is_lost :
    ScriptCompression.generatorKeys.Inverts ∧ LastUnspent (thirdOutputLeft (-1)) ∧
      ¬ RoundTrips ScriptCompression.generatorKeys (thirdOutputLeft (-1)) := by
  refine ⟨ScriptCompression.generatorKeys_inverts, ⟨_, rfl, by decide⟩, ?_⟩
  intro roundTrips
  obtain ⟨bytes, written, read⟩ := roundTrips
  have lost : ((serialize ScriptCompression.generatorKeys (thirdOutputLeft (-1))).bind fun bytes =>
      ((unserialize ScriptCompression.generatorKeys).run bytes).map fun result => result.1.nVersion) =
        some 127 := by
    decide +kernel
  have back := read []
  rw [append_nil] at back
  rw [written, bind_some, back] at lost
  cases lost

end Entry

end ZenonCore.CoinsSerialize
