import ZenonCore.Standard
import ZenonCore.Zerocoin

/-!
# Bloom filters

`CBloomFilter` with the hash it uses and the matching of whole transactions.
-/

namespace ZenonCore.Bloom

open Script Primitives Standard Zerocoin

def rotl32 (x : UInt32) (r : UInt32) : UInt32 := (x <<< r) ||| (x >>> (32 - r))

def murmurMix (k1 : UInt32) : UInt32 := rotl32 (k1 * 0xcc9e2d51) 15 * 0x1b873593

/-- The body of `MurmurHash3` over the whole blocks; what is left is the tail. -/
def murmurBody : UInt32 → Bytes → UInt32 × Bytes
  | h1, a :: b :: c :: d :: rest =>
    let k1 := UInt32.ofNat (readLE [a, b, c, d])
    murmurBody (rotl32 (h1 ^^^ murmurMix k1) 13 * 5 + 0xe6546b64) rest
  | h1, tail => (h1, tail)

def murmurHash3 (nHashSeed : UInt32) (vDataToHash : Bytes) : UInt32 :=
  let (h1, tail) := murmurBody nHashSeed vDataToHash
  let h1 := if tail = [] then h1 else h1 ^^^ murmurMix (UInt32.ofNat (readLE tail))
  let h1 := h1 ^^^ UInt32.ofNat vDataToHash.length
  let h1 := (h1 ^^^ (h1 >>> 16)) * 0x85ebca6b
  let h1 := (h1 ^^^ (h1 >>> 13)) * 0xc2b2ae35
  h1 ^^^ (h1 >>> 16)

structure CBloomFilter where
  vData : Bytes
  isFull : Bool
  isEmpty : Bool
  nHashFuncs : Nat
  nTweak : UInt32
  nFlags : UInt8
deriving DecidableEq, Repr

/-- `BLOOM_UPDATE_ALL`, `BLOOM_UPDATE_P2PUBKEY_ONLY` and their mask. -/
def bloomUpdateAll : UInt8 := 1

def bloomUpdateP2PubKeyOnly : UInt8 := 2

def bloomUpdateMask : UInt8 := 3

/-- `count` little-endian bytes of a number, as its memory holds them. -/
def writeLE : Nat → Nat → Bytes
  | 0, _ => []
  | count + 1, value => UInt8.ofNat (value % 256) :: writeLE count (value / 256)

def serializeOutPoint (outpoint : COutPoint) : Bytes :=
  writeLE 32 outpoint.hash.toNat ++ writeLE 4 outpoint.n.toNat

namespace CBloomFilter

/-- `Hash(nHashNum, vDataToHash)`, an index of a bit of `vData`. -/
def hash (filter : CBloomFilter) (nHashNum : Nat) (vDataToHash : Bytes) : Nat :=
  (murmurHash3 (UInt32.ofNat nHashNum * 0xFBA4C795 + filter.nTweak) vDataToHash).toNat %
    (filter.vData.length * 8)

def contains (filter : CBloomFilter) (vKey : Bytes) : Bool :=
  if filter.isFull then true
  else if filter.isEmpty then false
  else (List.range filter.nHashFuncs).all fun i =>
    let nIndex := filter.hash i vKey
    (filter.vData.getD (nIndex / 8) 0 &&& (1 <<< UInt8.ofNat (nIndex % 8))) != 0

def insert (filter : CBloomFilter) (vKey : Bytes) : CBloomFilter :=
  if filter.isFull then filter
  else
    let vData := (List.range filter.nHashFuncs).foldl (fun vData i =>
      let nIndex := filter.hash i vKey
      vData.modify (nIndex / 8) (· ||| (1 <<< UInt8.ofNat (nIndex % 8)))) filter.vData
    { filter with vData := vData, isEmpty := false }

/-- What the loop over an output's script looks up: the data pushed, or for a mint everything behind
the header. -/
def outputData (txout : CTxOut) (pushed : Bytes) : Except Fault Bytes :=
  if txout.isZerocoinMint then suffixFrom txout.scriptPubKey 6 else .ok pushed

/-- Whether the filter contains a data element of an output's script. -/
def matchesOutput (filter : CBloomFilter) (txout : CTxOut) : Nat → CScript → Except Fault Bool
  | 0, _ => .ok false
  | fuel + 1, pc =>
    match getOp pc with
    | none => .ok false
    | some (_, pushed, pc) => do
        let data ← outputData txout pushed
        if data.length ≠ 0 ∧ filter.contains data then pure true
        else matchesOutput filter txout fuel pc

def update (filter : CBloomFilter) (hash : Uint256) (i : Nat) (txout : CTxOut) :
    Except Fault CBloomFilter :=
  let outpoint : COutPoint := { hash := hash, n := UInt32.ofNat i }
  if filter.nFlags &&& bloomUpdateMask = bloomUpdateAll then
    .ok (filter.insert (serializeOutPoint outpoint))
  else if filter.nFlags &&& bloomUpdateMask = bloomUpdateP2PubKeyOnly then do
    let solution ← solver txout.scriptPubKey
    if solution.result ∧ (solution.typeRet = .pubkey ∨ solution.typeRet = .multisig) then
      pure (filter.insert (serializeOutPoint outpoint))
    else pure filter
  else .ok filter

def scanOutputs (hash : Uint256) : Nat → List CTxOut → Bool → CBloomFilter →
    Except Fault (Bool × CBloomFilter)
  | _, [], fFound, filter => .ok (fFound, filter)
  | i, txout :: rest, fFound, filter => do
      if ← matchesOutput filter txout txout.scriptPubKey.length txout.scriptPubKey then
        let filter ← update filter hash i txout
        scanOutputs hash (i + 1) rest true filter
      else scanOutputs hash (i + 1) rest fFound filter

/-- What the loop over an input's script looks up: the data pushed, or the serial number of a spend.
-/
def inputData (lib : Libzerocoin) (txin : CTxIn) (pushed : Bytes) : Except Fault Bytes :=
  if txin.isZerocoinSpend then do
    let stream ← suffixFrom txin.scriptSig 44
    match lib.parseSerial stream with
    | none => .error .exception
    | some serial => pure serial
  else .ok pushed

def matchesInput (lib : Libzerocoin) (filter : CBloomFilter) (txin : CTxIn) :
    Nat → CScript → Except Fault Bool
  | 0, _ => .ok false
  | fuel + 1, pc =>
    match getOp pc with
    | none => .ok false
    | some (_, pushed, pc) => do
        let data ← inputData lib txin pushed
        if data.length ≠ 0 ∧ filter.contains data then pure true
        else matchesInput lib filter txin fuel pc

def scanInputs (lib : Libzerocoin) (filter : CBloomFilter) : List CTxIn → Except Fault Bool
  | [] => .ok false
  | txin :: rest =>
    if filter.contains (serializeOutPoint txin.prevout) then .ok true
    else do
      if ← matchesInput lib filter txin txin.scriptSig.length txin.scriptSig then pure true
      else scanInputs lib filter rest

def isRelevantAndUpdate (lib : Libzerocoin) (filter : CBloomFilter) (tx : CTransaction) :
    Except Fault (Bool × CBloomFilter) :=
  if filter.isFull then .ok (true, filter)
  else if filter.isEmpty then .ok (false, filter)
  else do
    let fFound := filter.contains (writeLE 32 tx.hash.toNat)
    let (fFound, filter) ← scanOutputs tx.hash 0 tx.vout fFound filter
    if fFound then pure (true, filter)
    else
      let relevant ← scanInputs lib filter tx.vin
      pure (relevant, filter)

/-- A filter as its constructor leaves it, of one byte and one hash function. -/
def construct (nTweakIn : UInt32) (nFlagsIn : UInt8) : CBloomFilter where
  vData := [0]
  isFull := false
  isEmpty := false
  nHashFuncs := 1
  nTweak := nTweakIn
  nFlags := nFlagsIn

theorem construct_contains (nTweakIn : UInt32) (nFlagsIn : UInt8) (vKey : Bytes) :
    (construct nTweakIn nFlagsIn).contains vKey = false := by
  have small : (construct nTweakIn nFlagsIn).hash 0 vKey / 8 = 0 := by
    have bound : (construct nTweakIn nFlagsIn).hash 0 vKey < 8 :=
      Nat.mod_lt _ (by simp [construct])
    omega
  simp only [contains, construct, Bool.false_eq_true, if_false] at small ⊢
  simp [List.range_succ, small]

end CBloomFilter

end ZenonCore.Bloom
