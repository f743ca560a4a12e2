import ZenonCore.Base58
import ZenonCore.Destinations

/-!
# Addresses and keys as strings

Base58 with a checksum, and the two kinds of data that are written with it.
-/

namespace ZenonCore.Addresses

open Base58 Destinations List
open Script (Bytes)

/-- `base58Prefixes` of the network, of one byte each. -/
structure Base58Prefixes where
  pubkeyAddress : UInt8
  scriptAddress : UInt8
  secretKey : UInt8
  apart : pubkeyAddress ≠ scriptAddress

structure CBase58Data where
  vchVersion : Bytes
  vchData : Bytes
deriving DecidableEq

section Code

variable (hash : Bytes → { bytes : Bytes // bytes.length = 32 }) (prefixes : Base58Prefixes)

def encodeBase58Check (vchIn : Bytes) : Option Bytes :=
  encodeBase58 (vchIn ++ (hash vchIn).val.take 4)

/-- `DecodeBase58Check`, with the results of `DecodeBase58`. -/
def decodeBase58Check (psz : CString) : Option (Option Bytes) :=
  (decodeBase58 psz).map fun read => read.bind fun vchRet =>
    if vchRet.length < 4 then none
    else
      let vch := vchRet.take (vchRet.length - 4)
      if (hash vch).val.take 4 = vchRet.drop (vchRet.length - 4) then some vch else none

/-- `SetString`; where it returns false, the data are empty. -/
def setString (psz : CString) (nVersionBytes : Nat) : Option (Option CBase58Data) :=
  (decodeBase58Check hash psz).map fun rc58 => rc58.bind fun vchTemp =>
    if vchTemp.length < nVersionBytes then none
    else some ⟨vchTemp.take nVersionBytes, vchTemp.drop nVersionBytes⟩

def toString (data : CBase58Data) : Option Bytes :=
  encodeBase58Check hash (data.vchVersion ++ data.vchData)

/-- `CBitcoinAddress::Set`, if it returns true. -/
def set : CTxDestination → Option CBase58Data
  | .noDestination => none
  | .keyID id => some ⟨[prefixes.pubkeyAddress], id.val⟩
  | .scriptID id => some ⟨[prefixes.scriptAddress], id.val⟩

def isValid (data : CBase58Data) : Bool :=
  data.vchData.length == 20 && (data.vchVersion == [prefixes.pubkeyAddress] ||
    data.vchVersion == [prefixes.scriptAddress])

def get (data : CBase58Data) : CTxDestination :=
  if size : isValid prefixes data = true then
    let id : Uint160 := ⟨data.vchData, by simp_all [isValid]⟩
    if data.vchVersion = [prefixes.pubkeyAddress] then .keyID id
    else if data.vchVersion = [prefixes.scriptAddress] then .scriptID id
    else .noDestination
  else .noDestination

/-- `CBitcoinSecret::SetKey`, of a key of 32 bytes. -/
def setKey (vchSecret : Bytes) (fCompressed : Bool) : CBase58Data :=
  ⟨[prefixes.secretKey], vchSecret ++ if fCompressed then [1] else []⟩

/-- `CBitcoinSecret::GetKey`: the bytes and the compression, if the assertion holds. -/
def getKey (data : CBase58Data) : Option (Bytes × Bool) :=
  if 32 ≤ data.vchData.length then
    some (data.vchData.take 32, decide (32 < data.vchData.length) && data.vchData[32]? == some 1)
  else none

def secretIsValid (data : CBase58Data) : Bool :=
  (data.vchData.length == 32 || (data.vchData.length == 33 && data.vchData[32]? == some 1)) &&
    data.vchVersion == [prefixes.secretKey]

end Code

section Strings

variable (hash : Bytes → { bytes : Bytes // bytes.length = 32 }) (prefixes : Base58Prefixes)

/-- A string is that of some data, with spaces around it. -/
def Spells (psz : CString) (data : CBase58Data) : Prop :=
  ∃ before str after, toString hash data = some str ∧ psz.val = before ++ str ++ after ∧
    ∀ c ∈ before ++ after, isspace c = true

theorem setString_toString (data : CBase58Data) : ∃ str, toString hash data = some str ∧
    setString hash (cStr str) data.vchVersion.length = some (some data) := by
  generalize whole : data.vchVersion ++ data.vchData = vch
  have size : ((hash vch).val.take 4).length = 4 := by
    rw [length_take, (hash vch).property]
    rfl
  obtain ⟨str, encoded, decoded⟩ := decode_of_encoding (vch ++ (hash vch).val.take 4)
  have payload : (vch ++ (hash vch).val.take 4).length - 4 = vch.length := by
    rw [length_append, size, Nat.add_sub_cancel]
  refine ⟨str, by rw [toString, whole, encodeBase58Check, encoded], ?_⟩
  simp only [setString, decodeBase58Check, decoded, Option.map_some, Option.bind_some]
  rw [if_neg (by rw [length_append, size]; omega), payload, take_left, drop_left, if_pos rfl,
    Option.bind_some, ← whole, if_neg (by rw [length_append]; omega), take_left, drop_left]

theorem setString_spells (psz : CString) (nVersionBytes : Nat) (data : CBase58Data)
    (accepted : setString hash psz nVersionBytes = some (some data)) :
    data.vchVersion.length = nVersionBytes ∧ Spells hash psz data := by
  obtain ⟨read, decoded, spelled⟩ := encoding_of_decoded psz
  simp only [setString, decodeBase58Check, decoded, Option.map_some, Option.some.injEq] at accepted
  obtain ⟨vchTemp, checked, split⟩ := Option.bind_eq_some_iff.mp accepted
  obtain ⟨vchRet, rfl, checks⟩ := Option.bind_eq_some_iff.mp checked
  split at split
  · cases split
  split at checks
  · cases checks
  split at checks
  · rename_i same
    cases checks
    cases split
    obtain ⟨before, str, after, encoded, rest⟩ := spelled vchRet rfl
    refine ⟨by rw [length_take]; omega, before, str, after, ?_, rest⟩
    rw [toString, encodeBase58Check, take_append_drop, same, take_append_drop, encoded]
  · cases checks

end Strings

end ZenonCore.Addresses
