import Mathlib.Data.BitVec
import ZenonCore.Script

/-!
# Transactions and blocks

`primitives/transaction.h` and `primitives/block.h`. A transaction carries its hash; which may
share one is left to the statements.
-/

namespace ZenonCore.Primitives

open Script

abbrev Uint256 := BitVec 256

/-- Amounts are signed 64-bit; the sums that can leave that range say so. -/
abbrev CAmount := Int

def coin : CAmount := 100000000

structure COutPoint where
  hash : Uint256
  n : UInt32
deriving DecidableEq, Repr

def COutPoint.null : COutPoint := { hash := 0, n := 0xffffffff }

def COutPoint.isNull (outpoint : COutPoint) : Bool :=
  outpoint.hash == 0 && outpoint.n == 0xffffffff

structure CTxIn where
  prevout : COutPoint
  scriptSig : CScript
  nSequence : UInt32
deriving DecidableEq, Repr

def CTxIn.isZerocoinSpend (txin : CTxIn) : Bool :=
  txin.prevout.hash == 0 && Script.isZerocoinSpend txin.scriptSig

def CTxIn.isZerocoinPublicSpend (txin : CTxIn) : Bool :=
  Script.isZerocoinPublicSpend txin.scriptSig

def CTxIn.spendsZerocoin (txin : CTxIn) : Bool :=
  txin.isZerocoinSpend || txin.isZerocoinPublicSpend

structure CTxOut where
  nValue : CAmount
  scriptPubKey : CScript
deriving DecidableEq, Repr

def CTxOut.null : CTxOut := { nValue := -1, scriptPubKey := [] }

def CTxOut.isNull (txout : CTxOut) : Bool := txout.nValue == -1

def CTxOut.isEmpty (txout : CTxOut) : Bool := txout.nValue == 0 && txout.scriptPubKey.isEmpty

def CTxOut.isZerocoinMint (txout : CTxOut) : Bool := Script.isZerocoinMint txout.scriptPubKey

structure CTransaction where
  hash : Uint256
  nVersion : Int
  vin : List CTxIn
  vout : List CTxOut
  nLockTime : UInt32
deriving DecidableEq, Repr

namespace CTransaction

def hasZerocoinSpendInputs (tx : CTransaction) : Bool := tx.vin.any CTxIn.spendsZerocoin

def zerocoinInputs (tx : CTransaction) : List CTxIn := tx.vin.filter CTxIn.spendsZerocoin

def zerocoinOutputs (tx : CTransaction) : List CTxOut := tx.vout.filter CTxOut.isZerocoinMint

def hasZerocoinPublicSpendInputs (tx : CTransaction) : Bool :=
  tx.vin.any CTxIn.isZerocoinPublicSpend

def hasZerocoinMintOutputs (tx : CTransaction) : Bool :=
  tx.vout.any CTxOut.isZerocoinMint

def containsZerocoins (tx : CTransaction) : Bool :=
  tx.hasZerocoinSpendInputs || tx.hasZerocoinPublicSpendInputs || tx.hasZerocoinMintOutputs

def isCoinBase (tx : CTransaction) : Bool :=
  match tx.vin with
  | [txin] => txin.prevout.isNull && !tx.containsZerocoins
  | _ => false

/-- ppcoin: the coin stake transaction is marked with the first output empty. -/
def isCoinStake (tx : CTransaction) : Bool :=
  match tx.vin, tx.vout with
  | [], _ => false
  | txin :: _, txout :: _ :: _ =>
    if txin.prevout.isNull && !txin.isZerocoinSpend then false else txout.isEmpty
  | _ :: _, _ => false

/-- The sum of the outputs; `none` where `GetValueOut` throws. -/
def getValueOut (tx : CTransaction) : Option CAmount :=
  tx.vout.foldlM (fun nValueOut txout =>
    if txout.nValue < 0 then none
    else if 2 ^ 63 ≤ nValueOut + txout.nValue then none
    else some (nValueOut + txout.nValue)) 0

def outPoint (tx : CTransaction) (i : Nat) : COutPoint := { hash := tx.hash, n := UInt32.ofNat i }

end CTransaction

structure CBlockHeader where
  hash : Uint256
  nVersion : Int
  hashPrevBlock : Uint256
  hashMerkleRoot : Uint256
  nTime : UInt32
  nBits : UInt32
  nNonce : UInt32
  nAccumulatorCheckpoint : Uint256
deriving DecidableEq, Repr

structure CBlock extends CBlockHeader where
  vtx : List CTransaction
  vchBlockSig : Bytes
deriving DecidableEq, Repr

namespace CBlock

def getBlockTime (block : CBlock) : Int := block.nTime.toNat

def isProofOfStake (block : CBlock) : Bool :=
  match block.vtx with
  | _ :: second :: _ => second.isCoinStake
  | _ => false

/-- The zerocoin inputs of the block with their transactions, in order. -/
def zerocoinInputs (block : CBlock) : List (CTransaction × CTxIn) :=
  block.vtx.flatMap fun tx => tx.zerocoinInputs.map fun txin => (tx, txin)

def isProofOfWork (block : CBlock) : Bool := !block.isProofOfStake

end CBlock

variable (tx : CTransaction)

theorem zerocoinInputs_eq_nil :
    tx.zerocoinInputs = [] ↔ tx.hasZerocoinSpendInputs = false := by
  simp [CTransaction.zerocoinInputs, CTransaction.hasZerocoinSpendInputs]

theorem zerocoinOutputs_eq_nil :
    tx.zerocoinOutputs = [] ↔ tx.hasZerocoinMintOutputs = false := by
  simp [CTransaction.zerocoinOutputs, CTransaction.hasZerocoinMintOutputs]

theorem mem_zerocoinInputs (block : CBlock) (tx : CTransaction) (txin : CTxIn) :
    (tx, txin) ∈ block.zerocoinInputs ↔
      tx ∈ block.vtx ∧ txin ∈ tx.vin ∧ txin.spendsZerocoin = true := by
  simp only [CBlock.zerocoinInputs, CTransaction.zerocoinInputs, List.mem_flatMap, List.mem_map,
    List.mem_filter, Prod.mk.injEq]
  constructor
  · rintro ⟨other, inBlock, input, ⟨member, zerocoin⟩, rfl, rfl⟩
    exact ⟨inBlock, member, zerocoin⟩
  · rintro ⟨inBlock, member, zerocoin⟩
    exact ⟨tx, inBlock, txin, ⟨member, zerocoin⟩, rfl, rfl⟩

theorem hasZerocoinSpendInputs_of_mem (txin : CTxIn) (member : txin ∈ tx.vin)
    (zerocoin : txin.spendsZerocoin = true) : tx.hasZerocoinSpendInputs = true :=
  List.any_eq_true.mpr ⟨txin, member, zerocoin⟩

theorem coinBase_no_zerocoin (coinBase : tx.isCoinBase = true) :
    tx.hasZerocoinSpendInputs = false ∧ tx.hasZerocoinMintOutputs = false := by
  have plain : tx.containsZerocoins = false := by
    unfold CTransaction.isCoinBase at coinBase
    split at coinBase
    · simpa using And.right (by simpa using coinBase : _ ∧ _)
    · cases coinBase
  simp only [CTransaction.containsZerocoins, Bool.or_eq_false_iff] at plain
  exact ⟨plain.1.1, plain.2⟩

theorem coinBases_no_zerocoin (block : CBlock)
    (coinBases : ∀ tx ∈ block.vtx, tx.isCoinBase = true) : block.zerocoinInputs = [] := by
  apply List.flatMap_eq_nil_iff.mpr
  intro tx member
  rw [(zerocoinInputs_eq_nil tx).mpr (coinBase_no_zerocoin tx (coinBases tx member)).1,
    List.map_nil]

end ZenonCore.Primitives
