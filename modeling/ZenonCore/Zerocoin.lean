import ZenonCore.Primitives

/-!
# Zerocoin spends and mints

Denominations, coin spends and mints. The zerocoin library's cryptography and serialisation
are fields of `Libzerocoin`.
-/

namespace ZenonCore.Zerocoin

open Script Primitives

inductive CoinDenomination
  | zqError
  | zqOne
  | zqFive
  | zqTen
  | zqFifty
  | zqOneHundred
  | zqFiveHundred
  | zqOneThousand
  | zqFiveThousand
deriving DecidableEq, Repr

def intToZerocoinDenomination (amount : Int) : CoinDenomination :=
  if amount = 1 then .zqOne
  else if amount = 5 then .zqFive
  else if amount = 10 then .zqTen
  else if amount = 50 then .zqFifty
  else if amount = 100 then .zqOneHundred
  else if amount = 500 then .zqFiveHundred
  else if amount = 1000 then .zqOneThousand
  else if amount = 5000 then .zqFiveThousand
  else .zqError

def zerocoinDenominationToInt : CoinDenomination → Int
  | .zqError => 0
  | .zqOne => 1
  | .zqFive => 5
  | .zqTen => 10
  | .zqFifty => 50
  | .zqOneHundred => 100
  | .zqFiveHundred => 500
  | .zqOneThousand => 1000
  | .zqFiveThousand => 5000

def amountToZerocoinDenomination (amount : CAmount) : CoinDenomination :=
  let residualAmount := amount - coin * Int.tdiv amount coin
  if residualAmount = 0 then intToZerocoinDenomination (Int.tdiv amount coin) else .zqError

def zerocoinDenominationToAmount (denomination : CoinDenomination) : CAmount :=
  coin * zerocoinDenominationToInt denomination

theorem intToZerocoinDenomination_toInt (denomination : CoinDenomination) :
    intToZerocoinDenomination (zerocoinDenominationToInt denomination) = denomination := by
  cases denomination <;> rfl

inductive SpendType
  | spend
  | stake
  | mnCollateral
  | signMessage
deriving DecidableEq, Repr

/-- A `CoinSpend`; `proofs` stands for the commitments and proofs that only
`Verify` reads. -/
structure CoinSpend where
  coinSerialNumber : Int
  denomination : CoinDenomination
  ptxHash : Uint256
  accChecksum : UInt32
  version : UInt8
  pubkey : Bytes
  vchSig : Bytes
  spendType : SpendType
  proofs : Bytes
deriving DecidableEq, Repr

structure PublicCoin where
  value : Int
  denomination : CoinDenomination
deriving DecidableEq, Repr

structure PublicCoinSpend extends CoinSpend where
  randomness : Int
  txHash : Uint256
  outputIndex : UInt32
  pubCoin : PublicCoin
deriving DecidableEq, Repr

/-- A pointer to a `CoinSpend`, whose signature hash is virtual. -/
inductive Spend
  | zerocoinSpend (spend : CoinSpend)
  | publicSpend (spend : PublicCoinSpend)
deriving DecidableEq, Repr

def Spend.coinSpend : Spend → CoinSpend
  | .zerocoinSpend spend => spend
  | .publicSpend spend => spend.toCoinSpend

/-- The vendored library, as the node uses it. A `none` is an exception. -/
structure Libzerocoin where
  /-- `CoinSpend(paramsCoin, paramsAcc, strm)`; the parameters matter to `verify` only. -/
  coinSpend : Bytes → Option CoinSpend
  /-- `PublicCoinSpend(params, strm)`. -/
  publicCoinSpend : Bytes → Option PublicCoinSpend
  parseSerial : Bytes → Option Bytes
  hasValidSignature : Spend → Option Bool
  hasValidSerial : Bool → CoinSpend → Bool
  /-- `Verify(accumulator, verifyParams)`, by version and value of the accumulator. -/
  verify : CoinSpend → Bool → Int → Bool → Bool
  /-- `Commitment(group, serial, randomness).getCommitmentValue()`. -/
  commitmentValue : Int → Int → Int
  /-- `PublicCoin::validate`. -/
  validate : PublicCoin → Bool
  /-- `CMutableTransaction::GetHash`, by version, inputs, outputs and lock time. -/
  getHash : Int → List CTxIn → List CTxOut → UInt32 → Uint256

/-- `CBigNum::setvch`: little-endian, with the sign in the top bit. -/
def setvch (vch : Bytes) : Int :=
  match vch.getLast? with
  | none => 0
  | some last =>
    let magnitude : Nat := readLE (vch.dropLast ++ [last &&& 0x7f])
    if last &&& 0x80 = 0 then magnitude else -magnitude

def bignumSize : Nat := 4

def scriptOffset : Nat := 6

def txInToZerocoinSpend (lib : Libzerocoin) (txin : CTxIn) : Except Fault CoinSpend := do
  let dataTxIn ← suffixFrom txin.scriptSig bignumSize
  match lib.coinSpend dataTxIn with
  | none => .error .exception
  | some spend => pure spend

/-- `TxOutToPublicCoin`; `none` is its "txout.nValue is not correct". -/
def txOutToPublicCoin (txout : CTxOut) : Except Fault (Option PublicCoin) := do
  let vchZeroMint ← suffixFrom txout.scriptPubKey scriptOffset
  let denomination := amountToZerocoinDenomination txout.nValue
  if denomination = .zqError then pure none
  else pure (some { value := setvch vchZeroMint, denomination := denomination })

/-- `parseCoinSpend(in)`, the range and the deserialisation. -/
def parsePublicCoinSpend (lib : Libzerocoin) (txin : CTxIn) : Except Fault PublicCoinSpend := do
  let data ← suffixFrom txin.scriptSig 4
  match lib.publicCoinSpend data with
  | none => .error .exception
  | some spend => pure spend

/-- `parseCoinSpend(in, tx, prevOut, publicCoinSpend)`; `none` is `false`. -/
def parseCoinSpend (lib : Libzerocoin) (txin : CTxIn) (tx : CTransaction) (prevOut : CTxOut) :
    Except Fault (Option PublicCoinSpend) :=
  if !txin.isZerocoinPublicSpend || !prevOut.isZerocoinMint then pure none
  else do
    let spend ← parsePublicCoinSpend lib txin
    match ← txOutToPublicCoin prevOut with
    | none => pure none
    | some pubCoin => pure (some
        { spend with
          outputIndex := txin.prevout.n
          txHash := txin.prevout.hash
          ptxHash := lib.getHash tx.nVersion [] tx.vout tx.nLockTime
          pubCoin := pubCoin
          denomination := pubCoin.denomination })

/-- `PublicCoinSpend::validate`; `none` is an `InvalidSerialException`. -/
def validatePublicCoinSpend (lib : Libzerocoin) (spend : PublicCoinSpend) : Option Bool :=
  if lib.commitmentValue spend.coinSerialNumber spend.randomness ≠ spend.pubCoin.value then
    some false
  else lib.hasValidSignature (.publicSpend spend)

def validateInput (lib : Libzerocoin) (txin : CTxIn) (prevOut : CTxOut) (tx : CTransaction) :
    Except Fault Bool := do
  match ← parseCoinSpend lib txin tx prevOut with
  | none => pure false
  | some publicSpend =>
    if zerocoinDenominationToAmount (intToZerocoinDenomination txin.nSequence.toNat) ≠
        prevOut.nValue then pure false
    else match validatePublicCoinSpend lib publicSpend with
      | none => .error .exception
      | some valid => pure valid

end ZenonCore.Zerocoin
