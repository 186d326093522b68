import ColossusCoin.Primitives.Transaction

/-!
# Zerocoin denominations and coins

The fixed denominations, their conversion to and from amounts, and the public
parts of zerocoins as they are read off outputs and inputs.
-/

namespace ColossusCoin

inductive CoinDenomination where
  | zqError
  | zqOne
  | zqFive
  | zqTen
  | zqFifty
  | zqOneHundred
  | zqFiveHundred
  | zqOneThousand
  | zqFiveThousand
  deriving DecidableEq, Repr

namespace CoinDenomination

def zerocoinDenomList : List CoinDenomination :=
  [zqOne, zqFive, zqTen, zqFifty, zqOneHundred, zqFiveHundred, zqOneThousand,
    zqFiveThousand]

/-- `ZerocoinDenominationToInt`, which is also the value of the enumerator. -/
def toInt : CoinDenomination → Int
  | zqError => 0
  | zqOne => 50
  | zqFive => 100
  | zqTen => 500
  | zqFifty => 1000
  | zqOneHundred => 5000
  | zqFiveHundred => 10000
  | zqOneThousand => 50000
  | zqFiveThousand => 100000

/-- `IntToZerocoinDenomination`. -/
def ofInt (amount : Int) : CoinDenomination :=
  if amount = 50 then zqOne
  else if amount = 100 then zqFive
  else if amount = 500 then zqTen
  else if amount = 1000 then zqFifty
  else if amount = 5000 then zqOneHundred
  else if amount = 10000 then zqFiveHundred
  else if amount = 50000 then zqOneThousand
  else if amount = 100000 then zqFiveThousand
  else zqError

/-- `AmountToZerocoinDenomination`.  Division truncates, as in the source. -/
def ofAmount (amount : Int) : CoinDenomination :=
  if amount - coin * amount.tdiv coin = 0 then ofInt (amount.tdiv coin)
  else zqError

/-- `ZerocoinDenominationToAmount`. -/
def toAmount (denomination : CoinDenomination) : Int :=
  coin * denomination.toInt

@[simp] theorem ofInt_toInt (denomination : CoinDenomination) :
    ofInt denomination.toInt = denomination := by
  cases denomination <;> rfl

end CoinDenomination

/-- `CBigNum`: serial numbers and coin values. -/
abbrev CBigNum := Int

structure PublicCoin where
  value : CBigNum
  denomination : CoinDenomination
  deriving DecidableEq, Repr

/-- The public fields of a `CoinSpend`. -/
structure CoinSpend where
  coinSerialNumber : CBigNum
  denomination : CoinDenomination
  ptxHash : Uint256
  accChecksum : Nat
  deriving DecidableEq, Repr

/-- `CBigNum::setvch`: little-endian bytes, the top bit of the last one being the
sign. -/
def CBigNum.setvch (vch : List UInt8) : CBigNum :=
  match vch.getLast? with
  | none => 0
  | some last =>
    let magnitude := CScript.littleEndian vch
    if last < 0x80 then magnitude
    else -(magnitude - 0x80 * 256 ^ (vch.length - 1) : Int)

/-- `SCRIPT_OFFSET`: bytes in front of the coin value in a mint script. -/
def scriptOffset : Nat := 6

/-- `TxOutToPublicCoin`, `none` where it rejects the value. -/
def txOutToPublicCoin (txout : CTxOut) : Option PublicCoin :=
  if CoinDenomination.ofAmount txout.nValue = .zqError then none
  else
    some
      { value := CBigNum.setvch (txout.scriptPubKey.drop scriptOffset)
        denomination := CoinDenomination.ofAmount txout.nValue }

/-- The public coins of a transaction's mint outputs, in order, `none` when one
of them has no denomination. -/
def CTransaction.publicCoins (tx : CTransaction) : Option (List PublicCoin) :=
  (tx.vout.filter fun txout => txout.scriptPubKey.isZerocoinMint).mapM
    txOutToPublicCoin

/-- The inputs of a transaction that spend zerocoins. -/
def CTransaction.zerocoinSpendInputs (tx : CTransaction) : List CTxIn :=
  tx.vin.filter fun txin => txin.scriptSig.isZerocoinSpend

/-!
## The zerocoin database

The records of mints, spent serials and accumulator values.  The database keys
its records by hashes of the numbers; here they are keyed by the numbers.
-/

structure CZerocoinDB where
  mints : CBigNum → Option Uint256
  spends : CBigNum → Option Uint256
  accumulators : Nat → Option CBigNum

namespace CZerocoinDB

/-- A database without records. -/
def empty : CZerocoinDB where
  mints := fun _ => none
  spends := fun _ => none
  accumulators := fun _ => none

def writeCoinMint (db : CZerocoinDB) (pubCoin : PublicCoin) (hashTx : Uint256) :
    CZerocoinDB :=
  { db with mints := Function.update db.mints pubCoin.value (some hashTx) }

def eraseCoinMint (db : CZerocoinDB) (bnPubcoin : CBigNum) : CZerocoinDB :=
  { db with mints := Function.update db.mints bnPubcoin none }

def writeCoinSpend (db : CZerocoinDB) (bnSerial : CBigNum) (txHash : Uint256) :
    CZerocoinDB :=
  { db with spends := Function.update db.spends bnSerial (some txHash) }

def eraseCoinSpend (db : CZerocoinDB) (bnSerial : CBigNum) : CZerocoinDB :=
  { db with spends := Function.update db.spends bnSerial none }

def writeAccumulatorValue (db : CZerocoinDB) (nChecksum : Nat) (bnValue : CBigNum) :
    CZerocoinDB :=
  { db with accumulators := Function.update db.accumulators nChecksum (some bnValue) }

def eraseAccumulatorValue (db : CZerocoinDB) (nChecksum : Nat) : CZerocoinDB :=
  { db with accumulators := Function.update db.accumulators nChecksum none }

/-- `RecordMintToDB`: whether it succeeds, and the database after it. -/
def recordMintToDB (db : CZerocoinDB) (publicZerocoin : PublicCoin)
    (txHash : Uint256) : Bool × CZerocoinDB :=
  match db.mints publicZerocoin.value with
  | some hashFromDB => (hashFromDB == txHash, db)
  | none => (true, db.writeCoinMint publicZerocoin txHash)

end CZerocoinDB

/-- `ParseChecksum`: the 32 bits of a checkpoint that belong to a denomination. -/
def parseChecksum (nChecksum : Uint256) (denomination : CoinDenomination) : Nat :=
  let pos := CoinDenomination.zerocoinDenomList.idxOf denomination
  (nChecksum >>> (32 * (CoinDenomination.zerocoinDenomList.length - 1 - pos))) %
    2 ^ 32

def eraseAccumulatorValues (db : CZerocoinDB)
    (nCheckpointErase nCheckpointPrevious : Uint256) : CZerocoinDB :=
  CoinDenomination.zerocoinDenomList.foldl (fun current denomination =>
    let nChecksumErase := parseChecksum nCheckpointErase denomination
    if nChecksumErase = parseChecksum nCheckpointPrevious denomination then current
    else current.eraseAccumulatorValue nChecksumErase) db

end ColossusCoin
