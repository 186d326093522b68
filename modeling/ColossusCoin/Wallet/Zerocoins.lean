import ColossusCoin.Validation.ConnectBlock

/-!
# Zerocoin operations of the wallet

A spend that is created and then fails to commit, the reset of spends that have not
been confirmed, and the search for mints.  Each of them works from records of the
wallet, and erases records of spent serials from the database that all validation
shares.
-/

namespace ColossusCoin

/-- `CZerocoinMint`, with the fields that these operations read and set. -/
structure CZerocoinMint where
  value : CBigNum
  serialNumber : CBigNum
  txHash : Uint256
  nHeight : Int
  isUsed : Bool
  deriving DecidableEq, Repr

/-- `CZerocoinSpend`, as the wallet lists it. -/
structure CZerocoinSpend where
  coinSerial : CBigNum
  hashTx : Uint256
  deriving DecidableEq, Repr

namespace CZerocoinDB

def isSerialKnown (db : CZerocoinDB) (bnSerial : CBigNum) : Bool :=
  (db.spends bnSerial).isSome

/-- `RemoveSerialFromDB` for serials in order. -/
def removeSerials (db : CZerocoinDB) (serials : List CBigNum) : CZerocoinDB :=
  serials.foldl eraseCoinSpend db

end CZerocoinDB

/-- `CreateZerocoinSpendTransaction` refuses serials that are known: the spends of the
receipt, if there are none. -/
def createZerocoinSpend (db : CZerocoinDB) (vSelectedMints : List CZerocoinMint) :
    Option (List CBigNum) :=
  if vSelectedMints.any fun mint => db.isSerialKnown mint.serialNumber then none
  else some (vSelectedMints.map CZerocoinMint.serialNumber)

/-- What `SpendZerocoin` does to the database when its transaction fails to commit. -/
def spendZerocoinFailed (receiptSpends : List CBigNum) (db : CZerocoinDB) : CZerocoinDB :=
  db.removeSerials receiptSpends

/-- The spends without confirmations: `GetTransaction` does not find them, or finds
them in no block. -/
def unconfirmedSpends (lookup : ChainLookup) (listSpends : List CZerocoinSpend) :
    List CZerocoinSpend :=
  listSpends.filter fun spend =>
    match lookup.getTransaction spend.hashTx with
    | none => true
    | some (_, hashBlock) => hashBlock == 0

/-- The serials of unconfirmed spends that belong to mints of the wallet, once for
each such mint. -/
def resetSerials (lookup : ChainLookup) (listMints : List CZerocoinMint)
    (listSpends : List CZerocoinSpend) : List CBigNum :=
  (unconfirmedSpends lookup listSpends).flatMap fun spend =>
    (listMints.filter fun mint => mint.serialNumber == spend.coinSerial).map fun _ =>
      spend.coinSerial

/-- `ResetSpentZerocoin`: the number of spends removed, and the database. -/
def resetSpentZerocoin (lookup : ChainLookup) (listMints : List CZerocoinMint)
    (listSpends : List CZerocoinSpend) (db : CZerocoinDB) : Nat × CZerocoinDB :=
  let serials := resetSerials lookup listMints listSpends
  (serials.length, db.removeSerials serials)

/-- The mints that `FindMints` marks for an update and those it misses. -/
structure FoundMints where
  vMintsToUpdate : List CZerocoinMint
  vMissingMints : List CZerocoinMint

/-- Mark a mint for an update. -/
def FoundMints.update (found : FoundMints) (mint : CZerocoinMint) : FoundMints :=
  { found with vMintsToUpdate := found.vMintsToUpdate ++ [mint] }

/-- Note a mint as missing. -/
def FoundMints.miss (found : FoundMints) (mint : CZerocoinMint) : FoundMints :=
  { found with vMissingMints := found.vMissingMints ++ [mint] }

/-- One mint in the loop of `FindMints`.  `indexHeight` is the height of a block that
`mapBlockIndex` has. -/
def findMint (lookup : ChainLookup) (indexHeight : Uint256 → Option Int)
    (mint : CZerocoinMint) (found : FoundMints) (db : CZerocoinDB) :
    FoundMints × CZerocoinDB :=
  match db.mints mint.value with
  | none => (found.miss mint, db)
  | some txHash =>
    match lookup.getTransaction txHash with
    | none => (found.miss mint, db)
    | some (_, hashBlock) =>
      match indexHeight hashBlock with
      | none => (found.miss mint, db)
      | some nHeight =>
        let hashTxSpend := (db.spends mint.serialNumber).getD 0
        let fSpent := hashTxSpend != 0
        let notInChain := (lookup.getTransaction hashTxSpend).isNone ||
          (lookup.isSerialInBlockchain db mint.serialNumber).isNone
        if fSpent && notInChain then
          (found.update { mint with isUsed := false },
            db.eraseCoinSpend mint.serialNumber)
        else if mint.txHash = txHash ∧ mint.nHeight = nHeight ∧ mint.isUsed = fSpent then
          (found, db)
        else
          (found.update
            { mint with txHash := txHash, nHeight := nHeight, isUsed := fSpent }, db)

/-- `FindMints`, without the extended search, which reads blocks to find more of the
missing mints and leaves the database. -/
def findMints (lookup : ChainLookup) (indexHeight : Uint256 → Option Int) :
    List CZerocoinMint → FoundMints → CZerocoinDB → FoundMints × CZerocoinDB
  | [], found, db => (found, db)
  | mint :: rest, found, db =>
    match findMint lookup indexHeight mint found db with
    | (next, changed) => findMints lookup indexHeight rest next changed

end ColossusCoin
