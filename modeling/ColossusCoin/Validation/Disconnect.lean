import ColossusCoin.Coins.Update
import ColossusCoin.Primitives.Block

/-!
# Disconnecting a block

The transactions of a block are taken back in reverse order: the zerocoin
records they made are erased, the outputs they added are compared with the
block and cleared, and the outputs they spent are written back from the undo
records.  The deserialization of zerocoin spends is a parameter, `none` where it
throws.
-/

namespace ColossusCoin

/-- The state that `DisconnectBlock` works on, with its flag `fClean`. -/
structure DisconnectState where
  view : CCoinsViewCache
  zerocoinDB : CZerocoinDB
  fClean : Bool

namespace DisconnectState

/-- Edit coins through `ModifyCoins`; the edit says whether it met what it
expected, and otherwise the disconnect is not clean. -/
def modifyCoins (state : DisconnectState) (txid : Uint256)
    (edit : CCoins → Bool × CCoins) : DisconnectState :=
  match state.view.modifyCoins txid edit with
  | (expected, modified) =>
    { state with view := modified, fClean := state.fClean && expected }

end DisconnectState

/-- Compare the outputs of a transaction with what the block says they are, and
clear them. -/
def removeOutputs (tx : CTransaction) (nHeight : Int) (coins : CCoins) :
    Bool × CCoins :=
  let outsBlock := CCoins.fromTx tx nHeight
  let outs := coins.clearUnspendable
  let outs := if outsBlock.nVersion < 0 then
      { outs with nVersion := outsBlock.nVersion }
    else outs
  (outs.same outsBlock, CCoins.cleared)

/-- The metadata that an undo record restores before its output is written back:
`Clear` and three of the four fields when the record carries a height. -/
def restoreMetadata (undo : CTxInUndo) (coins : CCoins) : Bool × CCoins :=
  if undo.nHeight ≠ 0 then
    (coins.isPruned,
      { CCoins.cleared with
        fCoinBase := undo.fCoinBase
        nHeight := undo.nHeight
        nVersion := undo.nVersion })
  else (!coins.isPruned, coins)

/-- Write a spent output back. -/
def restoreOutput (undo : CTxInUndo) (n : Nat) (coins : CCoins) : Bool × CCoins :=
  match restoreMetadata undo coins with
  | (expected, restored) =>
    (expected && !restored.isAvailable n,
      { restored with
        vout := TrimmedList.writeAt CTxOut.null restored.vout n undo.txout })

/-- Write back the outputs that the inputs of a transaction spent, the last input
first. -/
def restoreInputs (records : List (CTxIn × CTxInUndo)) (state : DisconnectState) :
    DisconnectState :=
  records.reverse.foldl (fun current record =>
    current.modifyCoins record.1.prevout.hash
      (restoreOutput record.2 record.1.prevout.n)) state

section Zerocoins

variable (txInToZerocoinSpend : CTxIn → Option CoinSpend)

/-- Erase the serials that the inputs spent. -/
def eraseCoinSpends : List CTxIn → CZerocoinDB → Bool × CZerocoinDB
  | [], db => (true, db)
  | txin :: rest, db =>
    match txInToZerocoinSpend txin with
    | none => (false, db)
    | some spend => eraseCoinSpends rest (db.eraseCoinSpend spend.coinSerialNumber)

/-- Erase the mints that the outputs made. -/
def eraseCoinMints : List CTxOut → CZerocoinDB → Bool × CZerocoinDB
  | [], db => (true, db)
  | txout :: rest, db =>
    match txOutToPublicCoin txout with
    | none => (false, db)
    | some pubCoin => eraseCoinMints rest (db.eraseCoinMint pubCoin.value)

/-- The outputs of a transaction that mint zerocoins. -/
def CTransaction.zerocoinMintOutputs (tx : CTransaction) : List CTxOut :=
  tx.vout.filter CTxOut.isZerocoinMint

/-- Undo the zerocoin records of a transaction. -/
def eraseZerocoins (tx : CTransaction) (db : CZerocoinDB) : Bool × CZerocoinDB :=
  match if tx.isZerocoinSpend then
      eraseCoinSpends txInToZerocoinSpend tx.zerocoinSpendInputs db
    else (true, db) with
  | (false, erased) => (false, erased)
  | (true, erased) =>
    if tx.isZerocoinMint then eraseCoinMints tx.zerocoinMintOutputs erased
    else (true, erased)

/-- Take one transaction back; the first component is false where the source
returns an error. -/
def disconnectTx (nHeight : Int) (tx : CTransaction) (txundo : Option CTxUndo)
    (state : DisconnectState) : Bool × DisconnectState :=
  match eraseZerocoins txInToZerocoinSpend tx state.zerocoinDB with
  | (false, erased) => (false, { state with zerocoinDB := erased })
  | (true, erased) =>
    let removed := { state with zerocoinDB := erased }.modifyCoins tx.hash
      (removeOutputs tx nHeight)
    if tx.spendsNoCoins then (true, removed)
    else
      match txundo with
      | none => (false, removed)
      | some txundo =>
        if txundo.vprevout.length ≠ tx.vin.length then (false, removed)
        else (true, restoreInputs (tx.vin.zip txundo.vprevout) removed)

/-- The loop over the transactions, given in the order it takes them. -/
def disconnectTxs (nHeight : Int) :
    List (CTransaction × Option CTxUndo) → DisconnectState → Bool × DisconnectState
  | [], state => (true, state)
  | (tx, txundo) :: rest, state =>
    match disconnectTx txInToZerocoinSpend nHeight tx txundo state with
    | (false, stopped) => (false, stopped)
    | (true, disconnected) => disconnectTxs nHeight rest disconnected

/-- `DisconnectBlock`, called with a place for `pfClean`: what it returns, and
the state it leaves, whose `fClean` is `*pfClean` when it returns true.  The undo
records are `none` when there are none or they cannot be read. -/
def disconnectBlock (block : CBlock) (pindex pprev : CBlockIndex)
    (vtxundo : Option (List CTxUndo)) (fVerifyingBlocks : Bool)
    (view : CCoinsViewCache) (zerocoinDB : CZerocoinDB) : Bool × DisconnectState :=
  let state : DisconnectState :=
    { view := view, zerocoinDB := zerocoinDB, fClean := true }
  -- The first test is an assertion.
  if pindex.hash ≠ view.toView.getBestBlock then (false, state)
  else
    match vtxundo with
    | none => (false, state)
    | some vtxundo =>
      if vtxundo.length + 1 ≠ block.vtx.length then (false, state)
      else
        match disconnectTxs txInToZerocoinSpend pindex.nHeight
            (block.vtx.zip (none :: vtxundo.map some)).reverse state with
        | (false, stopped) => (false, stopped)
        | (true, disconnected) =>
          let moved :=
            { disconnected with
              view := disconnected.view.setBestBlock pprev.hash }
          if !fVerifyingBlocks ∧
              pindex.nAccumulatorCheckpoint ≠ pprev.nAccumulatorCheckpoint then
            (true,
              { moved with
                zerocoinDB := eraseAccumulatorValues moved.zerocoinDB
                  pindex.nAccumulatorCheckpoint pprev.nAccumulatorCheckpoint })
          else (true, moved)

end Zerocoins
end ColossusCoin
