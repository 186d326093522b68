import ColossusCoin.Masternode.Payments
import ColossusCoin.Validation.CheckInputs
import ColossusCoin.Zerocoin.Supply

/-!
# Connecting a block

`ConnectBlock`, stage by stage, on the records it reads and writes: the validation
state, the zerocoin database, a view of the unspent outputs, the index entry of the
block and the transaction index.  What the node and the code outside validation
contribute is one environment.  The recalculations that belong to the height
`Zerocoin_Block_RecalculateAccumulators`, which is `INT_MAX` on every network, are
left out.
-/

namespace ColossusCoin

/-- A position in the transaction index; the block is named by its hash instead of
its place on disk. -/
structure CDiskTxPos where
  hashBlock : Uint256
  nTxOffset : Nat
  deriving DecidableEq, Repr

/-- How transactions and the active chain are looked up. -/
structure ChainLookup where
  /-- `GetTransaction`: the transaction and the hash of its block, which is zero in
  the memory pool. -/
  getTransaction : Uint256 → Option (CTransaction × Uint256)
  /-- The height of a block of the active chain. -/
  activeHeight : Uint256 → Option Int

namespace ChainLookup

/-- `IsTransactionInChain`, with the height of its block. -/
def isTransactionInChain (chain : ChainLookup) (txId : Uint256) : Option Int :=
  match chain.getTransaction txId with
  | none => none
  | some (_, hashBlock) => if hashBlock = 0 then none else chain.activeHeight hashBlock

/-- `IsSerialInBlockchain`, with the height of its block. -/
def isSerialInBlockchain (chain : ChainLookup) (db : CZerocoinDB)
    (bnSerial : CBigNum) : Option Int :=
  match db.spends bnSerial with
  | none => none
  | some txHash =>
    match chain.getTransaction txHash with
    | none => none
    | some (_, hashBlock) => chain.activeHeight hashBlock

end ChainLookup

/-- What connecting a block depends on besides the block and the records. -/
structure ConnectEnv where
  context : ChainContext
  payments : PaymentLib
  node : NodeLocal
  masternodes : MasternodeLocal
  chain : ChainLookup
  fraud : FraudMaps
  /-- The ancestors of the block, from its parent on. -/
  ancestors : List CBlockIndex
  fVerifyingBlocks : Bool
  fTxIndex : Bool
  nScriptCheckThreads : Bool
  /-- `Checkpoints::GetTotalBlocksEstimate`. -/
  totalBlocksEstimate : Int
  /-- `CScriptCheck` of an input. -/
  verifyScript : ScriptFlags → CTransaction → Nat → CCoins → Option String
  /-- `CoinSpend::HasValidSerial`. -/
  hasValidSerial : CBigNum → Bool
  /-- `CalculateAccumulatorCheckpoint`, `none` where it fails. -/
  calculateAccumulatorCheckpoint : Int → Option (Uint256 × (CoinDenomination → CBigNum))
  /-- The accumulators of an empty `AccumulatorMap`. -/
  initialAccumulators : CoinDenomination → CBigNum
  getChecksum : CBigNum → Nat
  /-- The position that `FindUndoPos` finds, if there is space. -/
  findUndoPos : Option Nat
  /-- `CBlockUndo::WriteToDisk` succeeds. -/
  undoWritten : Bool

namespace ConnectEnv

/-- `pindex->pprev`. -/
def pprev (env : ConnectEnv) : Option CBlockIndex :=
  env.ancestors.head?

/-- How the scripts of a block are verified. -/
def scriptEnv (env : ConnectEnv) (block : CBlock) (pindex : CBlockIndex) : ScriptEnv where
  flags :=
    { p2sh := 1333238400 ≤ pindex.nTime
      checkLockTimeVerify := true
      derSig :=
        CBlockHeader.version3 ≤ block.nVersion &&
          isSuperMajority env.context.params CBlockHeader.version3 env.ancestors
            env.context.params.nEnforceBlockUpgradeMajority }
  fScriptChecks := env.totalBlocksEstimate ≤ pindex.nHeight
  nScriptCheckThreads := env.nScriptCheckThreads
  verifyScript := env.verifyScript

end ConnectEnv

/-- The records that `ConnectBlock` is given. -/
structure ConnectWorld where
  checks : CheckState
  view : CCoinsViewCache
  pindex : CBlockIndex
  txIndex : Uint256 → Option CDiskTxPos

/-- The records together with the local variables of `ConnectBlock`. -/
structure ConnectState extends ConnectWorld where
  nSigOps : Nat
  nFees : Int
  nValueIn : Int
  nValueOut : Int
  /-- The queued script checks that have not failed, `control.Wait`. -/
  control : Bool
  vSpends : List (CBigNum × Uint256)
  vtxundo : List CTxUndo
  vPos : List (Uint256 × CDiskTxPos)
  nTxOffset : Nat
  mapAccumulators : CoinDenomination → CBigNum

namespace ConnectState

/-- The local variables as they are at the start. -/
def start (env : ConnectEnv) (block : CBlock) (world : ConnectWorld) : ConnectState :=
  { world with
    nSigOps := 0
    nFees := 0
    nValueIn := 0
    nValueOut := 0
    control := true
    vSpends := []
    vtxundo := []
    vPos := []
    nTxOffset := CTransaction.compactSize block.vtx.length
    mapAccumulators := env.initialAccumulators }

/-- Change the validation state and what belongs to it. -/
def onChecks (change : CheckState → CheckState) (state : ConnectState) : ConnectState :=
  { state with checks := change state.checks }

/-- `state.DoS`. -/
def dos (level : Int) (code : Nat) (reason : String) (state : ConnectState) :
    ConnectState :=
  state.onChecks (CheckState.dos level code reason)

end ConnectState

section Stages

variable (env : ConnectEnv) (block : CBlock)

/-- `CheckBlock`, unless the block was checked before. -/
def checkBlockStage (fJustCheck fAlreadyChecked : Bool) : Stage ConnectState :=
  Stage.when (!fAlreadyChecked) (Stage.require (fun state =>
    let outcome := checkBlock env.context env.node (!fJustCheck) block state.checks
    (outcome.1, { state with checks := outcome.2 })) id)

/-- More transactions than the spork allows.  The comparison is unsigned: a
negative spork value wraps around. -/
def tooManyTransactions (state : ConnectState) : Bool :=
  env.node.sporks .limitBlockTx ≤ state.pindex.nHeight &&
    (env.node.sporks .blockTxValue + 2) % 2 ^ 64 < block.vtx.length

/-- Some transaction would overwrite one that has unspent outputs. -/
def overwritesCoins (state : ConnectState) : Bool :=
  block.vtx.any fun tx =>
    (state.view.accessCoins tx.hash).any fun coins => !coins.isPruned

/-- The stages up to the transactions. -/
def connectChecks (fJustCheck fAlreadyChecked : Bool) : List (Stage ConnectState) :=
  [ checkBlockStage env block fJustCheck fAlreadyChecked,
    Stage.assert fun state =>
      (env.pprev.elim 0 CBlockIndex.hash) == state.view.toView.getBestBlock,
    Stage.acceptIf (fun _ => block.hash == env.context.params.hashGenesisBlock)
      (fun state => { state with view := state.view.setBestBlock state.pindex.hash }),
    Stage.rejectIf (fun state =>
        env.context.params.nLastPOWBlock < state.pindex.nHeight && block.isProofOfWork)
      (ConnectState.dos 100 rejectInvalid "PoW-ended"),
    Stage.rejectIf (tooManyTransactions env block)
      (ConnectState.dos 0 rejectInvalid "spork-restriction"),
    Stage.rejectIf (overwritesCoins block)
      (ConnectState.dos 100 rejectInvalid "bad-txns-BIP30") ]

def contextualCheckCoinSpend (db : CZerocoinDB) (nHeight : Int) (spend : CoinSpend) :
    Bool :=
  (nHeight < env.context.params.nBlockEnforceSerialRange ||
    env.hasValidSerial spend.coinSerialNumber) &&
  match env.chain.isSerialInBlockchain db spend.coinSerialNumber with
  | none => true
  | some nHeightTxSpend => env.fVerifyingBlocks && !(nHeightTxSpend < nHeight)

/-- One zerocoin input: its value is counted, and its serial is queued. -/
def connectSpend (tx : CTransaction) (txin : CTxIn) : Stage ConnectState := fun state =>
  match env.context.lib.txInToZerocoinSpend txin with
  | none => (some .abort, state)
  | some spend =>
    let counted :=
      { state with nValueIn := state.nValueIn + spend.denomination.toAmount }
    if contextualCheckCoinSpend env counted.checks.zerocoinDB counted.pindex.nHeight
        spend then
      (none,
        { counted with
          vSpends := counted.vSpends ++ [(spend.coinSerialNumber, tx.hash)] })
    else (some .reject, counted.dos 100 0 "")

/-- The transaction is already in the chain; while blocks are verified at start,
its own block does not count. -/
def alreadyInChain (tx : CTransaction) (state : ConnectState) : Bool :=
  match env.chain.isTransactionInChain tx.hash with
  | none => false
  | some nHeightTx => !env.fVerifyingBlocks || nHeightTx < state.pindex.nHeight

/-- The stages of a zerocoin spend. -/
def zerocoinSpendStages (tx : CTransaction) : List (Stage ConnectState) :=
  [ Stage.rejectIf (alreadyInChain env tx)
      (ConnectState.dos 100 rejectInvalid "bad-txns-inputs-missingorspent"),
    Stage.forEach (connectSpend env tx) tx.zerocoinSpendInputs ]

/-- Too many signature operations so far. -/
def rejectSigOps : Stage ConnectState :=
  Stage.rejectIf (fun state => maxBlockSigOpsCurrent < state.nSigOps)
    (ConnectState.dos 100 rejectInvalid "bad-blk-sigops")

/-- Count the signature operations of pay-to-script-hash inputs. -/
def addP2SHSigOps (tx : CTransaction) : Stage ConnectState := fun state =>
  match state.view.getP2SHSigOpCount tx with
  | none => (some .assertFails, state)
  | some n => (none, { state with nSigOps := state.nSigOps + n })

/-- Count the value of the inputs, and the fee unless it is a coinstake. -/
def addValueIn (tx : CTransaction) : Stage ConnectState := fun state =>
  match state.view.getValueIn tx with
  | none => (some .assertFails, state)
  | some nTxValueIn =>
    let counted := { state with nValueIn := state.nValueIn + nTxValueIn }
    if tx.isCoinStake then (none, counted)
    else
      match tx.getValueOut with
      | none => (some .abort, state)
      | some nTxValueOut =>
        (none, { counted with nFees := counted.nFees + (nTxValueIn - nTxValueOut) })

/-- `CheckInputs`; the checks it queues are added to those of the block at the end
of the transaction. -/
def checkInputsStage (tx : CTransaction) : Stage ConnectState := fun state =>
  match checkInputs env.context.params (env.scriptEnv block state.pindex)
      (env.pprev.elim 0 fun prev => prev.nHeight + 1) tx state.view state.checks with
  | ((exit, checked), vChecks) =>
    (exit, { state with checks := checked, control := state.control && vChecks.all id })

/-- The fee is below the minimum that the sporks ask for; the value of the outputs
is computed for a coinstake as well, and throws. -/
def minFeeStage (tx : CTransaction) : Stage ConnectState := fun state =>
  match state.view.getValueIn tx, tx.getValueOut with
  | some nTxValueIn, some nTxValueOut =>
    if !tx.isCoinStake && env.node.sporks .enforceMinTxFee ≤ state.pindex.nHeight &&
        nTxValueIn - nTxValueOut < env.node.sporks .txFeeValue * coin then
      (some .reject, state.dos 0 rejectInvalid "spork-restriction")
    else (none, state)
  | none, _ => (some .assertFails, state)
  | _, none => (some .abort, state)

/-- The stages of a transaction that spends coins. -/
def coinSpendStages (tx : CTransaction) : List (Stage ConnectState) :=
  [ Stage.rejectIf (fun state => !state.view.haveInputs tx)
      (ConnectState.dos 100 rejectInvalid "bad-txns-inputs-missingorspent"),
    Stage.rejectIf (fun state => tx.vin.any fun txin =>
        !validOutPoint env.context.params env.fraud txin.prevout state.pindex.nHeight)
      (ConnectState.dos 100 rejectInvalid "bad-txns-invalid-inputs"),
    addP2SHSigOps tx,
    rejectSigOps,
    addValueIn tx,
    checkInputsStage env block tx,
    minFeeStage env tx ]

/-- Zerocoin transactions are in maintenance. -/
def inMaintenance (tx : CTransaction) : Bool :=
  env.node.sporks .zerocoinMaintenanceMode < block.nTime &&
    !env.node.isInitialBlockDownload && tx.containsZerocoins

/-- Count the value of the outputs. -/
def addValueOut (tx : CTransaction) : Stage ConnectState := fun state =>
  match tx.getValueOut with
  | none => (some .abort, state)
  | some nTxValueOut => (none, { state with nValueOut := state.nValueOut + nTxValueOut })

/-- `UpdateCoins`, and the position of the transaction.  The undo record of the
first transaction is dropped. -/
def applyTransaction (tx : CTransaction) : Stage ConnectState := fun state =>
  match CCoinsViewCache.updateCoins tx state.view state.pindex.nHeight with
  | none => (some .assertFails, state)
  | some (txundo, updated) =>
    (none,
      { state with
        view := updated
        vtxundo := if state.vPos.isEmpty then [] else state.vtxundo ++ [txundo]
        vPos := state.vPos ++
          [(tx.hash, { hashBlock := state.pindex.hash, nTxOffset := state.nTxOffset })]
        nTxOffset := state.nTxOffset + tx.getSerializeSize })

/-- The body of the loop over the transactions. -/
def connectTransaction (tx : CTransaction) : Stage ConnectState :=
  Stage.sequence
    [ Stage.update fun state =>
        { state with nSigOps := state.nSigOps + tx.getLegacySigOpCount },
      rejectSigOps,
      Stage.rejectIf (fun _ => inMaintenance env block tx) (ConnectState.dos 100 0 ""),
      if tx.isZerocoinSpend then Stage.sequence (zerocoinSpendStages env tx)
      else Stage.when (!tx.isCoinBase) (Stage.sequence (coinSpendStages env block tx)),
      addValueOut tx,
      applyTransaction tx ]

/-- The loop over the transactions. -/
def connectTransactions : Stage ConnectState :=
  Stage.forEach (connectTransaction env block) block.vtx

/-- `UpdateZPIVSupply` of the index entry. -/
def updateSupply : Stage ConnectState :=
  Stage.require (fun state =>
    let outcome := updateZPIVSupply env.context.params env.context.lib env.fraud block
      env.pprev state.pindex
    (outcome.1, { state with pindex := outcome.2 })) (ConnectState.dos 100 rejectInvalid "")

/-- Record the money supply and the amount minted in the index entry. -/
def trackMoneySupply (state : ConnectState) : ConnectState :=
  let nMoneySupplyPrev := env.pprev.elim 0 CBlockIndex.nMoneySupply
  let nMoneySupply := nMoneySupplyPrev + state.nValueOut - state.nValueIn
  { state with
    pindex :=
      { state.pindex with
        nMoneySupply := nMoneySupply
        nMint := nMoneySupply - nMoneySupplyPrev + state.nFees } }

/-- Keep the block for later, when the payments that it makes are refused. -/
def rejectPayee (state : ConnectState) : ConnectState :=
  (state.onChecks (CheckState.insertRejectedBlock block.hash env.node.time)).dos 0
    rejectInvalid "bad-cb-payee"

/-- `IsBlockPayeeValid` fails, outside initial block download. -/
def payeeRefused (state : ConnectState) : Bool :=
  !env.node.isInitialBlockDownload &&
    !isBlockPayeeValid env.context.params env.payments env.masternodes env.node block
      state.pindex.nHeight state.nFees env.ancestors

/-- `IsBlockValueValid` fails. -/
def valueRefused (state : ConnectState) : Bool :=
  !isBlockValueValid env.context.params env.masternodes env.node state.pindex.nHeight
    (state.nFees + getBlockExpectedMint env.context.params state.pindex.nHeight)
    state.pindex.nMint env.ancestors

/-- `ValidateAccumulatorCheckpoint`: the accumulators it leaves, `none` where it
fails. -/
def validateAccumulatorCheckpoint (nHeight : Int) :
    Option (CoinDenomination → CBigNum) :=
  if env.fVerifyingBlocks then some env.initialAccumulators
  else if env.context.params.zerocoinStartHeight ≤ nHeight && nHeight.tmod 10 == 0 then
    match env.calculateAccumulatorCheckpoint nHeight with
    | none => none
    | some (nCheckpointCalculated, mapAccumulators) =>
      if nCheckpointCalculated = block.nAccumulatorCheckpoint then some mapAccumulators
      else none
  else if env.pprev.map CBlockIndex.nAccumulatorCheckpoint =
      some block.nAccumulatorCheckpoint then some env.initialAccumulators
  else none

/-- The check of the accumulator checkpoint. -/
def accumulatorStage : Stage ConnectState := fun state =>
  match validateAccumulatorCheckpoint env block state.pindex.nHeight with
  | none => (some .reject, state.dos 100 rejectInvalid "bad-acc-checkpoint")
  | some mapAccumulators => (none, { state with mapAccumulators := mapAccumulators })

/-- The stages from the supply to the results of the script checks. -/
def connectRewards : List (Stage ConnectState) :=
  [ updateSupply env block,
    Stage.update (trackMoneySupply env),
    Stage.rejectIf (payeeRefused env block) (rejectPayee env block),
    Stage.rejectIf (valueRefused env) (ConnectState.dos 100 rejectInvalid "bad-cb-amount"),
    accumulatorStage env block,
    Stage.rejectIf (fun state => !state.control) (ConnectState.dos 100 0 "") ]

/-- `RaiseValidity` of the index entry. -/
def raiseScripts (state : ConnectState) : ConnectState :=
  { state with
    pindex :=
      { state.pindex with
        nStatus := state.pindex.nStatus.raiseValidity blockValidScripts } }

/-- Write the undo data, unless the entry has it already. -/
def writeUndo : Stage ConnectState := fun state =>
  let fail (reason : String) := state.onChecks fun checks =>
    { checks with state := checks.state.error reason }
  if state.pindex.nStatus.haveUndo then (none, raiseScripts state)
  else
    match env.findUndoPos with
    | none => (some .reject, fail "out of disk space")
    | some nPos =>
      if !env.undoWritten then (some .reject, fail "Failed to write undo data")
      else
        (none,
          raiseScripts
            { state with
              pindex :=
                { state.pindex with
                  nUndoPos := nPos
                  nStatus := { state.pindex.nStatus with haveUndo := true } } })

/-- Change the zerocoin database. -/
def onZerocoinDB (change : CZerocoinDB → CZerocoinDB) (state : ConnectState) :
    ConnectState :=
  state.onChecks fun checks => { checks with zerocoinDB := change checks.zerocoinDB }

/-- Record the serials that the block spends. -/
def recordSpends (state : ConnectState) : ConnectState :=
  onZerocoinDB (fun db => state.vSpends.foldl (fun current spend =>
    current.writeCoinSpend spend.1 spend.2) db) state

def databaseChecksums (state : ConnectState) : ConnectState :=
  onZerocoinDB (fun db =>
    CoinDenomination.zerocoinDenomList.foldl (fun current denomination =>
      let bnValue := state.mapAccumulators denomination
      current.writeAccumulatorValue (env.getChecksum bnValue) bnValue) db) state

def writeTxIndex (state : ConnectState) : ConnectState :=
  { state with
    txIndex := state.vPos.foldl (fun current entry =>
      Function.update current entry.1 (some entry.2)) state.txIndex }

/-- The stages that write to disk.  A database that cannot be written throws. -/
def connectWrites : List (Stage ConnectState) :=
  [ writeUndo env,
    Stage.update recordSpends,
    Stage.update (databaseChecksums env),
    Stage.when env.fTxIndex (Stage.update writeTxIndex),
    Stage.update fun state =>
      { state with view := state.view.setBestBlock state.pindex.hash } ]

def connectBlock (fJustCheck fAlreadyChecked : Bool) (world : ConnectWorld) :
    Exit × ConnectState :=
  Stage.run
    (connectChecks env block fJustCheck fAlreadyChecked ++
      connectTransactions env block ::
      (connectRewards env block ++
        Stage.acceptIf (fun _ => fJustCheck) id :: connectWrites env))
    (ConnectState.start env block world)

end Stages

end ColossusCoin
