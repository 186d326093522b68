import ColossusCoin.Validation.ConnectBlock

/-!
# The inputs of a coinstake in `AcceptBlock`

The part of `AcceptBlock` that only proof-of-stake blocks go through.  It looks for the
inputs of the coinstake among the other transactions of the block; on a fork it walks the
blocks back from the parent to the active chain, and compares what it finds there; and it
looks the inputs up in the coins at the tip.
-/

namespace ColossusCoin

/-- What the stage reads. -/
structure StakeStageEnv where
  /-- Parameters, sporks and lookups, and the ancestors of the block from its parent on. -/
  connect : ConnectEnv
  zerocoinDB : CZerocoinDB
  pcoinsTip : CCoinsViewCache
  /-- `chainActive`, from its tip down. -/
  chainActive : List CBlockIndex
  readBlockFromDisk : Uint256 → Option CBlock

namespace StakeStageEnv

/-- `chainActive.Contains`. -/
def contains (env : StakeStageEnv) (index : CBlockIndex) : Bool :=
  env.chainActive.any fun active => active.hash == index.hash

/-- The parent is not the tip of the active chain. -/
def isBlockFromFork (env : StakeStageEnv) : Bool :=
  match env.connect.ancestors with
  | [] => false
  | pindexPrev :: _ => env.chainActive.head?.map CBlockIndex.hash != some pindexPrev.hash

/-- `GetSporkValue` of `SPORK_19_MAX_REORGANIZATION_DEPTH`. -/
def nMaxReorganizationDepth (env : StakeStageEnv) : Int :=
  env.connect.node.sporks .maxReorganizationDepth

end StakeStageEnv

namespace CTransaction

/-- The inputs that do not spend zerocoins, `pivInputs`. -/
def pivInputs (tx : CTransaction) : List CTxIn :=
  tx.vin.filter fun txin => !txin.scriptSig.isZerocoinSpend

/-- The inputs that spend zerocoins, `zPIVInputs`. -/
def zPIVInputs (tx : CTransaction) : List CTxIn :=
  tx.vin.filter fun txin => txin.scriptSig.isZerocoinSpend

end CTransaction

/-- `state.DoS` of degree 100. -/
def stakeDoS (state : CValidationState) : CValidationState :=
  state.dos 100

section Stage

variable (env : StakeStageEnv) (stakeTxIn : CTransaction)

/-- The loop over the inputs of the block, each with its transaction: a serial that is
spent twice, or an input of the coinstake that another transaction spends. -/
def inBlockInputs (nHeight : Int) :
    List (CTransaction × CTxIn) → List CBigNum → Stage CValidationState
  | [], _, state => (none, state)
  | (tx, txin) :: rest, inBlockSerials, state =>
    let restOf (serials : List CBigNum) : Option Exit × CValidationState :=
      if !tx.isCoinStake &&
          stakeTxIn.pivInputs.any fun pivIn => pivIn.prevout == txin.prevout then
        (some .reject, state)
      else inBlockInputs nHeight rest serials state
    if env.connect.context.params.zerocoinStartHeight ≤ nHeight &&
        txin.scriptSig.isZerocoinSpend then
      match env.connect.context.lib.txInToZerocoinSpend txin with
      | none => (some .abort, state)
      | some spend =>
        if inBlockSerials.contains spend.coinSerialNumber then
          (some .reject, stakeDoS state)
        else restOf (inBlockSerials ++ [spend.coinSerialNumber])
    else restOf inBlockSerials

/-- The inputs of a block, each with its transaction. -/
def CBlock.inputs (block : CBlock) : List (CTransaction × CTxIn) :=
  block.vtx.flatMap fun tx => tx.vin.map fun txin => (tx, txin)

/-- The loop over the inputs of the coinstake for one input of a block of the branch, with
the serials stored so far. -/
def walkInput (txin : CTxIn) :
    List CTxIn → List CBigNum → CValidationState →
      (Option Exit × CValidationState) × List CBigNum
  | [], vBlockSerials, state => ((none, state), vBlockSerials)
  | stakeIn :: rest, vBlockSerials, state =>
    if stakeIn.prevout = txin.prevout then
      ((some .reject, stakeDoS state), vBlockSerials)
    else if txin.scriptSig.isZerocoinSpend then
      match env.connect.context.lib.txInToZerocoinSpend txin with
      | none => ((some .abort, state), vBlockSerials)
      | some spend =>
        walkInput txin rest (vBlockSerials ++ [spend.coinSerialNumber]) state
    else walkInput txin rest vBlockSerials state

/-- The loop over the inputs of a block of the branch. -/
def walkInputs (pivInputs : List CTxIn) :
    List CTxIn → List CBigNum → CValidationState →
      (Option Exit × CValidationState) × List CBigNum
  | [], vBlockSerials, state => ((none, state), vBlockSerials)
  | txin :: rest, vBlockSerials, state =>
    match walkInput env txin pivInputs vBlockSerials state with
    | ((some exit, failed), serials) => ((some exit, failed), serials)
    | ((none, passed), serials) => walkInputs pivInputs rest serials passed

/-- The walk from the parent back to the active chain, with the serials that it stores and
the height at which it ends.  The first block is read in any case. -/
def walkBranch (pivInputs : List CTxIn) :
    List CBlockIndex → Nat → List CBigNum → CValidationState →
      (Option Exit × CValidationState) × List CBigNum × Int
  | [], _, vBlockSerials, state => ((some .assertFails, state), vBlockSerials, -1)
  | prev :: below, readBlock, vBlockSerials, state =>
    if env.nMaxReorganizationDepth ≤ readBlock then
      ((some .reject, state), vBlockSerials, -1)
    else
      match env.readBlockFromDisk prev.hash with
      | none => ((some .reject, state), vBlockSerials, -1)
      | some bl =>
        match walkInputs env pivInputs (bl.vtx.flatMap CTransaction.vin) vBlockSerials
            state with
        | ((some exit, failed), serials) => ((some exit, failed), serials, -1)
        | ((none, passed), serials) =>
          match below with
          -- `Contains` reads the height through a null pointer.
          | [] => ((some .assertFails, passed), serials, -1)
          | split :: _ =>
            if env.contains split then ((none, passed), serials, split.nHeight)
            else walkBranch pivInputs below (readBlock + 1) serials passed

/-- `ContextualCheckCoinSpend`, called with `fSkipSerialCheck`. -/
def serialInRange (nHeight : Int) (spend : CoinSpend) : Bool :=
  nHeight < env.connect.context.params.nBlockEnforceSerialRange ||
    env.connect.hasValidSerial spend.coinSerialNumber

/-- A zerocoin input of the coinstake on a fork. -/
def forkSpend (nHeight : Int) (vBlockSerials : List CBigNum) (splitHeight : Int)
    (zPivInput : CTxIn) : Stage CValidationState := fun state =>
  match env.connect.context.lib.txInToZerocoinSpend zPivInput with
  | none => (some .abort, state)
  | some spend =>
    let fail := (some Exit.reject, stakeDoS state)
    if vBlockSerials.contains spend.coinSerialNumber then fail
    else if (env.connect.chain.isSerialInBlockchain env.zerocoinDB
        spend.coinSerialNumber).any fun nHeightTx => nHeightTx ≤ splitHeight then fail
    else if !serialInRange env nHeight spend then
      (some .reject, state.dos 100 rejectInvalid "bad-txns-invalid-zpiv")
    else
      match env.zerocoinDB.accumulators spend.accChecksum with
      | none => fail
      | some bnAccumulatorValue =>
        if env.connect.context.lib.verify zPivInput bnAccumulatorValue then (none, state)
        else fail

/-- The checks of a block on a fork, with the height at which the fork splits. -/
def forkStage (nHeight : Int) (state : CValidationState) :
    (Option Exit × CValidationState) × Int :=
  match walkBranch env stakeTxIn.pivInputs env.connect.ancestors 0 [] state with
  | ((some exit, failed), _, splitHeight) => ((some exit, failed), splitHeight)
  | ((none, passed), vBlockSerials, splitHeight) =>
    (Stage.forEach (forkSpend env nHeight vBlockSerials splitHeight) stakeTxIn.zPIVInputs
      passed, splitHeight)

/-- An input of the coinstake in the coins at the tip. -/
def tipInput (isBlockFromFork : Bool) (splitHeight : Int) (txin : CTxIn) :
    Stage CValidationState := fun state =>
  match env.pcoinsTip.accessCoins txin.prevout.hash with
  | none => if isBlockFromFork then (none, state) else (some .reject, state)
  | some coins =>
    if !coins.isAvailable txin.prevout.n &&
        !(isBlockFromFork && splitHeight < coins.nHeight) then
      (some .reject, state)
    else (none, state)

/-- A zerocoin input of a coinstake on the tip. -/
def tipSpend (nHeight : Int) (zPivInput : CTxIn) : Stage CValidationState := fun state =>
  match env.connect.context.lib.txInToZerocoinSpend zPivInput with
  | none => (some .abort, state)
  | some spend =>
    if contextualCheckCoinSpend env.connect env.zerocoinDB nHeight spend then (none, state)
    else (some .reject, state.dos 100 rejectInvalid "bad-txns-invalid-zpiv")

/-- The checks against the active chain. -/
def tipStage (nHeight : Int) (isBlockFromFork : Bool) (splitHeight : Int) :
    Stage CValidationState :=
  if !stakeTxIn.isZerocoinSpend then
    Stage.forEach (tipInput env isBlockFromFork splitHeight) stakeTxIn.vin
  else Stage.when (!isBlockFromFork) (Stage.forEach (tipSpend env nHeight) stakeTxIn.zPIVInputs)

/-- The stage of `AcceptBlock` for proof-of-stake blocks, at the height of the block. -/
def stakeStage (block : CBlock) (nHeight : Int) : Stage CValidationState := fun state =>
  match block.vtx with
  | _ :: stakeTxIn :: _ =>
    if !block.isProofOfStake then (none, state)
    else
      match inBlockInputs env stakeTxIn nHeight block.inputs [] state with
      | (some exit, failed) => (some exit, failed)
      | (none, passed) =>
        if env.isBlockFromFork then
          match forkStage env stakeTxIn nHeight passed with
          | ((some exit, failed), _) => (some exit, failed)
          | ((none, checked), splitHeight) =>
            tipStage env stakeTxIn nHeight true splitHeight checked
        else tipStage env stakeTxIn nHeight false (-1) passed
  | _ => (none, state)

end Stage

end ColossusCoin
