import ColossusCoin.Validation.TransactionLookup

/-!
# Admission to the memory pool

`AcceptToMemoryPool`, stage by stage.  The pool does not change before the last step,
so the stages read it as it was.  The standardness of transactions, the rules for free
transactions with their priorities and their rate limit, and the script interpreter
are parameters.
-/

namespace ColossusCoin

def maxTxSigOpsCurrent : Nat := maxBlockSigOpsCurrent / 5

def rejectDuplicate : Nat := 0x12

/-- What a node brings to the admission of a transaction. -/
structure MempoolEnv where
  /-- The environment in which the next block would be connected. -/
  connect : ConnectEnv
  bans : BanList
  addresses : AddressLib
  store : TransactionStore
  /-- `chainActive.Height()`. -/
  chainHeight : Int
  /-- The height of a block of the active chain. -/
  activeHeight : Uint256 → Option Int
  /-- `RequireStandard`. -/
  requireStandard : Bool
  /-- `IsStandardTx`: the reason why a transaction is not standard. -/
  nonstandardReason : CTransaction → Option String
  /-- `AreInputsStandard`. -/
  areInputsStandard : CTransaction → CCoinsViewCache → Bool
  /-- The fee that a transaction has to pay beside the sporks, given what it pays: the
  reject code and the reason. -/
  feePolicy : CTransaction → Int → Option (Nat × String)
  /-- The fee is to be rejected as insane. -/
  insaneFee : CTransaction → Int → Bool
  /-- `CScriptCheck` of an input under the standard flags. -/
  verifyStandard : CTransaction → Nat → CCoins → Option String
  /-- The interpreter knows no instruction `OP_ZEROCOINSPEND`: a script that starts
  with it fails. -/
  verifyStandard_isSome : ∀ (tx : CTransaction) (i : Nat) (coins : CCoins) (txin : CTxIn),
    tx.vin[i]? = some txin → txin.scriptSig.isZerocoinSpend = true →
      (verifyStandard tx i coins).isSome

namespace MempoolEnv

/-- How transactions are looked up with a pool. -/
def chainLookup (env : MempoolEnv) (pool : CTxMemPool) : ChainLookup where
  getTransaction := fun hash => getTransaction env.store pool hash true
  activeHeight := env.activeHeight

/-- How the scripts of a transaction are verified, under the standard flags or under
the mandatory ones. -/
def scriptEnv (env : MempoolEnv) (standard : Bool) : ScriptEnv where
  flags := { p2sh := true, derSig := standard, checkLockTimeVerify := standard }
  fScriptChecks := true
  nScriptCheckThreads := false
  verifyScript := fun flags =>
    if flags.anyNotMandatory then env.verifyStandard else env.connect.verifyScript flags

end MempoolEnv

/-- `GetCoins` of a `CCoinsViewMemPool` over the coins at the tip. -/
def memPoolCoins (store : TransactionStore) (pool : CTxMemPool) (txid : Uint256) :
    Option CCoins :=
  match pool.lookup txid with
  | some tx => some (CCoins.fromTx tx mempoolHeight)
  | none => (store.pcoinsTip.accessCoins txid).filter fun coins => !coins.isPruned

/-- The entries that a cache fetches for transactions. -/
def fetchCoins (coinsOf : Uint256 → Option CCoins) : List Uint256 → CCoinsMap
  | [] => ∅
  | txid :: rest =>
    match coinsOf txid with
    | none => fetchCoins coinsOf rest
    | some coins =>
      (fetchCoins coinsOf rest).insert txid (CCoinsView.fetchedEntry coins)

/-- The view on which a transaction is checked: the coins of its inputs, over the empty
view. -/
def memPoolView (store : TransactionStore) (pool : CTxMemPool) (tx : CTransaction) :
    CCoinsViewCache where
  cacheCoins := fetchCoins (memPoolCoins store pool) (tx.prevouts.map COutPoint.hash)
  hashBlock := store.pcoinsTip.toView.getBestBlock
  base := .db ∅ 0

/-- What the checks of an admission write: the records of `CheckTransaction`, the value
of the inputs, and whether an input was missing. -/
structure AdmissionState where
  checks : CheckState
  nValueIn : Int
  fMissingInputs : Bool

namespace AdmissionState

/-- `state.DoS`. -/
def dos (level : Int) (code : Nat) (reason : String) (state : AdmissionState) :
    AdmissionState :=
  { state with checks := state.checks.dos level code reason }

/-- `state.Invalid`. -/
def invalid (code : Nat) (reason : String) (state : AdmissionState) : AdmissionState :=
  state.dos 0 code reason

end AdmissionState

section Stages

variable (env : MempoolEnv) (pool : CTxMemPool) (tx : CTransaction)

/-- Zerocoin transactions are in maintenance. -/
def admissionInMaintenance : Bool :=
  env.connect.node.sporks .zerocoinMaintenanceMode < env.connect.node.adjustedTime &&
    tx.containsZerocoins

/-- `CheckTransaction`. -/
def admissionCheckTransaction : Stage AdmissionState :=
  Stage.require (fun state =>
    let outcome := checkTransaction env.connect.context.params env.connect.context.lib
      env.connect.node.fVerifySignature
      (env.connect.context.params.zerocoinStartHeight ≤ env.chainHeight) tx state.checks
    (outcome.1, { state with checks := outcome.2 }))
    (AdmissionState.dos 100 rejectInvalid "bad-tx")

/-- The transaction has to be standard. -/
def requireStandardTx : Stage AdmissionState := fun state =>
  match if env.requireStandard then env.nonstandardReason tx else none with
  | none => (none, state)
  | some reason => (some .reject, state.dos 0 rejectNonstandard reason)

/-- Some input spends an output of a banned address. -/
def admissionBanned : Bool :=
  (env.bans.mempoolBanActive || env.bans.consensusBanActive) &&
    env.addresses.bannedScan
      (fun hash => (getTransaction env.store pool hash true).map Prod.fst)
      (fun addr =>
        env.bans.mempoolBanned addr || env.bans.consensusBanned env.chainHeight addr) tx.vin

/-- An input is spent by a transaction of the pool; zerocoin spends are not asked. -/
def conflictsWithPool : Bool :=
  !tx.isZerocoinSpend && tx.prevouts.any fun outpoint => (pool.mapNextTx outpoint).isSome

/-- `GetZerocoinSpent`: the value of the zerocoins that the inputs spend. -/
def addZerocoinSpent : Stage AdmissionState := fun state =>
  match tx.vin.mapM env.connect.context.lib.txInToZerocoinSpend with
  | none => (some .abort, state)
  | some spends =>
    (none,
      { state with nValueIn := (spends.map fun spend => spend.denomination.toAmount).sum })

/-- A zerocoin input: its serial must not be in the chain. -/
def admissionCoinSpend (txin : CTxIn) : Stage AdmissionState := fun state =>
  match env.connect.context.lib.txInToZerocoinSpend txin with
  | none => (some .abort, state)
  | some spend =>
    if contextualCheckCoinSpend { env.connect with chain := env.chainLookup pool }
        state.checks.zerocoinDB env.chainHeight spend then
      (none, state)
    else (some .reject, state.invalid 0 "")

/-- The stages of a zerocoin spend. -/
def admissionSpendStages : List (Stage AdmissionState) :=
  [ addZerocoinSpent env tx,
    Stage.rejectIf (fun _ => ((env.chainLookup pool).isTransactionInChain tx.hash).isSome)
      (AdmissionState.invalid rejectDuplicate "bad-txns-inputs-spent"),
    Stage.forEach (admissionCoinSpend env pool) tx.zerocoinSpendInputs ]

/-- `HaveCoins` of the view over the pool. -/
def memPoolHaveCoins (txid : Uint256) : Bool :=
  (memPoolCoins env.store pool txid).any fun coins => !coins.vout.isEmpty

/-- An input has coins, and is not known to be invalid. -/
def admissionInput (txin : CTxIn) : Stage AdmissionState :=
  Stage.sequence
    [ Stage.rejectIf (fun _ => !memPoolHaveCoins env pool txin.prevout.hash)
        (fun state => { state with fMissingInputs := true }),
      Stage.rejectIf (fun _ =>
          !validOutPoint env.connect.context.params env.connect.fraud txin.prevout
            env.chainHeight)
        (AdmissionState.invalid rejectInvalid "bad-txns-invalid-inputs") ]

/-- `GetValueIn`. -/
def admissionValueIn : Stage AdmissionState := fun state =>
  match (memPoolView env.store pool tx).getValueIn tx with
  | none => (some .assertFails, state)
  | some nValueIn => (none, { state with nValueIn := nValueIn })

/-- The stages of a transaction that spends coins. -/
def admissionCoinStages : List (Stage AdmissionState) :=
  [ Stage.rejectIf (fun _ => memPoolHaveCoins env pool tx.hash) id,
    Stage.forEach (admissionInput env pool) tx.vin,
    Stage.rejectIf (fun _ => !(memPoolView env.store pool tx).haveInputs tx)
      (AdmissionState.invalid rejectDuplicate "bad-txns-inputs-spent"),
    admissionValueIn env pool tx ]

/-- The signature operations of a transaction that spends coins. -/
def admissionSigOps : Stage AdmissionState := fun state =>
  match (memPoolView env.store pool tx).getP2SHSigOpCount tx with
  | none => (some .assertFails, state)
  | some nP2SH =>
    if maxTxSigOpsCurrent < tx.getLegacySigOpCount + nP2SH then
      (some .reject, state.dos 0 rejectNonstandard "bad-txns-too-many-sigops")
    else (none, state)

/-- The rules for the fee. -/
def admissionFee : Stage AdmissionState := fun state =>
  match tx.getValueOut with
  | none => (some .abort, state)
  | some nValueOut =>
    let nFees := state.nValueIn - nValueOut
    if !tx.isZerocoinSpend &&
        env.connect.node.sporks .enforceMinTxFee ≤ env.chainHeight &&
        nFees < env.connect.node.sporks .txFeeValue * coin then
      (some .reject, state)
    else
      match env.feePolicy tx nFees with
      | some (code, reason) => (some .reject, state.dos 0 code reason)
      | none => if env.insaneFee tx nFees then (some .reject, state) else (none, state)

/-- `CheckInputs`, with its scripts verified at once. -/
def admissionCheckInputs (standard : Bool) : Stage AdmissionState := fun state =>
  match checkInputs env.connect.context.params (env.scriptEnv standard)
      (env.chainHeight + 1) tx (memPoolView env.store pool tx) state.checks with
  | ((exit, checked), _) => (exit, { state with checks := checked })

/-- The stages of `AcceptToMemoryPool`. -/
def admissionStages : List (Stage AdmissionState) :=
  [ Stage.rejectIf (fun _ => admissionInMaintenance env tx)
      (AdmissionState.dos 10 rejectInvalid "bad-tx"),
    admissionCheckTransaction env tx,
    Stage.rejectIf (fun _ => tx.isCoinBase)
      (AdmissionState.dos 100 rejectInvalid "coinbase"),
    Stage.rejectIf (fun _ => tx.isCoinStake)
      (AdmissionState.dos 100 rejectInvalid "coinstake"),
    requireStandardTx env tx,
    Stage.rejectIf (fun _ => pool.contains tx.hash) id,
    Stage.rejectIf (fun _ => conflictsWithLock env.connect.node tx)
      (AdmissionState.dos 0 rejectInvalid "tx-lock-conflict"),
    Stage.rejectIf (fun _ => admissionBanned env pool tx) id,
    Stage.rejectIf (fun _ => conflictsWithPool pool tx) id,
    Stage.sequence
      (if tx.isZerocoinSpend then admissionSpendStages env pool tx
      else admissionCoinStages env pool tx),
    Stage.rejectIf (fun _ =>
        env.requireStandard && !env.areInputsStandard tx (memPoolView env.store pool tx)) id,
    Stage.when (!tx.isZerocoinSpend) (admissionSigOps env pool tx),
    admissionFee env tx,
    admissionCheckInputs env pool tx true,
    admissionCheckInputs env pool tx false ]

/-- `AcceptToMemoryPool`: how it ends, what its checks leave, and the pool. -/
def acceptToMemoryPool (nTime : Int) (checks : CheckState) :
    (Exit × AdmissionState) × CTxMemPool :=
  let outcome := Stage.run (admissionStages env pool tx)
    { checks := checks, nValueIn := 0, fMissingInputs := false }
  (outcome,
    if outcome.1 = .accept then
      pool.addUnchecked tx.hash
        (.ofTx tx (outcome.2.nValueIn - tx.valueOutSum) nTime env.chainHeight)
    else pool)

end Stages
end ColossusCoin
