import ColossusCoin.ChainParams
import ColossusCoin.Validation.State
import ColossusCoin.Zerocoin.Denominations

/-!
# Checks of a transaction on its own

`CheckTransaction` with the zerocoin checks it makes.  Recording a mint writes to
the zerocoin database, so the checks work on the validation state and the
database.  The zerocoin library, which deserializes spends and verifies their
proofs, is a parameter.
-/

namespace ColossusCoin

def maxZerocoinTxSize : Nat := 150000

/-- What the checks use of the zerocoin library and of transaction hashing. -/
structure ZerocoinLib where
  /-- `TxInToZerocoinSpend`, `none` where deserialization throws. -/
  txInToZerocoinSpend : CTxIn → Option CoinSpend
  /-- `PublicCoin::validate`. -/
  validate : PublicCoin → Bool
  /-- `CoinSpend::Verify` of an input's spend against an accumulator value. -/
  verify : CTxIn → CBigNum → Bool
  /-- The hash of a transaction that has only these outputs. -/
  hashOutputs : List CTxOut → Uint256

/-- What the checks of transactions and blocks write: the validation state, the
zerocoin database, and the blocks to be reconsidered later with the times of
their rejection. -/
structure CheckState where
  state : CValidationState
  zerocoinDB : CZerocoinDB
  mapRejectedBlocks : Uint256 → Option Int

namespace CheckState

/-- `state.DoS` with a reject code and a reason. -/
def dos (level : Int) (code : Nat) (reason : String) (checks : CheckState) :
    CheckState :=
  { checks with state := checks.state.dos level code reason }

/-- Keep a block for later, unless it is kept already: `insert` into
`mapRejectedBlocks`. -/
def insertRejectedBlock (hash : Uint256) (time : Int) (checks : CheckState) :
    CheckState :=
  { checks with
    mapRejectedBlocks :=
      Function.update checks.mapRejectedBlocks hash
        ((checks.mapRejectedBlocks hash).or (some time)) }

/-- `state.DoS` for data that may have been corrupted on the way. -/
def dosCorrupt (level : Int) (code : Nat) (reason : String) (checks : CheckState) :
    CheckState :=
  { checks with state := checks.state.dos level code reason true }

/-- What the checks of inputs leave alone: all but the validation state. -/
def outsideState (checks : CheckState) : CZerocoinDB × (Uint256 → Option Int) :=
  (checks.zerocoinDB, checks.mapRejectedBlocks)

end CheckState

/-- `CheckZerocoinMint`, called with `fCheckOnly` false. -/
def checkZerocoinMint (lib : ZerocoinLib) (txHash : Uint256) (txout : CTxOut) :
    CheckState → Exit × CheckState := fun checks =>
  match txOutToPublicCoin txout with
  | none => (.reject, (checks.dos 100 0 "").dos 100 0 "")
  | some pubCoin =>
    if lib.validate pubCoin = false then (.reject, checks.dos 100 0 "")
    else
      match checks.zerocoinDB.recordMintToDB pubCoin txHash with
      | (false, db) => (.reject, { checks with zerocoinDB := db }.dos 100 0 "")
      | (true, db) => (.accept, { checks with zerocoinDB := db })

/-- The loop of `CheckZerocoinSpend` over the inputs, with the serials seen and
the amount redeemed so far; both are returned. -/
def checkSpendInputs (lib : ZerocoinLib) (fVerifySignature : Bool)
    (hashTxOut : Uint256) :
    List CTxIn → List CBigNum → Int → CheckState →
      (Option Exit × CheckState) × List CBigNum × Int
  | [], serials, nTotalRedeemed, checks => ((none, checks), serials, nTotalRedeemed)
  | txin :: rest, serials, nTotalRedeemed, checks =>
    let fail := ((some Exit.reject, checks.dos 100 0 ""), serials, nTotalRedeemed)
    if txin.scriptSig.isZerocoinSpend = false then
      checkSpendInputs lib fVerifySignature hashTxOut rest serials nTotalRedeemed checks
    else
      match lib.txInToZerocoinSpend txin with
      | none => ((some .abort, checks), serials, nTotalRedeemed)
      | some newSpend =>
        if newSpend.denomination = .zqError then fail
        else if newSpend.denomination.toInt ≠ txin.nSequence then fail
        else if newSpend.ptxHash ≠ hashTxOut then fail
        else if fVerifySignature && !(
            match checks.zerocoinDB.accumulators newSpend.accChecksum with
            | none => false
            | some bnAccumulatorValue => lib.verify txin bnAccumulatorValue) then fail
        else if serials.contains newSpend.coinSerialNumber then fail
        else
          checkSpendInputs lib fVerifySignature hashTxOut rest
            (newSpend.coinSerialNumber :: serials)
            (nTotalRedeemed + newSpend.denomination.toAmount) checks

/-- `CheckZerocoinSpend`, without the signal to the wallet. -/
def checkZerocoinSpend (lib : ZerocoinLib) (fVerifySignature : Bool)
    (tx : CTransaction) (checks : CheckState) : Exit × CheckState :=
  if 2 < tx.vout.length ∧ 2 < (tx.vout.filter fun out => !out.isZerocoinMint).length then
    (.reject, checks.dos 100 0 "")
  else
    match checkSpendInputs lib fVerifySignature (lib.hashOutputs tx.vout) tx.vin [] 0
        checks with
    | ((some exit, failed), _) => (exit, failed)
    | ((none, passed), serials, nTotalRedeemed) =>
      match tx.getValueOut with
      | none => (.abort, passed)
      | some nValueOut =>
        if nTotalRedeemed < nValueOut then (.reject, passed.dos 100 0 "")
        -- `fValidated` stays false when no input spends a zerocoin.
        else if serials.isEmpty then (.reject, passed)
        else (.accept, passed)

/-- The loop over the outputs, with their total so far. -/
def checkOutputs (params : CChainParams) (lib : ZerocoinLib) (fZerocoinActive : Bool)
    (tx : CTransaction) : List CTxOut → Int → Stage CheckState
  | [], _, checks => (none, checks)
  | txout :: rest, nValueOut, checks =>
    if txout.isEmpty && !tx.isCoinBase && !tx.isCoinStake then
      (some .reject, checks.dos 100 0 "")
    else if txout.nValue < 0 then
      (some .reject, checks.dos 100 rejectInvalid "bad-txns-vout-negative")
    else if params.nMaxMoneyOut < txout.nValue then
      (some .reject, checks.dos 100 rejectInvalid "bad-txns-vout-toolarge")
    else if params.moneyRange (nValueOut + txout.nValue) = false then
      (some .reject, checks.dos 100 rejectInvalid "bad-txns-txouttotal-toolarge")
    else
      let mint := Stage.when (fZerocoinActive && txout.isZerocoinMint)
        (Stage.require (checkZerocoinMint lib tx.hash txout) (CheckState.dos 100 0 ""))
      match mint checks with
      | (some exit, failed) => (some exit, failed)
      | (none, passed) =>
        checkOutputs params lib fZerocoinActive tx rest (nValueOut + txout.nValue)
          passed

/-- The search for duplicate inputs.  Inputs that spend zerocoins are looked up,
but not inserted. -/
def hasDuplicateInput : List CTxIn → List COutPoint → Bool
  | [], _ => false
  | txin :: rest, vInOutPoints =>
    vInOutPoints.contains txin.prevout ||
      hasDuplicateInput rest
        (if txin.scriptSig.isZerocoinSpend then vInOutPoints
        else txin.prevout :: vInOutPoints)

/-- The last test of `CheckTransaction`, which depends on the kind of the
transaction: the level and reason of the rejection, if any. -/
def inputFault (params : CChainParams) (fZerocoinActive : Bool) (tx : CTransaction) :
    Option (Int × String) :=
  if tx.isCoinBase then
    match tx.vin with
    | [] => none
    | txin :: _ =>
      if txin.scriptSig.length < 2 ∨ 150 < txin.scriptSig.length then
        some (100, "bad-cb-length")
      else none
  else if fZerocoinActive && tx.isZerocoinSpend then
    if tx.vin.length < 1 ∨ params.nMaxZerocoinSpendsPerTransaction < tx.vin.length then
      some (10, "bad-zerocoinspend")
    else none
  else if tx.vin.any fun txin =>
      txin.prevout.isNull && (fZerocoinActive && !txin.scriptSig.isZerocoinSpend) then
    some (10, "bad-txns-prevout-null")
  else none

/-- The stages of `CheckTransaction`. -/
def checkTransactionStages (params : CChainParams) (lib : ZerocoinLib)
    (fVerifySignature fZerocoinActive : Bool) (tx : CTransaction) :
    List (Stage CheckState) :=
  [ Stage.rejectIf (fun _ => tx.vin.isEmpty)
      (CheckState.dos 10 rejectInvalid "bad-txns-vin-empty"),
    Stage.rejectIf (fun _ => tx.vout.isEmpty)
      (CheckState.dos 10 rejectInvalid "bad-txns-vout-empty"),
    Stage.rejectIf (fun _ => maxZerocoinTxSize < tx.getSerializeSize)
      (CheckState.dos 100 rejectInvalid "bad-txns-oversize"),
    checkOutputs params lib fZerocoinActive tx tx.vout 0,
    Stage.rejectIf (fun _ => fZerocoinActive &&
        params.nMaxZerocoinSpendsPerTransaction <
          (tx.vout.filter fun txout => txout.scriptPubKey.isZerocoinSpend).length)
      (CheckState.dos 100 0 ""),
    Stage.rejectIf (fun _ => fZerocoinActive && tx.isZerocoinSpend &&
        tx.vin.any fun txin => !txin.scriptSig.isZerocoinSpend)
      (CheckState.dos 100 0 ""),
    Stage.when (fZerocoinActive && tx.isZerocoinSpend)
      (Stage.require (checkZerocoinSpend lib fVerifySignature tx)
        (CheckState.dos 100 0 "")),
    Stage.rejectIf (fun _ => hasDuplicateInput tx.vin [])
      (CheckState.dos 100 rejectInvalid "bad-txns-inputs-duplicate"),
    fun checks =>
      match inputFault params fZerocoinActive tx with
      | none => (none, checks)
      | some (level, reason) => (some .reject, checks.dos level rejectInvalid reason) ]

/-- `CheckTransaction`.  `fVerifySignature` is the local decision to verify the
proofs of zerocoin spends. -/
def checkTransaction (params : CChainParams) (lib : ZerocoinLib)
    (fVerifySignature fZerocoinActive : Bool) (tx : CTransaction)
    (checks : CheckState) : Exit × CheckState :=
  Stage.run
    (checkTransactionStages params lib fVerifySignature fZerocoinActive tx) checks

theorem neverAccepts_checkOutputs
    (params : CChainParams) (lib : ZerocoinLib) (fZerocoinActive : Bool)
    (tx : CTransaction) (outs : List CTxOut) (nValueOut : Int) :
    Stage.NeverAccepts (checkOutputs params lib fZerocoinActive tx outs nValueOut) := by
  induction outs generalizing nValueOut with
  | nil =>
    intro checks
    simp [checkOutputs]
  | cons txout rest ih =>
    intro checks
    rw [checkOutputs]
    split_ifs
    case neg =>
      have mintNever : Stage.NeverAccepts
          (Stage.when (fZerocoinActive && txout.isZerocoinMint)
            (Stage.require (checkZerocoinMint lib tx.hash txout) (CheckState.dos 100 0 ""))) :=
        Stage.neverAccepts_when (Stage.neverAccepts_require _ _)
      have never := mintNever checks
      dsimp only
      cases outcome : Stage.when (fZerocoinActive && txout.isZerocoinMint)
          (Stage.require (checkZerocoinMint lib tx.hash txout)
            (CheckState.dos 100 0 "")) checks with
      | mk exit next =>
        rw [outcome] at never
        cases exit with
        | some exit => exact never
        | none => exact ih _ next
    all_goals simp

theorem neverAccepts_checkTransactionStages
    (params : CChainParams) (lib : ZerocoinLib) (fVerifySignature fZerocoinActive : Bool)
    (tx : CTransaction) :
    ∀ stage ∈ checkTransactionStages params lib fVerifySignature fZerocoinActive tx,
      Stage.NeverAccepts stage := by
  have finalNever : Stage.NeverAccepts fun checks : CheckState =>
      match inputFault params fZerocoinActive tx with
      | none => (none, checks)
      | some (level, reason) => (some .reject, checks.dos level rejectInvalid reason) := by
    intro checks
    split <;> simp
  intro stage member
  simp only [checkTransactionStages, List.mem_cons, List.not_mem_nil, or_false] at member
  rcases member with rfl | rfl | rfl | rfl | rfl | rfl | rfl | rfl | rfl
  · exact Stage.neverAccepts_rejectIf _ _
  · exact Stage.neverAccepts_rejectIf _ _
  · exact Stage.neverAccepts_rejectIf _ _
  · exact neverAccepts_checkOutputs _ _ _ _ _ _
  · exact Stage.neverAccepts_rejectIf _ _
  · exact Stage.neverAccepts_rejectIf _ _
  · exact Stage.neverAccepts_when (Stage.neverAccepts_require _ _)
  · exact Stage.neverAccepts_rejectIf _ _
  · exact finalNever

theorem passes_of_checkTransaction
    (accepted : (checkTransaction params lib fVerifySignature fZerocoinActive tx
      checks).1 = .accept)
    (member : stage ∈ checkTransactionStages params lib fVerifySignature fZerocoinActive tx) :
    ∃ reached, (stage reached).1 = none :=
  Stage.passes_of_mem
    (Stage.sequence_passes_of_accept
      (neverAccepts_checkTransactionStages params lib fVerifySignature fZerocoinActive tx)
      accepted) member

/-- An accepted transaction has no duplicate among the inputs that the search
covers. -/
theorem hasDuplicateInput_of_accept
    (accepted : (checkTransaction params lib fVerifySignature fZerocoinActive tx
      checks).1 = .accept) :
    hasDuplicateInput tx.vin [] = false := by
  have member : Stage.rejectIf (fun _ => hasDuplicateInput tx.vin [])
        (CheckState.dos 100 rejectInvalid "bad-txns-inputs-duplicate") ∈
      checkTransactionStages params lib fVerifySignature fZerocoinActive tx := by
    simp [checkTransactionStages]
  obtain ⟨reached, passed⟩ := passes_of_checkTransaction accepted member
  exact Stage.test_of_rejectIf (fun _ => hasDuplicateInput tx.vin []) passed

/-- What the search for duplicates finds: outpoints seen before, and inputs that
share the outpoint of an earlier one that does not spend a zerocoin. -/
theorem hasDuplicateInput_eq_false_iff (txins : List CTxIn) (seen : List COutPoint) :
    hasDuplicateInput txins seen = false ↔
      (∀ txin ∈ txins, txin.prevout ∉ seen) ∧
        txins.Pairwise fun first second =>
          first.scriptSig.isZerocoinSpend = false → first.prevout ≠ second.prevout := by
  induction txins generalizing seen with
  | nil => simp [hasDuplicateInput]
  | cons txin rest ih =>
    rw [hasDuplicateInput, Bool.or_eq_false_iff, ih, List.pairwise_cons, List.forall_mem_cons]
    cases zerocoin : txin.scriptSig.isZerocoinSpend with
    | true =>
      simp [and_assoc]
    | false =>
      simp only [Bool.false_eq_true, if_false, true_imp_iff, List.mem_cons, not_or]
      constructor
      · rintro ⟨fresh, restFresh, distinct⟩
        refine ⟨⟨by simpa using fresh, fun other member => (restFresh other member).2⟩,
          fun other member equal => (restFresh other member).1 equal.symm, distinct⟩
      · rintro ⟨⟨fresh, restFresh⟩, apart, distinct⟩
        exact ⟨by simpa using fresh, fun other member =>
          ⟨fun equal => apart other member equal.symm, restFresh other member⟩, distinct⟩

end ColossusCoin
