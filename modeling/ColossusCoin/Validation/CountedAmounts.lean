import ColossusCoin.Library.ReachedItems
import ColossusCoin.Validation.DistinctInputs
import ColossusCoin.Validation.MintConflicts

/-!
# The amounts that connecting a block counts

`nValueIn`, `nValueOut` and `nFees` of `ConnectBlock`, transaction by transaction.  What a
transaction adds depends on how far its checks let it come, and is told from the transaction
and the records it finds.
-/

namespace ColossusCoin

section Counted

variable (env : ConnectEnv) (block : CBlock)

/-- The stages of a transaction, whatever its kind, before the others. -/
def entryStages (tx : CTransaction) : List (Stage ConnectState) :=
  [ Stage.update fun state =>
      { state with nSigOps := state.nSigOps + tx.getLegacySigOpCount },
    rejectSigOps,
    Stage.rejectIf (fun _ => inMaintenance env block tx) (ConnectState.dos 100 0 "") ]

/-- The stages that depend on the kind of the transaction. -/
def kindStage (tx : CTransaction) : Stage ConnectState :=
  if tx.isZerocoinSpend then Stage.sequence (zerocoinSpendStages env tx)
  else Stage.when (!tx.isCoinBase) (Stage.sequence (coinSpendStages env block tx))

/-- The tests of a transaction that spends coins before its inputs are counted. -/
def inputTests (tx : CTransaction) : List (Stage ConnectState) :=
  [ Stage.rejectIf (fun state => !state.view.haveInputs tx)
      (ConnectState.dos 100 rejectInvalid "bad-txns-inputs-missingorspent"),
    Stage.rejectIf (fun state => tx.vin.any fun txin =>
        !validOutPoint env.context.params env.fraud txin.prevout state.pindex.nHeight)
      (ConnectState.dos 100 rejectInvalid "bad-txns-invalid-inputs"),
    addP2SHSigOps tx,
    rejectSigOps ]

/-- The values of the zerocoins that the inputs spend, up to the first one refused. -/
def spentZerocoins (db : CZerocoinDB) (nHeight : Int) : List CTxIn → Int
  | [] => 0
  | txin :: rest =>
    match env.context.lib.txInToZerocoinSpend txin with
    | none => 0
    | some spend =>
      spend.denomination.toAmount +
        if contextualCheckCoinSpend env db nHeight spend then
          spentZerocoins db nHeight rest
        else 0

/-- The tests between those stages and the inputs, by the kind of the transaction. -/
def kindTests (tx : CTransaction) : List (Stage ConnectState) :=
  if tx.isZerocoinSpend then
    [Stage.rejectIf (alreadyInChain env tx)
      (ConnectState.dos 100 rejectInvalid "bad-txns-inputs-missingorspent")]
  else inputTests env tx

/-- The inputs of a transaction are counted: it has some, and passes what comes before. -/
def countsInputs (tx : CTransaction) (state : ConnectState) : Bool :=
  !tx.isCoinBase &&
    (Stage.sequence (entryStages env block tx ++ kindTests env tx) state).1.isNone

/-- The outputs of a transaction are counted: it passes what comes before. -/
def countsOutputs (tx : CTransaction) (state : ConnectState) : Bool :=
  (Stage.sequence (entryStages env block tx ++ [kindStage env block tx]) state).1.isNone

/-- A transaction of the kind that pays a fee, with inputs that the view has. -/
def paysFee (tx : CTransaction) (state : ConnectState) : Bool :=
  !tx.isZerocoinSpend && !tx.isCoinStake && (state.view.getValueIn tx).isSome

/-- The value that the inputs of a transaction have. -/
def inputValue (tx : CTransaction) (state : ConnectState) : Int :=
  if tx.isZerocoinSpend then
    spentZerocoins env state.checks.zerocoinDB state.pindex.nHeight tx.zerocoinSpendInputs
  else (state.view.getValueIn tx).getD 0

/-- What a transaction adds to `nValueIn`. -/
def addedIn (tx : CTransaction) (state : ConnectState) : Int :=
  if countsInputs env block tx state then inputValue env tx state else 0

/-- What a transaction adds to `nValueOut`. -/
def addedOut (tx : CTransaction) (state : ConnectState) : Int :=
  if countsOutputs env block tx state then tx.valueOutSum else 0

/-- What a transaction adds to `nFees`. -/
def addedFee (tx : CTransaction) (state : ConnectState) : Int :=
  if countsInputs env block tx state && paysFee tx state then
    inputValue env tx state - tx.valueOutSum
  else 0

end Counted

/-- The sums over the transactions of a block. -/
def ConnectState.amounts (state : ConnectState) : Int × Int × Int :=
  (state.nValueIn, state.nValueOut, state.nFees)

/-- The sums, and what the values to add are told from. -/
def ConnectState.beforeCount (state : ConnectState) :
    (Int × Int × Int) × CCoinsViewCache × CZerocoinDB × CBlockIndex :=
  (state.amounts, state.view, state.checks.zerocoinDB, state.pindex)

section Stages

variable {env : ConnectEnv} {block : CBlock} {tx : CTransaction}

theorem frame_entryStages :
    Stage.Frame ConnectState.beforeCount (Stage.sequence (entryStages env block tx)) := by
  apply Stage.frame_sequence
  intro stage member
  simp only [entryStages, List.mem_cons, List.not_mem_nil, or_false] at member
  rcases member with rfl | rfl | rfl
  · exact Stage.frame_update fun _ => rfl
  · exact Stage.frame_rejectIf _ fun _ => rfl
  · exact Stage.frame_rejectIf _ fun _ => rfl

theorem frame_kindTests :
    Stage.Frame ConnectState.beforeCount (Stage.sequence (kindTests env tx)) := by
  apply Stage.frame_sequence
  intro stage member
  unfold kindTests inputTests at member
  split_ifs at member
  · rw [List.mem_singleton] at member
    subst member
    exact Stage.frame_rejectIf _ fun _ => rfl
  · simp only [List.mem_cons, List.not_mem_nil, or_false] at member
    rcases member with rfl | rfl | rfl | rfl
    · exact Stage.frame_rejectIf _ fun _ => rfl
    · exact Stage.frame_rejectIf _ fun _ => rfl
    · intro state
      unfold addP2SHSigOps
      cases state.view.getP2SHSigOpCount tx <;> rfl
    · exact Stage.frame_rejectIf _ fun _ => rfl

theorem frame_checkInputsStage_amounts :
    Stage.Frame ConnectState.amounts (checkInputsStage env block tx) := by
  intro state
  rfl

theorem frame_minFeeStage_amounts :
    Stage.Frame ConnectState.amounts (minFeeStage env tx) := by
  intro state
  unfold minFeeStage
  cases state.view.getValueIn tx with
  | none => rfl
  | some nTxValueIn =>
    cases tx.getValueOut with
    | none => rfl
    | some nTxValueOut =>
      dsimp only
      split_ifs <;> rfl

theorem frame_applyTransaction_amounts :
    Stage.Frame ConnectState.amounts (applyTransaction tx) := by
  intro state
  unfold applyTransaction
  cases CCoinsViewCache.updateCoins tx state.view state.pindex.nHeight <;> rfl

/-- The loop over the zerocoins that a transaction spends. -/
theorem amounts_forEach_connectSpend (txins : List CTxIn) (state : ConnectState) :
    (Stage.forEach (connectSpend env tx) txins state).2.amounts =
      (state.nValueIn + spentZerocoins env state.checks.zerocoinDB state.pindex.nHeight txins,
        state.nValueOut, state.nFees) := by
  induction txins generalizing state with
  | nil =>
    rw [Stage.forEach, spentZerocoins, Int.add_zero]
    rfl
  | cons txin rest ih =>
    rw [Stage.forEach, connectSpend, spentZerocoins]
    cases env.context.lib.txInToZerocoinSpend txin with
    | none =>
      rw [Int.add_zero]
      rfl
    | some spend =>
      dsimp only
      split_ifs
      · dsimp only
        rw [ih, Int.add_assoc]
      · dsimp only
        rw [Int.add_zero]
        rfl

theorem amounts_addValueIn
    (returned : tx.getValueOut = some tx.valueOutSum)
    (state : ConnectState) :
    (addValueIn tx state).2.amounts =
      (state.nValueIn + (state.view.getValueIn tx).getD 0, state.nValueOut,
        state.nFees +
          if !tx.isCoinStake && (state.view.getValueIn tx).isSome then
            (state.view.getValueIn tx).getD 0 - tx.valueOutSum
          else 0) := by
  unfold addValueIn
  cases state.view.getValueIn tx with
  | none => simp [ConnectState.amounts]
  | some nTxValueIn =>
    cases stake : tx.isCoinStake with
    | true => simp [ConnectState.amounts]
    | false => simp [ConnectState.amounts, returned]

theorem amounts_afterValueIn (state : ConnectState) :
    (Stage.sequence [addValueIn tx, checkInputsStage env block tx, minFeeStage env tx]
      state).2.amounts = (addValueIn tx state).2.amounts := by
  rw [Stage.sequence_cons]
  generalize addValueIn tx state = outcome
  obtain ⟨exit, next⟩ := outcome
  cases exit with
  | some exit => rfl
  | none =>
    apply Stage.frame_sequence
    intro stage member
    simp only [List.mem_cons, List.not_mem_nil, or_false] at member
    rcases member with rfl | rfl
    · exact frame_checkInputsStage_amounts
    · exact frame_minFeeStage_amounts

/-- A transaction is not of two kinds. -/
theorem isCoinBase_of_isZerocoinSpend
    (spends : tx.isZerocoinSpend = true) :
    tx.isCoinBase = false := by
  unfold CTransaction.isCoinBase CTransaction.containsZerocoins
  rw [spends]
  rcases tx.vin with _ | ⟨txin, _ | _⟩ <;> simp

section

variable (returned : tx.getValueOut = some tx.valueOutSum)
include returned

theorem amounts_kindStage
    (state : ConnectState) :
    (kindStage env block tx state).2.amounts =
      if !tx.isCoinBase && (Stage.sequence (kindTests env tx) state).1.isNone then
        (state.nValueIn + inputValue env tx state, state.nValueOut,
          state.nFees + if paysFee tx state then inputValue env tx state - tx.valueOutSum else 0)
      else state.amounts := by
  unfold kindStage kindTests inputValue paysFee
  cases zerocoin : tx.isZerocoinSpend with
  | true =>
    rw [isCoinBase_of_isZerocoinSpend zerocoin, zerocoinSpendStages]
    simp only [if_true, Stage.sequence_cons_rejectIf, Stage.sequence_singleton]
    by_cases already : alreadyInChain env tx state = true
    · rw [if_pos already]
      simp [Stage.rejectIf, already, ConnectState.amounts, ConnectState.dos, ConnectState.onChecks]
    · rw [if_neg already, amounts_forEach_connectSpend]
      simp [Stage.rejectIf, already]
  | false =>
    cases coinBase : tx.isCoinBase with
    | true => rfl
    | false =>
      have split : coinSpendStages env block tx = inputTests env tx ++
          [addValueIn tx, checkInputsStage env block tx, minFeeStage env tx] := rfl
      have tests := @frame_kindTests env tx state
      rw [kindTests, zerocoin] at tests
      simp only [Bool.false_eq_true, if_false, Bool.not_false, Stage.when, if_true, split,
        Stage.sequence_append, Bool.true_and] at tests ⊢
      generalize Stage.sequence (inputTests env tx) state = outcome at tests ⊢
      obtain ⟨exit, next⟩ := outcome
      have amounts := congrArg Prod.fst tests
      have view := congrArg (fun counts => counts.2.1) tests
      dsimp only [ConnectState.beforeCount] at amounts view
      cases exit with
      | some exit => exact amounts
      | none =>
        simp only [ConnectState.amounts, Prod.mk.injEq] at amounts
        rw [amounts_afterValueIn, amounts_addValueIn returned, view, amounts.1,
          amounts.2.1, amounts.2.2]
        rfl

theorem amounts_outputStages
    (state : ConnectState) :
    (Stage.sequence [addValueOut tx, applyTransaction tx] state).2.amounts =
      (state.nValueIn, state.nValueOut + tx.valueOutSum, state.nFees) := by
  rw [Stage.sequence_cons, addValueOut, returned]
  dsimp only
  rw [Stage.sequence_singleton]
  exact frame_applyTransaction_amounts _

/-- What a transaction adds to the sums, wherever it stops. -/
theorem amounts_connectTransaction
    (state : ConnectState) :
    (connectTransaction env block tx state).2.amounts =
      (state.nValueIn + addedIn env block tx state, state.nValueOut + addedOut env block tx state,
        state.nFees + addedFee env block tx state) := by
  have split : connectTransaction env block tx =
      Stage.sequence (entryStages env block tx ++
        [kindStage env block tx, addValueOut tx, applyTransaction tx]) := rfl
  have entered := @frame_entryStages env block tx state
  unfold addedIn addedOut addedFee countsInputs countsOutputs
  simp only [split, Stage.sequence_append, Stage.sequence_singleton]
  generalize Stage.sequence (entryStages env block tx) state = outcome at entered ⊢
  obtain ⟨exit, next⟩ := outcome
  simp only [ConnectState.beforeCount, Prod.mk.injEq] at entered
  obtain ⟨amounts, view, db, pindex⟩ := entered
  simp only [ConnectState.amounts, Prod.mk.injEq] at amounts
  cases exit with
  | some exit => simp [amounts, ConnectState.amounts]
  | none =>
    have kind := @amounts_kindStage env block tx returned next
    have value : inputValue env tx next = inputValue env tx state := by
      unfold inputValue
      rw [view, db, pindex]
    have pays : paysFee tx next = paysFee tx state := by
      unfold paysFee
      rw [view]
    rw [value, pays] at kind
    obtain ⟨exit, final, outcome⟩ : ∃ exit final,
        kindStage env block tx next = (exit, final) := ⟨_, _, rfl⟩
    have rest : Stage.sequence
        [kindStage env block tx, addValueOut tx, applyTransaction tx] next =
          match (exit, final) with
          | (none, next) => Stage.sequence [addValueOut tx, applyTransaction tx] next
          | (some exit, next) => (some exit, next) := by
      rw [Stage.sequence_cons, outcome]
      cases exit <;> rfl
    simp only [rest, outcome] at kind ⊢
    have counted : final.amounts =
        (state.nValueIn +
            (if (!tx.isCoinBase && (Stage.sequence (kindTests env tx) next).1.isNone) then
              inputValue env tx state else 0),
          state.nValueOut,
          state.nFees +
            if (!tx.isCoinBase && (Stage.sequence (kindTests env tx) next).1.isNone) &&
                paysFee tx state then inputValue env tx state - tx.valueOutSum else 0) := by
      rw [kind]
      split_ifs <;> simp_all [ConnectState.amounts]
    cases exit with
    | some exit => simpa using counted
    | none =>
      simp only [ConnectState.amounts, Prod.mk.injEq] at counted
      rw [amounts_outputStages returned, counted.1, counted.2.1, counted.2.2]
      rfl

end

end Stages

end ColossusCoin
