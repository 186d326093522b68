import ColossusCoin.Validation.FailedConnect
import ColossusCoin.Validation.MintConflicts

/-!
# Connecting a block with other mints recorded

Only `CheckBlock` looks at the recorded mints.  From there on two calls of `ConnectBlock`
that differ in them stay in step.
-/

namespace ColossusCoin

namespace ConnectState

/-- The state with other mints recorded. -/
def withMints (mints : CBigNum → Option Uint256) (state : ConnectState) : ConnectState :=
  state.onChecks (CheckState.withMints mints)

@[simp] theorem view_withMints (mints : CBigNum → Option Uint256) (state : ConnectState) :
    (state.withMints mints).view = state.view := rfl

@[simp] theorem pindex_withMints (mints : CBigNum → Option Uint256) (state : ConnectState) :
    (state.withMints mints).pindex = state.pindex := rfl

@[simp] theorem checks_withMints (mints : CBigNum → Option Uint256) (state : ConnectState) :
    (state.withMints mints).checks = state.checks.withMints mints := rfl

/-- The states differ in the mints alone. -/
def ButMints (mints : CBigNum → Option Uint256) (left right : ConnectState) : Prop :=
  right = left.withMints mints

theorem lockstep_of_withMints
    (commutes : ∀ state, stage (withMints mints state) =
      ((stage state).1, withMints mints (stage state).2)) :
    Stage.Lockstep (ButMints mints) stage := by
  rintro left right rfl
  rw [commutes]
  exact ⟨rfl, rfl⟩

/-- Tests that do not look at the mints, with rejections that do not change them. -/
theorem lockstep_rejectIf
    (sameTest : ∀ state, test (withMints mints state) = test state)
    (rejects : ∀ state, onReject (withMints mints state) = withMints mints (onReject state)) :
    Stage.Lockstep (ButMints mints) (Stage.rejectIf test onReject) := by
  apply Stage.lockstep_rejectIf
  · rintro left right rfl
    exact sameTest left
  · rintro left right rfl
    exact rejects left

theorem lockstep_update
    (changes : ∀ state, change (withMints mints state) = withMints mints (change state)) :
    Stage.Lockstep (ButMints mints) (Stage.update change) := by
  apply Stage.lockstep_update
  rintro left right rfl
  exact changes left

end ConnectState

theorem checkInputValues_withMints
    (params : CChainParams) (nSpendHeight : Int) (view : CCoinsViewCache)
    (txins : List CTxIn) (nValueIn : Int) (mints : CBigNum → Option Uint256)
    (checks : CheckState) :
    checkInputValues params nSpendHeight view txins nValueIn (checks.withMints mints) =
      let outcome := checkInputValues params nSpendHeight view txins nValueIn checks
      ((outcome.1.1, outcome.1.2.withMints mints), outcome.2) := by
  induction txins generalizing nValueIn with
  | nil => rfl
  | cons txin rest ih =>
    unfold checkInputValues
    cases view.accessCoins txin.prevout.hash with
    | none => rfl
    | some coins =>
      dsimp only
      split_ifs
      · rfl
      · rfl
      · exact ih _

theorem checkFee_withMints
    (params : CChainParams) (tx : CTransaction) (nValueIn : Int)
    (mints : CBigNum → Option Uint256) (checks : CheckState) :
    checkFee params tx nValueIn (checks.withMints mints) =
      ((checkFee params tx nValueIn checks).1,
        (checkFee params tx nValueIn checks).2.withMints mints) := by
  unfold checkFee
  split_ifs
  · rfl
  · cases tx.getValueOut with
    | none => rfl
    | some nValueOut =>
      dsimp only
      split_ifs <;> rfl

theorem verifyNow_withMints
    (env : ScriptEnv) (tx : CTransaction) (i : Nat) (coins : CCoins)
    (mints : CBigNum → Option Uint256) (checks : CheckState) :
    verifyNow env tx i coins (checks.withMints mints) =
      ((verifyNow env tx i coins checks).1,
        (verifyNow env tx i coins checks).2.withMints mints) := by
  unfold verifyNow
  cases env.verifyScript env.flags tx i coins with
  | none => rfl
  | some scriptError =>
    split_ifs <;> rfl

theorem checkScripts_withMints
    (env : ScriptEnv) (view : CCoinsViewCache) (tx : CTransaction) (txins : List CTxIn)
    (i : Nat) (mints : CBigNum → Option Uint256) (checks : CheckState) :
    checkScripts env view tx txins i (checks.withMints mints) =
      let outcome := checkScripts env view tx txins i checks
      ((outcome.1.1, outcome.1.2.withMints mints), outcome.2) := by
  induction txins generalizing i checks with
  | nil => rfl
  | cons txin rest ih =>
    unfold checkScripts
    cases view.accessCoins txin.prevout.hash with
    | none => rfl
    | some coins =>
      dsimp only
      split_ifs
      · rw [ih]
      · rw [verifyNow_withMints]
        generalize verifyNow env tx i coins checks = outcome
        obtain ⟨exit, passed⟩ := outcome
        cases exit with
        | some exit => rfl
        | none => exact ih _ _

theorem checkInputs_withMints
    (params : CChainParams) (env : ScriptEnv) (nSpendHeight : Int) (tx : CTransaction)
    (view : CCoinsViewCache) (mints : CBigNum → Option Uint256) (checks : CheckState) :
    checkInputs params env nSpendHeight tx view (checks.withMints mints) =
      let outcome := checkInputs params env nSpendHeight tx view checks
      ((outcome.1.1, outcome.1.2.withMints mints), outcome.2) := by
  unfold checkInputs
  rw [checkInputValues_withMints]
  cases tx.spendsNoCoins with
  | true => rfl
  | false =>
    cases view.haveInputs tx with
    | false => rfl
    | true =>
      generalize checkInputValues params nSpendHeight view tx.vin 0 checks = outcome
      obtain ⟨⟨exit, summed⟩, nValueIn⟩ := outcome
      cases exit with
      | some exit => rfl
      | none =>
        dsimp only
        rw [checkFee_withMints]
        generalize checkFee params tx nValueIn summed = outcome
        obtain ⟨exit, passed⟩ := outcome
        cases exit with
        | some exit => rfl
        | none =>
          cases env.fScriptChecks with
          | true => exact checkScripts_withMints env view tx tx.vin 0 mints passed
          | false => rfl

section Stages

variable (env : ConnectEnv) (block : CBlock) (mints : CBigNum → Option Uint256)

theorem lockstep_rejectSigOps :
    Stage.Lockstep (ConnectState.ButMints mints) rejectSigOps :=
  ConnectState.lockstep_rejectIf (fun _ => rfl) fun _ => rfl

theorem lockstep_zerocoinSpendStages (tx : CTransaction) :
    Stage.Lockstep (ConnectState.ButMints mints) (Stage.sequence (zerocoinSpendStages env tx)) := by
  apply Stage.lockstep_sequence
  intro stage member
  simp only [zerocoinSpendStages, List.mem_cons, List.not_mem_nil, or_false] at member
  rcases member with rfl | rfl
  · exact ConnectState.lockstep_rejectIf (fun _ => rfl) fun _ => rfl
  · apply Stage.lockstep_forEach
    intro txin _
    apply ConnectState.lockstep_of_withMints
    intro state
    unfold connectSpend
    cases env.context.lib.txInToZerocoinSpend txin with
    | none => rfl
    | some spend =>
      have sameSpends : contextualCheckCoinSpend env
          (state.checks.withMints mints).zerocoinDB state.pindex.nHeight spend =
            contextualCheckCoinSpend env state.checks.zerocoinDB state.pindex.nHeight spend :=
        rfl
      simp only [ConnectState.checks_withMints, ConnectState.pindex_withMints, sameSpends]
      split_ifs <;> rfl

theorem lockstep_coinSpendStages (tx : CTransaction) :
    Stage.Lockstep (ConnectState.ButMints mints)
      (Stage.sequence (coinSpendStages env block tx)) := by
  apply Stage.lockstep_sequence
  intro stage member
  simp only [coinSpendStages, List.mem_cons, List.not_mem_nil, or_false] at member
  rcases member with rfl | rfl | rfl | rfl | rfl | rfl | rfl
  · exact ConnectState.lockstep_rejectIf (fun _ => rfl) fun _ => rfl
  · exact ConnectState.lockstep_rejectIf (fun _ => rfl) fun _ => rfl
  · apply ConnectState.lockstep_of_withMints
    intro state
    unfold addP2SHSigOps
    rw [ConnectState.view_withMints]
    cases state.view.getP2SHSigOpCount tx <;> rfl
  · exact lockstep_rejectSigOps mints
  · apply ConnectState.lockstep_of_withMints
    intro state
    unfold addValueIn
    rw [ConnectState.view_withMints]
    cases state.view.getValueIn tx with
    | none => rfl
    | some nTxValueIn =>
      split_ifs
      · rfl
      · cases tx.getValueOut <;> rfl
  · apply ConnectState.lockstep_of_withMints
    intro state
    unfold checkInputsStage
    rw [ConnectState.view_withMints, ConnectState.pindex_withMints,
      ConnectState.checks_withMints, checkInputs_withMints]
    generalize checkInputs env.context.params (env.scriptEnv block state.pindex)
      (env.pprev.elim 0 fun prev => prev.nHeight + 1) tx state.view state.checks = outcome
    rfl
  · apply ConnectState.lockstep_of_withMints
    intro state
    unfold minFeeStage
    rw [ConnectState.view_withMints, ConnectState.pindex_withMints]
    cases state.view.getValueIn tx with
    | none => rfl
    | some nTxValueIn =>
      cases tx.getValueOut with
      | none => rfl
      | some nTxValueOut =>
        dsimp only
        split_ifs <;> rfl

theorem lockstep_connectTransaction (tx : CTransaction) :
    Stage.Lockstep (ConnectState.ButMints mints) (connectTransaction env block tx) := by
  apply Stage.lockstep_sequence
  intro stage member
  simp only [List.mem_cons, List.not_mem_nil, or_false] at member
  rcases member with rfl | rfl | rfl | rfl | rfl | rfl
  · exact ConnectState.lockstep_update fun _ => rfl
  · exact lockstep_rejectSigOps mints
  · exact ConnectState.lockstep_rejectIf (fun _ => rfl) fun _ => rfl
  · split_ifs
    · exact lockstep_zerocoinSpendStages env mints tx
    · exact Stage.lockstep_when (lockstep_coinSpendStages env block mints tx)
  · apply ConnectState.lockstep_of_withMints
    intro state
    unfold addValueOut
    cases tx.getValueOut <;> rfl
  · apply ConnectState.lockstep_of_withMints
    intro state
    unfold applyTransaction
    rw [ConnectState.view_withMints, ConnectState.pindex_withMints]
    cases CCoinsViewCache.updateCoins tx state.view state.pindex.nHeight <;> rfl

theorem lockstep_connectRewards :
    ∀ stage ∈ connectRewards env block, Stage.Lockstep (ConnectState.ButMints mints) stage := by
  intro stage member
  simp only [connectRewards, List.mem_cons, List.not_mem_nil, or_false] at member
  rcases member with rfl | rfl | rfl | rfl | rfl | rfl
  · apply ConnectState.lockstep_of_withMints
    intro state
    rw [updateSupply_eq, updateSupply_eq, ConnectState.pindex_withMints]
    generalize updateZPIVSupply env.context.params env.context.lib env.fraud block env.pprev
      state.pindex = outcome
    obtain ⟨exit, supplied⟩ := outcome
    cases exit <;> rfl
  · exact ConnectState.lockstep_update fun _ => rfl
  · exact ConnectState.lockstep_rejectIf (fun _ => rfl) fun _ => rfl
  · exact ConnectState.lockstep_rejectIf (fun _ => rfl) fun _ => rfl
  · apply ConnectState.lockstep_of_withMints
    intro state
    unfold accumulatorStage
    rw [ConnectState.pindex_withMints]
    cases validateAccumulatorCheckpoint env block state.pindex.nHeight <;> rfl
  · exact ConnectState.lockstep_rejectIf (fun _ => rfl) fun _ => rfl

theorem recordSpends_withMints (state : ConnectState) :
    recordSpends (state.withMints mints) = (recordSpends state).withMints mints := by
  have folded : ∀ (spends : List (CBigNum × Uint256)) (db : CZerocoinDB),
      spends.foldl (fun current spend => current.writeCoinSpend spend.1 spend.2)
          { db with mints := mints } =
        { spends.foldl (fun current spend => current.writeCoinSpend spend.1 spend.2) db with
          mints := mints } := by
    intro spends
    induction spends with
    | nil => exact fun _ => rfl
    | cons spend rest ih =>
      exact fun db => ih (db.writeCoinSpend spend.1 spend.2)
  have recorded := folded state.vSpends state.checks.zerocoinDB
  unfold recordSpends onZerocoinDB ConnectState.withMints ConnectState.onChecks CheckState.withMints
  dsimp only
  rw [recorded]

theorem databaseChecksums_withMints (state : ConnectState) :
    databaseChecksums env (state.withMints mints) =
      (databaseChecksums env state).withMints mints := by
  have folded : ∀ (denominations : List CoinDenomination) (db : CZerocoinDB),
      denominations.foldl (fun current denomination =>
          current.writeAccumulatorValue (env.getChecksum (state.mapAccumulators denomination))
            (state.mapAccumulators denomination)) { db with mints := mints } =
        { denominations.foldl (fun current denomination =>
            current.writeAccumulatorValue
              (env.getChecksum (state.mapAccumulators denomination))
                (state.mapAccumulators denomination)) db with
          mints := mints } := by
    intro denominations
    induction denominations with
    | nil => exact fun _ => rfl
    | cons denomination rest ih =>
      exact fun db => ih (db.writeAccumulatorValue _ _)
  have written := folded CoinDenomination.zerocoinDenomList state.checks.zerocoinDB
  unfold databaseChecksums onZerocoinDB ConnectState.withMints ConnectState.onChecks
    CheckState.withMints
  dsimp only
  rw [written]

theorem lockstep_connectWrites :
    ∀ stage ∈ connectWrites env, Stage.Lockstep (ConnectState.ButMints mints) stage := by
  intro stage member
  simp only [connectWrites, List.mem_cons, List.not_mem_nil, or_false] at member
  rcases member with rfl | rfl | rfl | rfl | rfl
  · apply ConnectState.lockstep_of_withMints
    intro state
    unfold writeUndo
    rw [ConnectState.pindex_withMints]
    split_ifs
    · rfl
    · cases env.findUndoPos with
      | none => rfl
      | some nPos => rfl
    · cases env.findUndoPos with
      | none => rfl
      | some nPos => rfl
  · exact ConnectState.lockstep_update (recordSpends_withMints mints)
  · exact ConnectState.lockstep_update (databaseChecksums_withMints env mints)
  · exact Stage.lockstep_when (ConnectState.lockstep_update fun _ => rfl)
  · exact ConnectState.lockstep_update fun _ => rfl

/-- The stages after `CheckBlock`. -/
def stagesAfterCheckBlock (fJustCheck fAlreadyChecked : Bool) : List (Stage ConnectState) :=
  (connectChecks env block fJustCheck fAlreadyChecked).tail ++
    connectTransactions env block ::
      (connectRewards env block ++
        Stage.acceptIf (fun _ => fJustCheck) id :: connectWrites env)

theorem lockstep_stagesAfterCheckBlock (fJustCheck fAlreadyChecked : Bool) :
    ∀ stage ∈ stagesAfterCheckBlock env block fJustCheck fAlreadyChecked,
      Stage.Lockstep (ConnectState.ButMints mints) stage := by
  intro stage member
  rcases List.mem_append.mp member with inChecks | member
  · simp only [connectChecks, List.tail_cons, List.mem_cons, List.not_mem_nil, or_false] at inChecks
    rcases inChecks with rfl | rfl | rfl | rfl | rfl
    · apply Stage.lockstep_assert
      rintro left right rfl
      rfl
    · apply Stage.lockstep_acceptIf
      · rintro left right rfl
        rfl
      · rintro left right rfl
        rfl
    · exact ConnectState.lockstep_rejectIf (fun _ => rfl) fun _ => rfl
    · exact ConnectState.lockstep_rejectIf (fun _ => rfl) fun _ => rfl
    · exact ConnectState.lockstep_rejectIf (fun _ => rfl) fun _ => rfl
  rcases List.mem_cons.mp member with rfl | member
  · exact Stage.lockstep_forEach fun tx _ => lockstep_connectTransaction env block mints tx
  rcases List.mem_append.mp member with inRewards | member
  · exact lockstep_connectRewards env block mints stage inRewards
  rcases List.mem_cons.mp member with rfl | inWrites
  · apply Stage.lockstep_acceptIf
    · exact fun _ _ _ => rfl
    · exact fun _ _ butMints => butMints
  · exact lockstep_connectWrites env mints stage inWrites

end Stages

/-- Two calls whose `CheckBlock` is skipped, or ends alike, end alike. -/
theorem connectBlock_inStep
    {env : ConnectEnv} {block : CBlock} {fJustCheck fAlreadyChecked : Bool}
    {left : ConnectWorld} {checks : CheckState}
    (same : checks = left.checks.withMints checks.zerocoinDB.mints)
    (checked : fAlreadyChecked = false →
      CheckState.Shadowed block.Mints left.checks checks) :
    (connectBlock env block fJustCheck fAlreadyChecked { left with checks := checks }).1 =
      (connectBlock env block fJustCheck fAlreadyChecked left).1 := by
  have split : ∀ world, connectBlock env block fJustCheck fAlreadyChecked world =
      Stage.run (checkBlockStage env block fJustCheck fAlreadyChecked ::
        stagesAfterCheckBlock env block fJustCheck fAlreadyChecked)
          (ConnectState.start env block world) :=
    fun _ => rfl
  rw [split, split]
  cases fAlreadyChecked with
  | true =>
    have started : ConnectState.ButMints checks.zerocoinDB.mints
        (ConnectState.start env block left)
        (ConnectState.start env block { left with checks := checks }) := by
      unfold ConnectState.ButMints ConnectState.start ConnectState.withMints ConnectState.onChecks
      rw [← same]
    exact (Stage.run_inStep
      (lockstep_stagesAfterCheckBlock env block checks.zerocoinDB.mints fJustCheck true)
      started).1
  | false =>
    obtain ⟨sameExit, shadowed⟩ := checkBlock_inStep env.context env.node (!fJustCheck)
      (checked rfl)
    have first : ∀ state,
        checkBlockStage env block fJustCheck false state =
          (if (checkBlock env.context env.node (!fJustCheck) block state.checks).1 =
              .accept then none
            else some (checkBlock env.context env.node (!fJustCheck) block state.checks).1,
            { state with
              checks :=
                (checkBlock env.context env.node (!fJustCheck) block state.checks).2 }) := by
      intro state
      unfold checkBlockStage Stage.when
      rw [Bool.not_false, if_pos rfl, Stage.require_eq]
      split_ifs <;> rfl
    unfold Stage.run Stage.finish
    rw [Stage.sequence_cons, Stage.sequence_cons, first, first]
    unfold ConnectState.start
    rw [sameExit]
    generalize checkBlock env.context env.node (!fJustCheck) block left.checks =
      leftOutcome at sameExit shadowed ⊢
    generalize checkBlock env.context env.node (!fJustCheck) block checks = rightOutcome
      at sameExit shadowed ⊢
    obtain ⟨leftExit, leftChecked⟩ := leftOutcome
    obtain ⟨rightExit, rightChecked⟩ := rightOutcome
    split_ifs
    · have started : ConnectState.ButMints rightChecked.zerocoinDB.mints
          { ConnectState.start env block left with checks := leftChecked }
          { ConnectState.start env block left with checks := rightChecked } := by
        unfold ConnectState.ButMints ConnectState.withMints ConnectState.onChecks
        rw [← shadowed.same]
      have stepped := Stage.lockstep_sequence
        (lockstep_stagesAfterCheckBlock env block rightChecked.zerocoinDB.mints fJustCheck
          false) _ _ started
      exact congrArg (Option.getD · Exit.accept) stepped.1
    · rfl

end ColossusCoin
