import ColossusCoin.Validation.ConnectAccept

/-!
# What connecting a block leaves alone

The records that outlive a call of `ConnectBlock` are the zerocoin database, the
index entry and the transaction index.  The loop over the transactions changes
none of them, and the stages before it change at most the mints recorded in the
database.
-/

namespace ColossusCoin

/-- The records that outlive a call. -/
structure Records where
  zerocoinDB : CZerocoinDB
  pindex : CBlockIndex
  txIndex : Uint256 → Option CDiskTxPos

/-- The records of a state. -/
def ConnectWorld.records (world : ConnectWorld) : Records where
  zerocoinDB := world.checks.zerocoinDB
  pindex := world.pindex
  txIndex := world.txIndex

/-- The records of a state in the middle of a call. -/
def ConnectState.records (state : ConnectState) : Records :=
  state.toConnectWorld.records

/-- What the stages of both kinds of transactions leave alone. -/
def ConnectState.recordsAndOutputs (state : ConnectState) : Records × Int :=
  (state.records, state.nValueOut)

/-- What the stages of a transaction that spends coins leave alone: the serials queued
as well. -/
def ConnectState.outsideCoins (state : ConnectState) :
    (Records × Int) × List (CBigNum × Uint256) :=
  (state.recordsAndOutputs, state.vSpends)

section Loop

variable (env : ConnectEnv) (block : CBlock)

theorem frame_rejectIf_dos
    (test : ConnectState → Bool) (level : Int) (code : Nat) (reason : String) :
    Stage.Frame ConnectState.outsideCoins
      (Stage.rejectIf test (ConnectState.dos level code reason)) :=
  Stage.frame_rejectIf test fun _ => rfl

theorem frame_connectSpend (tx : CTransaction) (txin : CTxIn) :
    Stage.Frame ConnectState.recordsAndOutputs (connectSpend env tx txin) := by
  intro state
  unfold connectSpend
  cases env.context.lib.txInToZerocoinSpend txin with
  | none => rfl
  | some spend =>
    dsimp only
    split_ifs <;> rfl

theorem frame_zerocoinSpendStages (tx : CTransaction) :
    Stage.Frame ConnectState.recordsAndOutputs (Stage.sequence (zerocoinSpendStages env tx)) := by
  apply Stage.frame_sequence
  intro stage member
  simp only [zerocoinSpendStages, List.mem_cons, List.not_mem_nil, or_false] at member
  rcases member with rfl | rfl
  · exact Stage.frame_rejectIf _ fun _ => rfl
  · exact Stage.frame_forEach fun txin _ => frame_connectSpend env tx txin

theorem frame_addP2SHSigOps (tx : CTransaction) :
    Stage.Frame ConnectState.outsideCoins (addP2SHSigOps tx) := by
  intro state
  unfold addP2SHSigOps
  cases state.view.getP2SHSigOpCount tx <;> rfl

theorem frame_addValueIn (tx : CTransaction) :
    Stage.Frame ConnectState.outsideCoins (addValueIn tx) := by
  intro state
  unfold addValueIn
  cases state.view.getValueIn tx with
  | none => rfl
  | some nTxValueIn =>
    split_ifs
    · rfl
    · cases tx.getValueOut <;> rfl

theorem frame_checkInputsStage (tx : CTransaction) :
    Stage.Frame ConnectState.outsideCoins (checkInputsStage env block tx) := by
  intro state
  have same := congrArg Prod.fst (@endsAtInputs_checkInputs env.context.params
    (env.scriptEnv block state.pindex) state.view tx state.checks
    (env.pprev.elim 0 fun prev => prev.nHeight + 1)).outsideState
  dsimp only [CheckState.outsideState] at same
  unfold checkInputsStage ConnectState.outsideCoins ConnectState.recordsAndOutputs
    ConnectState.records ConnectWorld.records
  rw [same]

theorem frame_minFeeStage (tx : CTransaction) :
    Stage.Frame ConnectState.outsideCoins (minFeeStage env tx) := by
  intro state
  unfold minFeeStage
  cases state.view.getValueIn tx with
  | none => rfl
  | some nTxValueIn =>
    cases tx.getValueOut with
    | none => rfl
    | some nTxValueOut =>
      dsimp only
      split_ifs <;> rfl

theorem frame_coinSpendStages (tx : CTransaction) :
    Stage.Frame ConnectState.outsideCoins (Stage.sequence (coinSpendStages env block tx)) := by
  apply Stage.frame_sequence
  intro stage member
  simp only [coinSpendStages, List.mem_cons, List.not_mem_nil, or_false] at member
  rcases member with rfl | rfl | rfl | rfl | rfl | rfl | rfl
  · exact frame_rejectIf_dos _ _ _ _
  · exact frame_rejectIf_dos _ _ _ _
  · exact frame_addP2SHSigOps tx
  · exact frame_rejectIf_dos _ _ _ _
  · exact frame_addValueIn tx
  · exact frame_checkInputsStage env block tx
  · exact frame_minFeeStage env tx

/-- The branch on the kind of a transaction. -/
theorem frame_branch (tx : CTransaction) :
    Stage.Frame ConnectState.recordsAndOutputs
      (if tx.isZerocoinSpend then Stage.sequence (zerocoinSpendStages env tx)
      else Stage.when (!tx.isCoinBase) (Stage.sequence (coinSpendStages env block tx))) := by
  split_ifs
  · exact frame_zerocoinSpendStages env tx
  · apply Stage.frame_when
    intro state
    exact congrArg Prod.fst (frame_coinSpendStages env block tx state)

theorem frame_connectTransaction (tx : CTransaction) :
    Stage.Frame ConnectState.records (connectTransaction env block tx) := by
  apply Stage.frame_sequence
  intro stage member
  simp only [List.mem_cons, List.not_mem_nil, or_false] at member
  rcases member with rfl | rfl | rfl | rfl | rfl | rfl
  · exact Stage.frame_update fun _ => rfl
  · exact Stage.frame_rejectIf _ fun _ => rfl
  · exact Stage.frame_rejectIf _ fun _ => rfl
  · intro state
    exact congrArg Prod.fst (frame_branch env block tx state)
  · intro state
    unfold addValueOut
    cases tx.getValueOut <;> rfl
  · intro state
    unfold applyTransaction
    cases CCoinsViewCache.updateCoins tx state.view state.pindex.nHeight <;> rfl

/-- A transaction that passes: its outputs are counted, and it is applied, where its branch
ends. -/
theorem connectTransaction_passes
    {env : ConnectEnv} {block : CBlock} {tx : CTransaction} {state next : ConnectState}
    (passes : connectTransaction env block tx state = (none, next)) :
    inMaintenance env block tx = false ∧
      ∃ reached nTxValueOut txundo view vtxundo vPos nTxOffset,
        (if tx.isZerocoinSpend then Stage.sequence (zerocoinSpendStages env tx)
          else Stage.when (!tx.isCoinBase) (Stage.sequence (coinSpendStages env block tx)))
          { state with nSigOps := state.nSigOps + tx.getLegacySigOpCount } = (none, reached) ∧
        tx.getValueOut = some nTxValueOut ∧
        CCoinsViewCache.updateCoins tx reached.view reached.pindex.nHeight = some (txundo, view) ∧
        next = { reached with
          nValueOut := reached.nValueOut + nTxValueOut
          view := view
          vtxundo := vtxundo
          vPos := vPos
          nTxOffset := nTxOffset } := by
  obtain ⟨counted, counts, passes⟩ := Stage.sequence_cons_eq_none passes
  obtain ⟨afterSigOps, sigOps, passes⟩ := Stage.sequence_cons_eq_none passes
  obtain ⟨afterMaintenance, maintenance, passes⟩ := Stage.sequence_cons_eq_none passes
  obtain ⟨reached, branch, passes⟩ := Stage.sequence_cons_eq_none passes
  obtain ⟨afterOut, addsOut, passes⟩ := Stage.sequence_cons_eq_none passes
  obtain ⟨applied, applies, passes⟩ := Stage.sequence_cons_eq_none passes
  cases passes
  cases counts
  obtain ⟨rfl, -⟩ := Stage.eq_of_rejectIf sigOps
  obtain ⟨rfl, working⟩ := Stage.eq_of_rejectIf maintenance
  refine ⟨working, reached, ?_⟩
  unfold addValueOut at addsOut
  split at addsOut
  · cases addsOut
  · next nTxValueOut returned =>
    cases addsOut
    unfold applyTransaction at applies
    split at applies
    · cases applies
    · next txundo view updated =>
      cases applies
      exact ⟨nTxValueOut, txundo, view, _, _, _, branch, returned, updated, rfl⟩

theorem nValueOut_of_connectTransaction
    {env : ConnectEnv} {block : CBlock} {tx : CTransaction} {state next : ConnectState}
    (passes : connectTransaction env block tx state = (none, next)) :
    next.nValueOut = state.nValueOut + tx.valueOutSum ∧
      ∀ txout ∈ tx.vout, 0 ≤ txout.nValue := by
  obtain ⟨-, reached, nTxValueOut, txundo, view, vtxundo, vPos, nTxOffset, branch, returned, -,
    rfl⟩ := connectTransaction_passes passes
  have branchOut := congrArg Prod.snd (frame_branch env block tx
    { state with nSigOps := state.nSigOps + tx.getLegacySigOpCount })
  rw [branch] at branchOut
  change reached.nValueOut = state.nValueOut at branchOut
  obtain ⟨sumEq, nonneg⟩ := CTransaction.getValueOut_eq_some returned
  exact ⟨by rw [← branchOut, ← sumEq], nonneg⟩

/-- A loop that passes adds the outputs of all transactions, none of them
negative. -/
theorem nValueOut_of_forEach
    {env : ConnectEnv} {block : CBlock}
    (passes : Stage.forEach (connectTransaction env block) txs state = (none, final)) :
    final.nValueOut = state.nValueOut + (txs.map CTransaction.valueOutSum).sum ∧
      ∀ tx ∈ txs, ∀ txout ∈ tx.vout, 0 ≤ txout.nValue := by
  induction txs generalizing state with
  | nil =>
    cases passes
    simp
  | cons tx rest ih =>
    obtain ⟨next, outcome, passes⟩ := Stage.forEach_cons_eq_none passes
    obtain ⟨added, nonneg⟩ := nValueOut_of_connectTransaction outcome
    obtain ⟨others, othersNonneg⟩ := ih passes
    refine ⟨?_, List.forall_mem_cons.mpr ⟨nonneg, othersNonneg⟩⟩
    rw [others, added, List.map_cons, List.sum_cons, Int.add_assoc]

/-- The loop over the transactions leaves the records as they are. -/
theorem frame_connectTransactions :
    Stage.Frame ConnectState.records (connectTransactions env block) :=
  Stage.frame_forEach fun tx _ => frame_connectTransaction env block tx

/-- The stages before the loop leave the index entry and the transaction index, count
no outputs, and queue no serials. -/
theorem frame_connectChecks (fJustCheck fAlreadyChecked : Bool) :
    Stage.Frame
      (fun state : ConnectState =>
        (state.pindex, state.txIndex, state.nValueOut, state.vSpends))
      (Stage.sequence (connectChecks env block fJustCheck fAlreadyChecked)) := by
  apply Stage.frame_sequence
  intro stage member
  simp only [connectChecks, List.mem_cons, List.not_mem_nil, or_false] at member
  rcases member with rfl | rfl | rfl | rfl | rfl | rfl
  · exact Stage.frame_when (Stage.frame_require (fun _ => rfl) fun _ => rfl)
  · intro state
    unfold Stage.assert
    split_ifs <;> rfl
  · intro state
    unfold Stage.acceptIf
    split_ifs <;> rfl
  · exact Stage.frame_rejectIf _ fun _ => rfl
  · exact Stage.frame_rejectIf _ fun _ => rfl
  · exact Stage.frame_rejectIf _ fun _ => rfl

end Loop

end ColossusCoin
