import ColossusCoin.Validation.ConnectBlock

/-!
# What acceptance by `ConnectBlock` says

Only genesis and the flag `fJustCheck` end `ConnectBlock` early with success.  Any
other accepted block has passed every stage, and the records that the stages
leave alone are those the call was given.
-/

namespace ColossusCoin

variable (env : ConnectEnv) (block : CBlock)

theorem neverAccepts_connectChecks
    {env : ConnectEnv} {block : CBlock}
    (notGenesis : block.hash ≠ env.context.params.hashGenesisBlock)
    (fJustCheck fAlreadyChecked : Bool) :
    ∀ stage ∈ connectChecks env block fJustCheck fAlreadyChecked, Stage.NeverAccepts stage := by
  intro stage member
  simp only [connectChecks, List.mem_cons, List.not_mem_nil, or_false] at member
  rcases member with rfl | rfl | rfl | rfl | rfl | rfl
  · exact Stage.neverAccepts_when (Stage.neverAccepts_require _ _)
  · exact Stage.neverAccepts_assert _
  · intro state
    simp [Stage.acceptIf, notGenesis]
  · exact Stage.neverAccepts_rejectIf _ _
  · exact Stage.neverAccepts_rejectIf _ _
  · exact Stage.neverAccepts_rejectIf _ _

theorem neverAccepts_connectSpend (tx : CTransaction) (txin : CTxIn) :
    Stage.NeverAccepts (connectSpend env tx txin) := by
  intro state
  unfold connectSpend
  cases env.context.lib.txInToZerocoinSpend txin with
  | none => simp
  | some spend =>
    dsimp only
    split_ifs <;> simp

theorem neverAccepts_addP2SHSigOps (tx : CTransaction) :
    Stage.NeverAccepts (addP2SHSigOps tx) := by
  intro state
  unfold addP2SHSigOps
  cases state.view.getP2SHSigOpCount tx <;> simp

theorem neverAccepts_addValueIn (tx : CTransaction) :
    Stage.NeverAccepts (addValueIn tx) := by
  intro state
  unfold addValueIn
  cases state.view.getValueIn tx with
  | none => simp
  | some nTxValueIn =>
    split_ifs
    · simp
    · cases tx.getValueOut <;> simp

theorem neverAccepts_minFeeStage (tx : CTransaction) :
    Stage.NeverAccepts (minFeeStage env tx) := by
  intro state
  unfold minFeeStage
  cases state.view.getValueIn tx with
  | none => simp
  | some nTxValueIn =>
    cases tx.getValueOut with
    | none => simp
    | some nTxValueOut =>
      dsimp only
      split_ifs <;> simp

theorem neverAccepts_coinSpendStages (tx : CTransaction) :
    Stage.NeverAccepts (Stage.sequence (coinSpendStages env block tx)) := by
  apply Stage.neverAccepts_sequence
  intro stage member
  simp only [coinSpendStages, List.mem_cons, List.not_mem_nil, or_false] at member
  rcases member with rfl | rfl | rfl | rfl | rfl | rfl | rfl
  · exact Stage.neverAccepts_rejectIf _ _
  · exact Stage.neverAccepts_rejectIf _ _
  · exact neverAccepts_addP2SHSigOps tx
  · exact Stage.neverAccepts_rejectIf _ _
  · exact neverAccepts_addValueIn tx
  · intro state
    exact (endsAtInputs_checkInputs _).ne_accept
  · exact neverAccepts_minFeeStage env tx

theorem neverAccepts_zerocoinSpendStages (tx : CTransaction) :
    Stage.NeverAccepts (Stage.sequence (zerocoinSpendStages env tx)) := by
  apply Stage.neverAccepts_sequence
  intro stage member
  simp only [zerocoinSpendStages, List.mem_cons, List.not_mem_nil, or_false] at member
  rcases member with rfl | rfl
  · exact Stage.neverAccepts_rejectIf _ _
  · exact Stage.neverAccepts_forEach fun txin _ => neverAccepts_connectSpend env tx txin

theorem neverAccepts_connectTransaction (tx : CTransaction) :
    Stage.NeverAccepts (connectTransaction env block tx) := by
  apply Stage.neverAccepts_sequence
  intro stage member
  simp only [List.mem_cons, List.not_mem_nil, or_false] at member
  rcases member with rfl | rfl | rfl | rfl | rfl | rfl
  · exact Stage.neverAccepts_update _
  · exact Stage.neverAccepts_rejectIf _ _
  · exact Stage.neverAccepts_rejectIf _ _
  · split_ifs
    · exact neverAccepts_zerocoinSpendStages env tx
    · exact Stage.neverAccepts_when (neverAccepts_coinSpendStages env block tx)
  · intro state
    unfold addValueOut
    cases tx.getValueOut <;> simp
  · intro state
    unfold applyTransaction
    cases CCoinsViewCache.updateCoins tx state.view state.pindex.nHeight <;> simp

theorem neverAccepts_connectTransactions :
    Stage.NeverAccepts (connectTransactions env block) :=
  Stage.neverAccepts_forEach fun tx _ => neverAccepts_connectTransaction env block tx

theorem neverAccepts_connectRewards :
    ∀ stage ∈ connectRewards env block, Stage.NeverAccepts stage := by
  intro stage member
  simp only [connectRewards, List.mem_cons, List.not_mem_nil, or_false] at member
  rcases member with rfl | rfl | rfl | rfl | rfl | rfl
  · exact Stage.neverAccepts_require _ _
  · exact Stage.neverAccepts_update _
  · exact Stage.neverAccepts_rejectIf _ _
  · exact Stage.neverAccepts_rejectIf _ _
  · intro state
    unfold accumulatorStage
    cases validateAccumulatorCheckpoint env block state.pindex.nHeight <;> simp
  · exact Stage.neverAccepts_rejectIf _ _

/-- The writes leave the amounts that were counted. -/
theorem frame_connectWrites (env : ConnectEnv) :
    Stage.Frame
      (fun state : ConnectState => (state.nFees, state.nValueIn, state.nValueOut,
        state.pindex.nMint, state.pindex.mapZerocoinSupply))
      (Stage.sequence (connectWrites env)) := by
  apply Stage.frame_sequence
  intro stage member
  simp only [connectWrites, List.mem_cons, List.not_mem_nil, or_false] at member
  rcases member with rfl | rfl | rfl | rfl | rfl
  · intro state
    unfold writeUndo
    cases env.findUndoPos with
    | none => split_ifs <;> rfl
    | some nPos => split_ifs <;> rfl
  · exact Stage.frame_update fun _ => rfl
  · exact Stage.frame_update fun _ => rfl
  · exact Stage.frame_when (Stage.frame_update fun _ => rfl)
  · exact Stage.frame_update fun _ => rfl

theorem neverAccepts_connectWrites :
    ∀ stage ∈ connectWrites env, Stage.NeverAccepts stage := by
  intro stage member
  simp only [connectWrites, List.mem_cons, List.not_mem_nil, or_false] at member
  rcases member with rfl | rfl | rfl | rfl | rfl
  · intro state
    unfold writeUndo
    cases env.findUndoPos with
    | none => split_ifs <;> simp
    | some nPos => split_ifs <;> simp
  · exact Stage.neverAccepts_update _
  · exact Stage.neverAccepts_update _
  · exact Stage.neverAccepts_when (Stage.neverAccepts_update _)
  · exact Stage.neverAccepts_update _

/-- The states that a run of `ConnectBlock` passes through when it accepts a block
other than genesis. -/
structure ConnectAccepted (fJustCheck fAlreadyChecked : Bool) (world : ConnectWorld)
    (checked connected rewarded final : ConnectState) : Prop where
  checks : Stage.sequence (connectChecks env block fJustCheck fAlreadyChecked)
    (ConnectState.start env block world) = (none, checked)
  transactions : connectTransactions env block checked = (none, connected)
  rewards : Stage.sequence (connectRewards env block) connected = (none, rewarded)
  justChecked : fJustCheck = true → final = rewarded
  writes : fJustCheck = false →
    Stage.sequence (connectWrites env) rewarded = (none, final)

theorem connectBlock_accept
    {env : ConnectEnv} {block : CBlock} {fJustCheck fAlreadyChecked : Bool}
    {world : ConnectWorld} {final : ConnectState}
    (accepted : connectBlock env block fJustCheck fAlreadyChecked world =
      (.accept, final))
    (notGenesis : block.hash ≠ env.context.params.hashGenesisBlock) :
    ∃ checked connected rewarded,
      ConnectAccepted env block fJustCheck fAlreadyChecked world checked connected
        rewarded final := by
  have accepts := congrArg Prod.fst accepted
  unfold connectBlock at accepted accepts
  obtain ⟨checked, checksPass, fromChecked⟩ := Stage.run_append_of_accept
    (neverAccepts_connectChecks notGenesis fJustCheck fAlreadyChecked) accepts
  rw [fromChecked] at accepted accepts
  obtain ⟨connected, transactionsPass, fromConnected⟩ :=
    Stage.run_cons_of_accept (neverAccepts_connectTransactions env block) accepts
  rw [fromConnected] at accepted accepts
  obtain ⟨rewarded, rewardsPass, fromRewarded⟩ :=
    Stage.run_append_of_accept (neverAccepts_connectRewards env block) accepts
  rw [fromRewarded] at accepted accepts
  refine ⟨checked, connected, rewarded, checksPass, transactionsPass, rewardsPass, ?_, ?_⟩
  · intro justCheck
    subst justCheck
    exact (congrArg Prod.snd accepted).symm
  · intro justCheck
    subst justCheck
    exact Stage.sequence_eq_of_accept (neverAccepts_connectWrites env) accepted

/-- The supply and the rewards of a block, where all the stages from the supply to
the script checks pass. -/
structure RewardsAccepted (connected rewarded : ConnectState) (supplied : CBlockIndex) :
    Prop where
  supply : updateZPIVSupply env.context.params env.context.lib env.fraud block env.pprev
    connected.pindex = (.accept, supplied)
  payees : payeeRefused env block rewarded = false
  value : valueRefused env rewarded = false
  pindex : rewarded.pindex =
    (trackMoneySupply env { connected with pindex := supplied }).pindex
  locals : (rewarded.checks, rewarded.nFees, rewarded.nValueIn, rewarded.nValueOut) =
    (connected.checks, connected.nFees, connected.nValueIn, connected.nValueOut)
  vSpends : rewarded.vSpends = connected.vSpends

theorem rewardsAccepted
    {env : ConnectEnv} {block : CBlock} {connected rewarded : ConnectState}
    (passes : Stage.sequence (connectRewards env block) connected = (none, rewarded)) :
    ∃ supplied, RewardsAccepted env block connected rewarded supplied := by
  obtain ⟨afterSupply, supplies, passes⟩ := Stage.sequence_cons_eq_none passes
  obtain ⟨afterMoney, tracks, passes⟩ := Stage.sequence_cons_eq_none passes
  obtain ⟨afterPayees, payees, passes⟩ := Stage.sequence_cons_eq_none passes
  obtain ⟨afterValue, value, passes⟩ := Stage.sequence_cons_eq_none passes
  obtain ⟨afterAccumulators, accumulates, passes⟩ := Stage.sequence_cons_eq_none passes
  obtain ⟨afterControl, controls, passes⟩ := Stage.sequence_cons_eq_none passes
  cases passes
  have supplyResult := Stage.eq_of_require supplies
  generalize outcome : updateZPIVSupply env.context.params env.context.lib env.fraud block
    env.pprev connected.pindex = result at supplyResult
  obtain ⟨exit, supplied⟩ := result
  obtain ⟨rfl, rfl⟩ := supplyResult
  cases tracks
  obtain ⟨rfl, payeesHold⟩ := Stage.eq_of_rejectIf payees
  obtain ⟨rfl, valueHolds⟩ := Stage.eq_of_rejectIf value
  unfold accumulatorStage at accumulates
  cases accumulators : validateAccumulatorCheckpoint env block
      (trackMoneySupply env { connected with pindex := supplied }).pindex.nHeight with
  | none =>
    rw [accumulators] at accumulates
    cases accumulates
  | some mapAccumulators =>
    rw [accumulators] at accumulates
    cases accumulates
    obtain ⟨rfl, _⟩ := Stage.eq_of_rejectIf controls
    exact ⟨supplied, outcome, payeesHold, valueHolds, rfl, rfl, rfl⟩

end ColossusCoin
