import ColossusCoin.Validation.RewardsElsewhere

/-!
# What a node asks of a block that it connects

The fees and the amount minted that `ConnectBlock` arrives at are functions of the block
and of the coins it is connected on.  A node that connects a block finds nothing wrong
with it in the tests that are its own.
-/

namespace ColossusCoin

/-! ## What the loop counts -/

/-- What the stages of a transaction leave alone, apart from those that count values. -/
def ConnectState.counts (state : ConnectState) :
    CCoinsViewCache × CBlockIndex × Int × Int :=
  (state.view, state.pindex, state.nFees, state.nValueIn)

section Transaction

variable {env : ConnectEnv} {block : CBlock} {tx : CTransaction}

theorem counts_of_addP2SHSigOps (passes : addP2SHSigOps tx state = (none, next)) :
    next.counts = state.counts := by
  unfold addP2SHSigOps at passes
  split at passes <;> cases passes
  rfl

theorem counts_of_checkInputsStage
    (passes : checkInputsStage env block tx state = (none, next)) :
    next.counts = state.counts := by
  unfold checkInputsStage at passes
  generalize checkInputs _ _ _ tx state.view state.checks = outcome at passes
  obtain ⟨⟨exit, after⟩, vChecks⟩ := outcome
  cases passes
  rfl

theorem counts_of_addValueIn
    (notZerocoin : tx.isZerocoinSpend = false)
    (notCoinBase : tx.isCoinBase = false)
    (passes : addValueIn tx state = (none, next)) :
    next.counts =
      (state.view, state.pindex, state.nFees + countedFee (tx, state.view),
        state.nValueIn + countedValueIn env.context.lib (tx, state.view)) := by
  have spends : spendsCoins (tx, state.view) = true := by
    simp [spendsCoins, notZerocoin, notCoinBase]
  unfold countedFee countedValueIn surplus
  rw [spends, notZerocoin, notCoinBase]
  unfold addValueIn at passes
  cases valueIn : state.view.getValueIn tx with
  | none =>
    rw [valueIn] at passes
    cases passes
  | some nTxValueIn =>
    rw [valueIn] at passes
    dsimp only at passes
    cases coinStake : tx.isCoinStake with
    | true =>
      rw [coinStake, if_pos rfl] at passes
      cases passes
      simp [ConnectState.counts]
    | false =>
      rw [coinStake, if_neg Bool.false_ne_true] at passes
      cases valueOut : tx.getValueOut with
      | none =>
        rw [valueOut] at passes
        cases passes
      | some nTxValueOut =>
        rw [valueOut] at passes
        cases passes
        simp [ConnectState.counts]

theorem enough_of_minFeeStage
    (passes : minFeeStage env tx state = (none, next)) :
    next = state ∧
      paysTooLittle env.node state.pindex.nHeight (tx, state.view) = false := by
  unfold minFeeStage at passes
  cases valueIn : state.view.getValueIn tx with
  | none =>
    rw [valueIn] at passes
    cases passes
  | some nTxValueIn =>
    rw [valueIn] at passes
    cases valueOut : tx.getValueOut with
    | none =>
      rw [valueOut] at passes
      cases passes
    | some nTxValueOut =>
      rw [valueOut] at passes
      dsimp only at passes
      split_ifs at passes with refused
      · cases passes
      · cases passes
        refine ⟨rfl, ?_⟩
        unfold paysTooLittle surplus
        rw [valueIn, valueOut, Bool.and_assoc, Bool.and_assoc, Bool.and_eq_false_iff]
        right
        rw [← Bool.and_assoc]
        rw [Bool.not_eq_true] at refused
        exact refused

theorem counts_of_coinSpendStages
    (notZerocoin : tx.isZerocoinSpend = false)
    (notCoinBase : tx.isCoinBase = false)
    (passes : Stage.sequence (coinSpendStages env block tx) state = (none, next)) :
    next.counts =
        (state.view, state.pindex, state.nFees + countedFee (tx, state.view),
          state.nValueIn + countedValueIn env.context.lib (tx, state.view)) ∧
      paysTooLittle env.node state.pindex.nHeight (tx, state.view) = false := by
  obtain ⟨afterInputs, inputs, passes⟩ := Stage.sequence_cons_eq_none passes
  obtain ⟨afterOutPoints, outPoints, passes⟩ := Stage.sequence_cons_eq_none passes
  obtain ⟨afterP2SH, p2sh, passes⟩ := Stage.sequence_cons_eq_none passes
  obtain ⟨afterSigOps, sigOps, passes⟩ := Stage.sequence_cons_eq_none passes
  obtain ⟨afterValueIn, valueIn, passes⟩ := Stage.sequence_cons_eq_none passes
  obtain ⟨afterScripts, scripts, passes⟩ := Stage.sequence_cons_eq_none passes
  obtain ⟨afterFee, fee, passes⟩ := Stage.sequence_cons_eq_none passes
  cases passes
  obtain ⟨rfl, -⟩ := Stage.eq_of_rejectIf inputs
  obtain ⟨rfl, -⟩ := Stage.eq_of_rejectIf outPoints
  obtain ⟨rfl, -⟩ := Stage.eq_of_rejectIf sigOps
  obtain ⟨rfl, enough⟩ := enough_of_minFeeStage fee
  have before := counts_of_addP2SHSigOps p2sh
  have counted := @counts_of_addValueIn env _ _ _ notZerocoin notCoinBase valueIn
  have after := counts_of_checkInputsStage scripts
  simp only [ConnectState.counts, Prod.mk.injEq] at before counted after ⊢
  obtain ⟨view, pindex, nFees, nValueIn⟩ := before
  rw [view, pindex, nFees, nValueIn] at counted
  obtain ⟨countedView, countedPindex, countedFees, countedIn⟩ := counted
  rw [countedView, countedPindex, countedFees, countedIn] at after
  obtain ⟨afterView, afterPindex, afterFees, afterIn⟩ := after
  rw [afterView, afterPindex] at enough
  exact ⟨⟨afterView, afterPindex, afterFees, afterIn⟩, enough⟩

theorem counts_of_connectSpends
    (passes : Stage.forEach (connectSpend env tx) txins state = (none, next)) :
    next.counts =
      (state.view, state.pindex, state.nFees,
        state.nValueIn + (txins.map fun txin =>
          (env.context.lib.txInToZerocoinSpend txin).elim 0 fun spend =>
            spend.denomination.toAmount).sum) := by
  induction txins generalizing state with
  | nil =>
    cases passes
    simp [ConnectState.counts]
  | cons txin rest ih =>
    obtain ⟨middle, outcome, passes⟩ := Stage.forEach_cons_eq_none passes
    unfold connectSpend at outcome
    cases decoded : env.context.lib.txInToZerocoinSpend txin with
    | none =>
      rw [decoded] at outcome
      cases outcome
    | some spend =>
      rw [decoded] at outcome
      dsimp only at outcome
      split_ifs at outcome <;> cases outcome
      rw [ih passes, List.map_cons, List.sum_cons, decoded]
      simp [Int.add_assoc]

/-- A transaction that is connected: what it adds to the counts, the coins it leaves, and
what the node asked of it. -/
structure TransactionConnected (env : ConnectEnv) (block : CBlock) (tx : CTransaction)
    (state next : ConnectState) : Prop where
  fees : next.nFees = state.nFees + countedFee (tx, state.view)
  valueIn : next.nValueIn =
    state.nValueIn + countedValueIn env.context.lib (tx, state.view)
  coins : ∃ txundo, CCoinsViewCache.updateCoins tx state.view state.pindex.nHeight =
    some (txundo, next.view)
  entry : next.pindex = state.pindex
  working : inMaintenance env block tx = false
  enough : paysTooLittle env.node state.pindex.nHeight (tx, state.view) = false

theorem transactionConnected
    (passes : connectTransaction env block tx state = (none, next)) :
    TransactionConnected env block tx state next := by
  obtain ⟨working, reached, nTxValueOut, txundo, coins, vtxundo, vPos, nTxOffset, branch, -,
    updated, rfl⟩ := connectTransaction_passes passes
  -- Only the stages of the kind of the transaction count fees and inputs.
  have branchCounts : reached.counts =
      (state.view, state.pindex, state.nFees + countedFee (tx, state.view),
        state.nValueIn + countedValueIn env.context.lib (tx, state.view)) ∧
      paysTooLittle env.node state.pindex.nHeight (tx, state.view) = false := by
    cases zerocoin : tx.isZerocoinSpend with
    | true =>
      rw [if_pos zerocoin] at branch
      obtain ⟨afterChain, inChain, branch⟩ := Stage.sequence_cons_eq_none branch
      obtain ⟨afterSpends, spends, branch⟩ := Stage.sequence_cons_eq_none branch
      cases branch
      obtain ⟨rfl, -⟩ := Stage.eq_of_rejectIf inChain
      rw [counts_of_connectSpends spends]
      simp [countedFee, countedValueIn, paysTooLittle, spendsCoins, zerocoin]
    | false =>
      rw [if_neg (by simp [zerocoin])] at branch
      cases coinBase : tx.isCoinBase with
      | true =>
        rw [coinBase] at branch
        cases branch
        simp [ConnectState.counts, countedFee, countedValueIn, paysTooLittle, spendsCoins,
          zerocoin, coinBase]
      | false =>
        rw [coinBase] at branch
        exact @counts_of_coinSpendStages env block tx
          { state with nSigOps := state.nSigOps + tx.getLegacySigOpCount } reached
          zerocoin coinBase branch
  obtain ⟨branchCounted, enough⟩ := branchCounts
  simp only [ConnectState.counts, Prod.mk.injEq] at branchCounted
  obtain ⟨view, pindex, nFees, nValueIn⟩ := branchCounted
  rw [view, pindex] at updated
  exact ⟨nFees, nValueIn, ⟨txundo, updated⟩, pindex, working, enough⟩

end Transaction

/-- A loop that passes counts the fees and the inputs of its transactions on the coins of
each, and asked nothing of its own that they do not meet. -/
structure LoopConnected (env : ConnectEnv) (block : CBlock) (txs : List CTransaction)
    (state final : ConnectState) : Prop where
  fees : final.nFees = state.nFees +
    ((viewsInBlock state.pindex.nHeight txs state.view).map countedFee).sum
  valueIn : final.nValueIn = state.nValueIn +
    ((viewsInBlock state.pindex.nHeight txs state.view).map
      (countedValueIn env.context.lib)).sum
  entry : final.pindex = state.pindex
  working : ∀ tx ∈ txs, inMaintenance env block tx = false
  enough : ∀ connected ∈ viewsInBlock state.pindex.nHeight txs state.view,
    paysTooLittle env.node state.pindex.nHeight connected = false

theorem loopConnected
    (passes : Stage.forEach (connectTransaction env block) txs state = (none, final)) :
    LoopConnected env block txs state final := by
  induction txs generalizing state with
  | nil =>
    cases passes
    constructor <;> simp [viewsInBlock]
  | cons tx rest ih =>
    obtain ⟨next, outcome, passes⟩ := Stage.forEach_cons_eq_none passes
    have head := transactionConnected outcome
    have others := ih passes
    obtain ⟨txundo, coins⟩ := head.coins
    have views : viewsInBlock state.pindex.nHeight (tx :: rest) state.view =
        (tx, state.view) :: viewsInBlock next.pindex.nHeight rest next.view := by
      rw [viewsInBlock, coins, head.entry]
    constructor
    · rw [views, others.fees, head.fees, List.map_cons, List.sum_cons, Int.add_assoc]
    · rw [views, others.valueIn, head.valueIn, List.map_cons, List.sum_cons, Int.add_assoc]
    · rw [others.entry, head.entry]
    · exact List.forall_mem_cons.mpr ⟨head.working, others.working⟩
    · have enough := others.enough
      rw [head.entry] at enough
      rw [views, head.entry]
      exact List.forall_mem_cons.mpr ⟨head.enough, enough⟩

/-- A state before the loop: nothing is counted. -/
structure Uncounted (state : ConnectState) : Prop where
  nFees : state.nFees = 0
  nValueIn : state.nValueIn = 0
  nValueOut : state.nValueOut = 0

theorem amounts_of_connectTransactions
    (uncounted : Uncounted state)
    (passes : connectTransactions env block state = (none, final)) :
    final.nFees = blockFees state.pindex.nHeight block state.view ∧
      final.nValueOut - final.nValueIn + final.nFees =
        blockMint env.context.lib state.pindex.nHeight block state.view := by
  have loop := loopConnected passes
  have outputs := (nValueOut_of_forEach passes).1
  have fees := loop.fees
  have valueIn := loop.valueIn
  rw [uncounted.nFees, Int.zero_add] at fees
  rw [uncounted.nValueIn, Int.zero_add] at valueIn
  rw [uncounted.nValueOut, Int.zero_add] at outputs
  rw [fees, valueIn, outputs]
  exact ⟨rfl, rfl⟩

/-- A node finds nothing wrong with a block in the tests of `ConnectBlock` that are its
own, apart from those of `CheckBlock`. -/
structure PassesConnectTests (env : ConnectEnv) (own : NodeData) (block : CBlock)
    (world : ConnectWorld) : Prop where
  few : ∀ state : ConnectState, state.pindex.nHeight = world.pindex.nHeight →
    tooManyTransactions (env.onNode own) block state = false
  working : ∀ tx ∈ block.vtx, inMaintenance (env.onNode own) block tx = false
  enough : ∀ connected ∈ viewsInBlock world.pindex.nHeight block.vtx world.view,
    paysTooLittle own.node world.pindex.nHeight connected = false
  rewards : RewardsPass env own block world.pindex.nHeight
    (blockFees world.pindex.nHeight block world.view)
    (blockMint env.context.lib world.pindex.nHeight block world.view)

/-- The stages between `CheckBlock` and the loop leave the state of a block other than
genesis. -/
theorem eq_of_connectChecks
    {env : ConnectEnv} {block : CBlock} {flag : Bool} {state next : ConnectState}
    (notGenesis : block.hash ≠ env.context.params.hashGenesisBlock)
    (passes : Stage.sequence (connectChecks env block false flag).tail state = (none, next)) :
    next = state ∧ tooManyTransactions env block state = false := by
  obtain ⟨afterBest, best, passes⟩ := Stage.sequence_cons_eq_none passes
  obtain ⟨afterGenesis, genesis, passes⟩ := Stage.sequence_cons_eq_none passes
  obtain ⟨afterWork, work, passes⟩ := Stage.sequence_cons_eq_none passes
  obtain ⟨afterLimit, limit, passes⟩ := Stage.sequence_cons_eq_none passes
  obtain ⟨afterCoins, coins, passes⟩ := Stage.sequence_cons_eq_none passes
  cases passes
  obtain ⟨rfl, -⟩ := Stage.eq_of_rejectIf work
  obtain ⟨rfl, few⟩ := Stage.eq_of_rejectIf limit
  obtain ⟨rfl, -⟩ := Stage.eq_of_rejectIf coins
  have other : (block.hash == env.context.params.hashGenesisBlock) = false := by
    simpa using notGenesis
  unfold Stage.acceptIf at genesis
  rw [other, if_neg Bool.false_ne_true] at genesis
  cases genesis
  unfold Stage.assert at best
  split_ifs at best <;> cases best
  exact ⟨rfl, few⟩

section Necessity

/-- A node that connects a block up to the writes finds nothing wrong with it in its own
tests. -/
theorem passesConnectTests_of_passes
    (notGenesis : block.hash ≠ env.context.params.hashGenesisBlock)
    (uncounted : Uncounted start)
    (view : start.view = world.view)
    (height : start.pindex.nHeight = world.pindex.nHeight)
    (checks : Stage.sequence (connectChecks (env.onNode own) block false flag).tail start =
      (none, checked))
    (transactions : connectTransactions (env.onNode own) block checked = (none, connected))
    (rewards : Stage.sequence (connectRewards (env.onNode own) block) connected =
      (none, rewarded)) :
    PassesConnectTests env own block world := by
  obtain ⟨rfl, few⟩ :=
    @eq_of_connectChecks (env.onNode own) block flag start checked notGenesis checks
  have loop := loopConnected transactions
  obtain ⟨fees, minted⟩ := amounts_of_connectTransactions uncounted transactions
  obtain ⟨supplied, accepted⟩ := rewardsAccepted rewards
  have rewardedHeight := nHeight_of_rewardsAccepted accepted
  have rewardedMint := nMint_of_rewardsAccepted accepted
  have locals := accepted.locals
  simp only [Prod.mk.injEq] at locals
  rw [loop.entry, height] at rewardedHeight
  rw [view, height] at fees minted
  have rewardedFees := locals.2.1.trans fees
  have tracked : rewarded.pindex.nMint =
      blockMint env.context.lib world.pindex.nHeight block world.view := by
    rw [ConnectEnv.context_onNode] at minted
    omega
  have enough := loop.enough
  rw [view, height] at enough
  refine ⟨?_, loop.working, enough, ?_, ?_⟩
  · intro state same
    unfold tooManyTransactions at few ⊢
    rw [same, ← height]
    exact few
  · have payees := accepted.payees
    unfold payeeRefused at payees
    rw [rewardedHeight, rewardedFees, Bool.and_eq_false_iff, Bool.not_eq_false',
      Bool.not_eq_false'] at payees
    exact payees
  · intro _
    have value := accepted.value
    unfold valueRefused at value
    rw [rewardedHeight, rewardedFees, tracked, Bool.not_eq_false'] at value
    exact value

end Necessity

end ColossusCoin
