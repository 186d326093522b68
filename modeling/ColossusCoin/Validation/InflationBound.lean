import ColossusCoin.Masternode.DuePayments
import ColossusCoin.Validation.ConnectFrame
import ColossusCoin.Validation.DistinctInputs

/-!
# A bound on inflation

On a synchronized node, with the sporks for superblocks and for the enforcement of
the budget active, whatever a proof-of-stake block creates above its fees and the
expected mint is paid to the payees of the budget.
-/

namespace ColossusCoin

variable {env : ConnectEnv} {block : CBlock} {fJustCheck fAlreadyChecked : Bool}
variable {world : ConnectWorld} {connected rewarded : ConnectState} {supplied : CBlockIndex}

/-- The entry after a transaction loop that passed has the height it had before. -/
theorem nHeight_of_rewardsAccepted
    (passed : RewardsAccepted env block connected rewarded supplied) :
    rewarded.pindex.nHeight = connected.pindex.nHeight := by
  obtain ⟨supply, mints, same⟩ := sameButSupply_updateZPIVSupply env.context.params
    env.context.lib env.fraud block env.pprev connected.pindex
  rw [passed.supply] at same
  have heights := congrArg CBlockIndex.nHeight same
  rw [passed.pindex]
  exact heights

/-- The amount minted, above the fees, is what the outputs exceed the inputs by. -/
theorem nMint_of_rewardsAccepted
    (passed : RewardsAccepted env block connected rewarded supplied) :
    rewarded.pindex.nMint - rewarded.nFees = connected.nValueOut - connected.nValueIn := by
  have fees := congrArg (fun locals => locals.2.1) passed.locals
  dsimp only at fees
  rw [passed.pindex, fees]
  simp only [trackMoneySupply]
  omega

theorem amounts_of_connectAccepted
    (passed : ConnectAccepted env block fJustCheck fAlreadyChecked world checked connected
      rewarded final) :
    final.nFees = rewarded.nFees ∧ final.nValueIn = rewarded.nValueIn ∧
      final.nValueOut = rewarded.nValueOut ∧ final.pindex.nMint = rewarded.pindex.nMint := by
  cases justCheck : fJustCheck with
  | true =>
    rw [passed.justChecked justCheck]
    exact ⟨rfl, rfl, rfl, rfl⟩
  | false =>
    have kept := frame_connectWrites env rewarded
    rw [passed.writes justCheck] at kept
    simp only [Prod.mk.injEq] at kept
    exact ⟨kept.1, kept.2.1, kept.2.2.1, kept.2.2.2.1⟩

/-- The rewards of an accepted block are checked on the entry that the call was
given. -/
theorem pindex_of_connectAccepted
    (passed : ConnectAccepted env block fJustCheck fAlreadyChecked world checked connected
      rewarded final) :
    connected.pindex = world.pindex ∧ checked.nValueOut = 0 := by
  have checksKept := frame_connectChecks env block fJustCheck fAlreadyChecked
    (ConnectState.start env block world)
  rw [passed.checks] at checksKept
  have loopKept := frame_connectTransactions env block checked
  rw [passed.transactions] at loopKept
  simp only [Prod.mk.injEq] at checksKept
  exact ⟨(congrArg Records.pindex loopKept).trans checksKept.1, checksKept.2.2.1⟩

/-- The payments due in the block that an environment connects. -/
def ConnectEnv.due (env : ConnectEnv) (nHeight : Int) : List (Payee × Int) :=
  duePayments env.context.params env.payments env.masternodes
    (env.node.isSporkActive .enableSuperblocks) nHeight env.ancestors

/-- The budget is enforced at a height: the node is synchronized, the spork for the
budget is active, and from the eighth height on the one for superblocks; the payment
is determined, and no output can serve two of the payees. -/
structure BudgetEnforced (env : ConnectEnv) (nHeight : Int) : Prop where
  synced : env.masternodes.isSynced = true
  settled : env.node.isInitialBlockDownload = false
  superblocks : env.context.params.getChainHeight .h8 ≤ nHeight →
    env.node.isSporkActive .enableSuperblocks = true
  enforced : env.node.isSporkActive .masternodeBudgetEnforcement = true
  uncontested : nHeight < env.context.params.getChainHeight .h8 →
    Uncontested env.masternodes nHeight
  distinct : DistinctPayees env.payments ((env.due nHeight).map Prod.fst)

/-- Where the budget is enforced, the two checks of an accepted block leave nothing of
the allowance to the staker. -/
theorem rewards_of_budgetEnforced
    (network : env.context.params.IsNetwork)
    (payees : payeeRefused env block rewarded = false)
    (value : valueRefused env rewarded = false)
    (stakes : env.context.params.nLastPOWBlock < rewarded.pindex.nHeight)
    (ordinary : isExemptHeight env.context.params rewarded.pindex.nHeight = false)
    (budget : BudgetEnforced env rewarded.pindex.nHeight)
    (nonneg : ∀ tx ∈ block.vtx, ∀ txout ∈ tx.vout, 0 ≤ txout.nValue) :
    ∃ coinStake, block.vtx[1]? = some coinStake ∧
      MakesPayments env.payments coinStake (env.due rewarded.pindex.nHeight) ∧
      rewarded.pindex.nMint - rewarded.nFees ≤
        getBlockExpectedMint env.context.params rewarded.pindex.nHeight +
          paidTo env.payments coinStake ((env.due rewarded.pindex.nHeight).map Prod.fst) := by
  unfold payeeRefused isBlockPayeeValid paymentTransaction at payees
  rw [budget.settled, budget.synced, if_pos stakes] at payees
  cases second : block.vtx[1]? with
  | none => simp [second] at payees
  | some coinStake =>
    simp only [second, Bool.not_false, Bool.not_true, Bool.true_and, Bool.false_or,
      Bool.not_eq_false'] at payees
    have inBlock : coinStake ∈ block.vtx := List.mem_of_getElem? second
    have makes := makes_duePayments payees (nonneg coinStake inBlock)
      budget.enforced budget.uncontested
    unfold valueRefused at value
    rw [Bool.not_eq_false'] at value
    have allowed := minted_le_of_isBlockValueValid env.payments network.h8_le_h9 value
      ordinary budget.synced budget.settled budget.superblocks
    have paid : totalDue (env.due rewarded.pindex.nHeight) ≤
        paidTo env.payments coinStake ((env.due rewarded.pindex.nHeight).map Prod.fst) :=
      totalDue_le_paidTo budget.distinct makes
    refine ⟨coinStake, rfl, makes, ?_⟩
    have limit := allowed.trans (Int.add_le_add_left paid _)
    omega

/-- An accepted proof-of-stake block creates, above its fees, no more than the
expected mint, except in superblocks.  There, where the budget is enforced, its
coinstake makes the payments that are due, and what the block creates above its
fees is at most the expected mint and the amounts paid to the payees. -/
theorem connectBlock_inflation_bound
    {env : ConnectEnv} {block : CBlock} {fJustCheck fAlreadyChecked : Bool}
    {world : ConnectWorld} {final : ConnectState}
    (accepted : connectBlock env block fJustCheck fAlreadyChecked world =
      (.accept, final))
    (network : env.context.params.IsNetwork)
    (notGenesis : block.hash ≠ env.context.params.hashGenesisBlock)
    (stakes : env.context.params.nLastPOWBlock < world.pindex.nHeight)
    (ordinary : isExemptHeight env.context.params world.pindex.nHeight = false)
    (budget : mayRaiseLimit env.context.params world.pindex.nHeight = true →
      BudgetEnforced env world.pindex.nHeight) :
    final.pindex.nMint - final.nFees = final.nValueOut - final.nValueIn ∧
      final.nValueOut = (block.vtx.map CTransaction.valueOutSum).sum ∧
      if mayRaiseLimit env.context.params world.pindex.nHeight then
        ∃ coinStake, block.vtx[1]? = some coinStake ∧
          MakesPayments env.payments coinStake (env.due world.pindex.nHeight) ∧
          final.pindex.nMint - final.nFees ≤
            getBlockExpectedMint env.context.params world.pindex.nHeight +
              paidTo env.payments coinStake
                ((env.due world.pindex.nHeight).map Prod.fst)
      else
        final.pindex.nMint - final.nFees ≤
          getBlockExpectedMint env.context.params world.pindex.nHeight := by
  obtain ⟨checked, connected, rewarded, passed⟩ := connectBlock_accept accepted notGenesis
  obtain ⟨supplied, rewards⟩ := rewardsAccepted passed.rewards
  obtain ⟨fees, valueIn, valueOut, mint⟩ := amounts_of_connectAccepted passed
  obtain ⟨entry, started⟩ := pindex_of_connectAccepted passed
  have height : rewarded.pindex.nHeight = world.pindex.nHeight := by
    rw [nHeight_of_rewardsAccepted rewards, entry]
  have locals := rewards.locals
  simp only [Prod.mk.injEq] at locals
  obtain ⟨_, _, valueInKept, valueOutKept⟩ := locals
  obtain ⟨outputs, nonneg⟩ := nValueOut_of_forEach passed.transactions
  refine ⟨?_, ?_, ?_⟩
  · rw [fees, mint, valueIn, valueOut, nMint_of_rewardsAccepted rewards, valueInKept,
      valueOutKept]
  · rw [valueOut, valueOutKept, outputs, started, Int.zero_add]
  · rw [← height] at stakes ordinary budget ⊢
    rw [fees, mint]
    split_ifs with raised
    · exact rewards_of_budgetEnforced network rewards.payees rewards.value stakes ordinary
        (budget raised) nonneg
    · have value := rewards.value
      unfold valueRefused at value
      rw [Bool.not_eq_false'] at value
      have limit := minted_le_of_not_mayRaiseLimit network.h8_le_h9 value ordinary
        (by simpa using raised)
      omega

/-- A coinstake that spends an output of one coin and makes the given payments. -/
def stakeTx (payments : List CTxOut) : CTransaction where
  hash := 9
  nVersion := 1
  vin := [{ prevout := ⟨3, 0⟩, scriptSig := [], nSequence := 0 }]
  vout := { nValue := 0, scriptPubKey := [] } :: payments
  nLockTime := 0

/-- The block of an empty coinbase and that coinstake. -/
def stakeBlock (payments : List CTxOut) : CBlock :=
  { bareBlock 5 with
    vtx := [{ bareCoinBase with vout := [{ nValue := 0, scriptPubKey := [] }] },
      stakeTx payments] }

/-- The first superblock of the main network from the eighth height on. -/
def superblockHeight : Int := 1252800

/-- The records before such a block is connected. -/
def stakeWorld (block : CBlock) : ConnectWorld :=
  { twoOutputsWorld block with pindex := CBlockIndex.ofBlock block superblockHeight }

/-- A synchronized node with all sporks active, save the enforcement of the budget
when its spork is set to a later time. -/
def stakeEnv (budgetEnforcement : Int) : ConnectEnv :=
  { bareEnv with
    payments := { bareEnv.payments with getScriptForDestination := fun _ => [0x52] }
    node :=
      { bareNode with
        isInitialBlockDownload := false
        time := 100
        sporks := fun spork =>
          if spork = .masternodeBudgetEnforcement then budgetEnforcement else 0 }
    masternodes := { bareEnv.masternodes with isSynced := true }
    ancestors := [CBlockIndex.ofBlock (bareBlock 1) (superblockHeight - 1)]
    verifyScript := fun _ _ _ _ => none
    calculateAccumulatorCheckpoint := fun _ => some (0, fun _ => 0) }

/-- The total budget of that superblock. -/
def superblockBudget : Int := 6480000 * coin

/-- A coinstake that keeps its coin and the expected mint, and pays the budget to a
script. -/
def superblockPaying (scriptPubKey : CScript) : CBlock :=
  stakeBlock [{ nValue := 1201 * coin, scriptPubKey := [0x51] },
    { nValue := superblockBudget, scriptPubKey := scriptPubKey }]

/-- Without finalized budgets, that superblock has one payee. -/
theorem due_stakeEnv (budgetEnforcement : Int) :
    (stakeEnv budgetEnforcement).due superblockHeight = [(.script [0x52], superblockBudget)] := by
  have active : (stakeEnv budgetEnforcement).node.isSporkActive .enableSuperblocks =
      true := rfl
  unfold ConnectEnv.due
  rw [active]
  change duePayments .main (stakeEnv 0).payments (stakeEnv 0).masternodes true
    superblockHeight (stakeEnv 0).ancestors = _
  decide

theorem budgetEnforced_stakeEnv : BudgetEnforced (stakeEnv 0) superblockHeight where
  synced := rfl
  settled := rfl
  superblocks := by decide
  enforced := by decide
  uncontested := fun early => absurd early (by decide)
  distinct := by
    rw [due_stakeEnv]
    exact List.pairwise_singleton _ _

/-- A superblock that pays the budget to the address for what is unallocated. -/
theorem connectBlock_inflation_bound_superblock :
    let block := superblockPaying [0x52]
    let final := (connectBlock (stakeEnv 0) block false true (stakeWorld block)).2
    final.pindex.nMint - final.nFees = 1200 * coin + superblockBudget ∧
      final.pindex.nMint - final.nFees = final.nValueOut - final.nValueIn := by
  intro block final
  have accepted : connectBlock (stakeEnv 0) block false true (stakeWorld block) =
      (.accept, final) :=
    Prod.ext (by decide) (by rfl)
  have bound := connectBlock_inflation_bound accepted (Or.inl rfl) (by decide)
    (by decide) (by decide) fun _ => budgetEnforced_stakeEnv
  constructor
  · decide
  · exact bound.1

/-- Where the budget is not enforced, a superblock whose staker keeps the budget is
accepted: none of it goes to a payee of the budget. -/
theorem connectBlock_staker_keeps_budget :
    let env := stakeEnv 1000
    let block := superblockPaying [0x51]
    let outcome := connectBlock env block false true (stakeWorld block)
    outcome.1 = .accept ∧
      env.node.isSporkActive .enableSuperblocks = true ∧
      env.masternodes.isSynced = true ∧
      (∀ tx ∈ block.vtx,
        paidTo env.payments tx ((env.due superblockHeight).map Prod.fst) = 0) ∧
      outcome.2.pindex.nMint - outcome.2.nFees =
        getBlockExpectedMint env.context.params superblockHeight + superblockBudget := by
  decide

end ColossusCoin
