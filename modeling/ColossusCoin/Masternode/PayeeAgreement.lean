import ColossusCoin.Masternode.BlockPayee

/-!
# Producer and validator of an ordinary block

What `FillBlockPayee` makes of a coinstake keeps its value and passes `IsBlockPayeeValid` on a
node with the same votes and masternodes, but in two cases.  Up to the last height of proof of
work the validator looks for the payment in the coinbase.  And while the see-saw applies and no
masternode is counted, the producer pays nothing, whereas the validator, which allows for a
larger count, requires a payment.
-/

namespace ColossusCoin

/-- What is paid out of the stake, and what that leaves of it. -/
structure ConservesValue (env : FillEnv) (pindexPrev : CBlockIndex) (nFees : Int)
    (txNew filled : CTransaction) : Prop where
  nonneg : NoNegativeOutput filled
  taken : outputSum (filled.vout.take txNew.vout.length) =
    txNew.valueOutSum -
      (env.paidToMasternode pindexPrev + devFundPayment env.params (pindexPrev.nHeight + 1))
  appended : filled.vout.drop txNew.vout.length = env.payments pindexPrev nFees
  total : filled.valueOutSum = txNew.valueOutSum + feePayment nFees

namespace FillEnv

section Conservation

variable {env : FillEnv} {pindexPrev : CBlockIndex} {nStakeSplitThreshold : Int}

theorem outputSum_devFundOutputs
    (covers : StakeCovers env pindexPrev nStakeSplitThreshold nValue) :
    outputSum (env.devFundOutputs pindexPrev) =
      devFundPayment env.params (pindexPrev.nHeight + 1) := by
  have fund := covers.devFund
  unfold devFundOutputs
  split_ifs
  · simp [payToAddress]
  · rw [outputSum_nil]
    omega

theorem outputSum_feeOutputs (env : FillEnv) (nFees : Int) :
    outputSum (env.feeOutputs nFees) = feePayment nFees := by
  unfold feeOutputs feePayment
  split_ifs <;> simp [payToAddress]

theorem payments_nonneg : ∀ out ∈ env.payments pindexPrev nFees, 0 ≤ out.nValue := by
  have fees : ∀ out ∈ env.feeOutputs nFees, 0 ≤ out.nValue := by
    unfold feeOutputs
    split_ifs with due
    · have positive : 0 ≤ nFees := le_trans (by decide) due
      simpa [payToAddress] using positive
    · simp
  have fund : ∀ out ∈ env.devFundOutputs pindexPrev, 0 ≤ out.nValue := by
    unfold devFundOutputs
    split_ifs with positive
    · simpa [payToAddress] using positive.le
    · simp
  intro out member
  rcases List.mem_append.mp member with ahead | inFees
  · rcases List.mem_append.mp ahead with inMasternode | inFund
    · exact masternodeOutputs_nonneg out inMasternode
    · exact fund out inFund
  · exact fees out inFees

/-- The outputs of the stake stay in place, and what is taken from them is appended. -/
theorem conservesValue_filledOutputs
    (covers : StakeCovers env pindexPrev nStakeSplitThreshold nValue)
    {txNew : CTransaction} {scriptPubKeyOut : CScript}
    (made : txNew.vout =
      stakedOutputs env pindexPrev nStakeSplitThreshold nValue scriptPubKeyOut 0 0) :
    ConservesValue env pindexPrev nFees txNew
      { txNew with
        vout := filledOutputs env pindexPrev nStakeSplitThreshold nValue nFees
          scriptPubKeyOut } := by
  have rewarded := covers.rewarded
  have fund := covers.devFund
  have paid := paidToMasternode_bounds covers
  have staked : txNew.valueOutSum =
      nValue + getBlockValueReward env.params (pindexPrev.nHeight + 1) := by
    have sum := @outputSum_stakedOutputs env pindexPrev nStakeSplitThreshold nValue
      scriptPubKeyOut 0 0
    rw [← made] at sum
    exact sum.trans (by omega)
  have length : ∀ nFirst nSecond,
      (stakedOutputs env pindexPrev nStakeSplitThreshold nValue scriptPubKeyOut nFirst
        nSecond).length = txNew.vout.length := by
    intro nFirst nSecond
    rw [made]
    exact length_reducedStake.trans length_reducedStake.symm
  constructor
  · intro out member
    rcases List.mem_append.mp member with inStake | appended
    · exact stakedOutputs_nonneg covers paid.1 fund (by omega) scriptPubKeyOut out inStake
    · exact payments_nonneg out appended
  · dsimp only
    rw [filledOutputs, List.take_left' (length _ _), outputSum_stakedOutputs, staked]
    omega
  · exact List.drop_left' (length _ _)
  · have sum : ∀ outputs, ({ txNew with vout := outputs } : CTransaction).valueOutSum =
        outputSum outputs := fun _ => rfl
    rw [sum, filledOutputs, payments, outputSum_append, outputSum_append, outputSum_append,
      outputSum_stakedOutputs, outputSum_masternodeOutputs covers, outputSum_devFundOutputs covers,
      outputSum_feeOutputs, staked]
    omega

end Conservation

/-- With the see-saw of the source, the stake of a network's block is enough for the
payments. -/
theorem stakeCovers_of_isNetwork
    {env : FillEnv} {pindexPrev : CBlockIndex} {nStakeSplitThreshold nValue : Int}
    (network : env.params.IsNetwork)
    (seeSaw : env.lib.seeSaw = getMasternodePaymentSeeSaw env.params)
    (indexed : 0 ≤ pindexPrev.nHeight)
    (threshold : 0 ≤ nStakeSplitThreshold)
    (staked : env.params.moneyRange nValue = true) :
    StakeCovers env pindexPrev nStakeSplitThreshold nValue := by
  have schedule := network.paymentSchedule
  have bounds := masternodePayment_bounds schedule
    (show 0 < pindexPrev.nHeight + 1 by omega)
    (show (0 : Int) ≤ env.masternodes.stableSize by omega) pindexPrev.nMoneySupply
  have payment : env.nMasternodePayment pindexPrev =
      masternodePayment env.params (pindexPrev.nHeight + 1) env.masternodes.stableSize
        pindexPrev.nMoneySupply := by
    rw [nMasternodePayment, seeSaw, masternodePayment]
  have limit : env.params.nMaxMoneyOut = 20000000000 * coin := by
    rcases network with same | same | same <;> rw [same] <;> rfl
  have reward := getBlockValueReward_le schedule (pindexPrev.nHeight + 1)
  simp only [CChainParams.moneyRange, Bool.and_eq_true, decide_eq_true_eq] at staked
  constructor
  · exact threshold
  · exact staked.1
  · unfold coin at limit reward
    unfold int64Max
    omega
  · rw [payment]
    exact bounds.1
  · exact devFundPayment_nonneg schedule _
  · rw [payment]
    exact bounds.2

end FillEnv

theorem paysAddress_of_mem
    (nonneg : NoNegativeOutput tx)
    (reads : lib.toAddress (lib.getScriptForDestination strAddress) = strAddress)
    (positive : 0 < nRequired)
    (member : payToAddress lib nRequired strAddress ∈ tx.vout) :
    paysAddress lib tx strAddress nRequired = true := by
  have found : nRequired ≤ findPayment lib tx (.address strAddress) := by
    apply List.single_le_sum
    · intro value inValues
      obtain ⟨out, inOutputs, rfl⟩ := List.mem_map.mp inValues
      exact nonneg out (List.mem_of_mem_filter inOutputs)
    · apply List.mem_map.mpr
      refine ⟨payToAddress lib nRequired strAddress, List.mem_filter.mpr ⟨member, ?_⟩, rfl⟩
      simpa [Payee.paidBy, payToAddress] using reads
  unfold paysAddress
  simp only [Bool.and_eq_true, bne_iff_ne, decide_eq_true_eq]
  omega

/-- What the networks allow for in the checks of payments. -/
structure PaymentLimits (params : CChainParams) : Prop where
  drift : 0 < params.nMasternodeCountDrift
  signatures : 0 < params.nMasternodePaymentSigRequired
  proofOfWork : params.nLastPOWBlock < params.getChainHeight .h4

theorem CChainParams.IsNetwork.paymentLimits
    (network : params.IsNetwork) :
    PaymentLimits params := by
  rcases network with rfl | rfl | rfl <;> exact ⟨by decide, by decide, by decide⟩

/-- A payee with as many votes as a payment takes. -/
def IsVotedPayee (params : CChainParams) (masternodes : MasternodeLocal) (nBlockHeight : Int)
    (payee : CScript) : Prop :=
  ∃ vecPayments, masternodes.mapMasternodeBlocks nBlockHeight = some vecPayments ∧
    ∃ nVotes, (payee, nVotes) ∈ vecPayments ∧ params.nMasternodePaymentSigRequired ≤ nVotes

section Votes

/-- The payment that the validator requires, for a count of masternodes that allows for a
drift. -/
def requiredPayment (params : CChainParams) (masternodes : MasternodeLocal)
    (nBlockHeight nMoneySupply : Int) : Int :=
  masternodePayment params nBlockHeight (masternodes.stableSize + params.nMasternodeCountDrift)
    nMoneySupply

/-- The most votes that are enough exceed what is required as soon as some payee has them. -/
theorem maxSignatures_lt_iff
    (positive : 0 < nRequired)
    (vecPayments : List (CScript × Nat)) :
    vecPayments.foldl (fun nMax payee =>
        if nMax ≤ payee.2 ∧ nRequired ≤ payee.2 then payee.2 else nMax) 0 < nRequired ↔
      ∀ payee ∈ vecPayments, payee.2 < nRequired := by
  have loop : ∀ nMax,
      vecPayments.foldl (fun nMax payee =>
          if nMax ≤ payee.2 ∧ nRequired ≤ payee.2 then payee.2 else nMax) nMax < nRequired ↔
        nMax < nRequired ∧ ∀ payee ∈ vecPayments, payee.2 < nRequired := by
    induction vecPayments with
    | nil => simp
    | cons payee rest ih =>
      intro nMax
      have here : (if nMax ≤ payee.2 ∧ nRequired ≤ payee.2 then payee.2 else nMax) <
          nRequired ↔ nMax < nRequired ∧ payee.2 < nRequired := by
        split_ifs <;> omega
      rw [List.foldl_cons, ih, List.forall_mem_cons, here, and_assoc]
  rw [loop 0]
  exact and_iff_right positive

/-- The validator asks that some payee with enough votes, if there is one, gets the required
payment. -/
theorem isMasternodeTransactionValid_iff
    (signatures : 0 < params.nMasternodePaymentSigRequired)
    (seeSaw : lib.seeSaw = getMasternodePaymentSeeSaw params)
    (tip : masternodes.tipMoneySupply = some nMoneySupply)
    (txNew : CTransaction) :
    isMasternodeTransactionValid params lib masternodes txNew nBlockHeight = true ↔
      ((∃ payee, IsVotedPayee params masternodes nBlockHeight payee) →
        ∃ payee, IsVotedPayee params masternodes nBlockHeight payee ∧
          ∃ out ∈ txNew.vout, out.scriptPubKey = payee ∧
            requiredPayment params masternodes nBlockHeight nMoneySupply ≤ out.nValue) := by
  unfold isMasternodeTransactionValid
  cases listed : masternodes.mapMasternodeBlocks nBlockHeight with
  | none => simp [IsVotedPayee, listed]
  | some vecPayments =>
    have few := maxSignatures_lt_iff signatures vecPayments
    simp only [blockPayeesValid, tip, seeSaw, Bool.or_eq_true, decide_eq_true_eq, few,
      List.any_eq_true, Bool.and_eq_true, beq_iff_eq]
    constructor
    · rintro (none | ⟨⟨payee, nVotes⟩, inPayments, enough, out, inOutputs, same, paid⟩)
      · rintro ⟨payee, votes, found, nVotes, inVotes, enough⟩
        rw [listed] at found
        obtain rfl := Option.some.inj found
        exact absurd (none (payee, nVotes) inVotes) (by dsimp only; omega)
      · intro _
        exact ⟨payee, ⟨vecPayments, listed, nVotes, inPayments, enough⟩, out, inOutputs,
          same.symm, paid⟩
    · intro paid
      by_cases none : ∀ payee ∈ vecPayments, payee.2 < params.nMasternodePaymentSigRequired
      · exact .inl none
      · push Not at none
        obtain ⟨⟨voted, nVoted⟩, inPayments, enough⟩ := none
        obtain ⟨payee, ⟨votes, found, nVotes, inVotes, sufficient⟩, out, inOutputs, same,
          amount⟩ := paid ⟨voted, vecPayments, listed, nVoted, inPayments, enough⟩
        rw [listed] at found
        obtain rfl := Option.some.inj found
        exact .inr ⟨(payee, nVotes), inVotes, sufficient, out, inOutputs, same.symm, amount⟩

theorem CMasternodeBlockPayees.getPayee_of_votes
    {payees : CMasternodeBlockPayees} {nRequired : Int}
    (positive : 0 < nRequired)
    (voted : ∃ payee ∈ payees.vecPayments, nRequired ≤ payee.nVotes) :
    ∃ payee ∈ payees.vecPayments,
      payees.getPayee = some payee.scriptPubKey ∧ nRequired ≤ payee.nVotes := by
  have loop : ∀ (listed : List CMasternodePayee) (start : Option CScript × Int),
      let best := listed.foldl (fun best payee =>
        if best.2 < payee.nVotes then (some payee.scriptPubKey, payee.nVotes) else best) start
      (best = start ∨ ∃ payee ∈ listed, best = (some payee.scriptPubKey, payee.nVotes)) ∧
        start.2 ≤ best.2 ∧ ∀ payee ∈ listed, payee.nVotes ≤ best.2 := by
    intro listed
    induction listed with
    | nil => simp
    | cons payee rest ih =>
      intro start
      dsimp only
      rw [List.foldl_cons, List.forall_mem_cons]
      split_ifs with better
      · obtain ⟨source, above, most⟩ :=
          ih (some payee.scriptPubKey, payee.nVotes)
        refine ⟨.inr ?_, by dsimp only at above; omega, above, most⟩
        rcases source with same | ⟨later, inRest, same⟩
        · exact ⟨payee, List.mem_cons_self, same⟩
        · exact ⟨later, List.mem_cons_of_mem payee inRest, same⟩
      · obtain ⟨source, above, most⟩ := ih start
        refine ⟨?_, above, by omega, most⟩
        rcases source with same | ⟨later, inRest, same⟩
        · exact .inl same
        · exact .inr ⟨later, List.mem_cons_of_mem payee inRest, same⟩
  obtain ⟨source, -, most⟩ := loop payees.vecPayments (none, -1)
  obtain ⟨voter, inPayments, enough⟩ := voted
  have best := most voter inPayments
  rcases source with same | ⟨payee, listed, same⟩
  · rw [same] at best
    omega
  · refine ⟨payee, listed, congrArg Prod.fst same, ?_⟩
    rw [same] at best
    exact enough.trans best

theorem FillEnv.payee_of_voted
    {env : FillEnv} {nHeight : Int}
    (signatures : 0 < env.params.nMasternodePaymentSigRequired)
    (voted : ∃ payee, IsVotedPayee env.params env.masternodes nHeight payee) :
    ∃ payee, env.payee nHeight = some payee ∧
      IsVotedPayee env.params env.masternodes nHeight payee := by
  obtain ⟨voter, vecPayments, listed, nVotes, inPayments, enough⟩ := voted
  obtain ⟨payee, inPayees, chosen, sufficient⟩ :=
    @CMasternodeBlockPayees.getPayee_of_votes (MasternodeLocal.blockPayees nHeight vecPayments)
      env.params.nMasternodePaymentSigRequired (by omega)
      ⟨⟨voter, nVotes⟩, List.mem_map.mpr ⟨(voter, nVotes), inPayments, rfl⟩, by
        dsimp only
        omega⟩
  obtain ⟨⟨script, nScriptVotes⟩, inScripts, rfl⟩ := List.mem_map.mp inPayees
  refine ⟨script, ?_, vecPayments, listed, nScriptVotes, inScripts, by
    dsimp only at sufficient
    omega⟩
  rw [FillEnv.payee, MasternodeLocal.getBlockPayee, listed]
  dsimp only
  rw [chosen, Option.some_or]

end Votes

/-! ## What the validator makes of it -/

/-- An ordinary block is valid when its masternode is paid or need not be, and the payments to
addresses are made. -/
theorem paymentsValid_iff
    (ordinary : isBudgetPaymentBlock params masternodes
      (node.isSporkActive .enableSuperblocks) nBlockHeight = false)
    (fees : 100 * coin ≤ nFees → params.getChainHeight .h4 ≤ nBlockHeight →
      paysAddress lib txNew params.txFeeAddress nFees = true)
    (fund : params.getChainHeight .h4 ≤ nBlockHeight →
      nBlockHeight < params.getChainHeight .h8 →
        paysAddress lib txNew params.devFundAddress
          (getBlockValueDevFund params nBlockHeight) = true)
    (ancestors : List CBlockIndex) :
    paymentsValid params lib masternodes node txNew nBlockHeight nFees ancestors = true ↔
      (node.isSporkActive .masternodePaymentEnforcement = true →
        isMasternodeTransactionValid params lib masternodes txNew nBlockHeight = true) := by
  have feeValid : (!(100 * coin ≤ nFees && params.getChainHeight .h4 ≤ nBlockHeight) ||
      paysAddress lib txNew params.txFeeAddress nFees ||
      !node.isSporkActive .feePaymentEnforcement) = true := by
    by_cases due : 100 * coin ≤ nFees ∧ params.getChainHeight .h4 ≤ nBlockHeight
    · simp [fees due.1 due.2]
    · simp only [not_and] at due
      simp only [Bool.or_eq_true, Bool.not_eq_true', Bool.and_eq_false_iff, decide_eq_false_iff_not]
      tauto
  have fundValid : (!(params.getChainHeight .h4 ≤ nBlockHeight &&
        nBlockHeight < params.getChainHeight .h8) ||
      paysAddress lib txNew params.devFundAddress (getBlockValueDevFund params nBlockHeight) ||
      !node.isSporkActive .devFundPaymentEnforcement) = true := by
    by_cases due : params.getChainHeight .h4 ≤ nBlockHeight ∧
        nBlockHeight < params.getChainHeight .h8
    · simp [fund due.1 due.2]
    · simp only [not_and] at due
      simp only [Bool.or_eq_true, Bool.not_eq_true', Bool.and_eq_false_iff, decide_eq_false_iff_not]
      tauto
  unfold paymentsValid
  dsimp only
  rw [feeValid, fundValid, ordinary, Bool.and_true, Bool.and_true, if_neg Bool.false_ne_true,
    Bool.or_eq_true, Bool.not_eq_true']
  cases node.isSporkActive .masternodePaymentEnforcement <;> simp

namespace FillEnv

/-- The larger output of a stake at a height of the see-saw, where the development fund alone is
paid from it. -/
def largerStakeOutput (nStakeSplitThreshold nValue : Int) : Int :=
  if nStakeSplitThreshold * coin < nValue.tdiv 2 then
    nValue + 1350 * coin - (nValue + 1350 * coin).tdiv 2 - 75 * coin
  else nValue + 1200 * coin

/-- A script happens to get an amount although no masternode is paid: as the staker, as the
development fund or for the fees. -/
def PaidOtherwise (env : FillEnv) (nStakeSplitThreshold nValue nFees : Int)
    (scriptPubKeyOut payee : CScript) (nRequired : Int) : Prop :=
  (payee = scriptPubKeyOut ∧ nRequired ≤ largerStakeOutput nStakeSplitThreshold nValue) ∨
  (payee = env.lib.getScriptForDestination env.params.devFundAddress ∧
    nRequired ≤ 150 * coin) ∨
  (payee = env.lib.getScriptForDestination env.params.txFeeAddress ∧
    100 * coin ≤ nFees ∧ nRequired ≤ nFees)

section Validation

variable {env : FillEnv} {pindexPrev : CBlockIndex}

theorem nMasternodePayment_eq
    (seeSaw : env.lib.seeSaw = getMasternodePaymentSeeSaw env.params) :
    env.nMasternodePayment pindexPrev =
      masternodePayment env.params (pindexPrev.nHeight + 1) env.masternodes.stableSize
        pindexPrev.nMoneySupply := by
  rw [nMasternodePayment, seeSaw, masternodePayment]

/-- Without a payment to the masternode, only the stake, the development fund and the fees are
paid. -/
theorem mem_filledOutputs_of_unpaid
    (schedule : PaymentSchedule env.params)
    (applies : isSeeSawHeight env.params (pindexPrev.nHeight + 1))
    (unpaid : env.nMasternodePayment pindexPrev = 0)
    (staked : 0 ≤ nValue)
    (positive : 0 < nRequired)
    (scriptPubKeyOut payee : CScript) :
    (∃ out ∈ filledOutputs env pindexPrev nStakeSplitThreshold nValue nFees scriptPubKeyOut,
        out.scriptPubKey = payee ∧ nRequired ≤ out.nValue) ↔
      env.PaidOtherwise nStakeSplitThreshold nValue nFees scriptPubKeyOut payee nRequired := by
  have sixth := schedule.sixth
  have before : pindexPrev.nHeight + 1 < env.params.getChainHeight .h8 := by
    have := applies.2
    omega
  have fund : devFundPayment env.params (pindexPrev.nHeight + 1) = 150 * coin := by
    rw [devFundPayment, if_pos before, getBlockValueDevFund_of_h4 schedule applies.1]
  have paid : env.paidToMasternode pindexPrev = 0 := by
    unfold paidToMasternode
    cases env.payee (pindexPrev.nHeight + 1) with
    | none => rfl
    | some payee => exact unpaid
  have outputs : env.masternodeOutputs pindexPrev = [] := by
    unfold masternodeOutputs
    cases env.payee (pindexPrev.nHeight + 1) with
    | none => rfl
    | some payee => exact if_neg (by omega)
  have stake : (∃ out ∈ stakedOutputs env pindexPrev nStakeSplitThreshold nValue scriptPubKeyOut
        (75 * coin) (75 * coin), out.scriptPubKey = payee ∧ nRequired ≤ out.nValue) ↔
      payee = scriptPubKeyOut ∧ nRequired ≤ largerStakeOutput nStakeSplitThreshold nValue := by
    unfold stakedOutputs reducedStake largerStakeOutput
    rw [getBlockValueReward_of_h4 schedule applies.1 before]
    have credit : 0 ≤ nValue + 1350 * coin := by
      unfold coin
      omega
    rw [Int.tdiv_eq_ediv_of_nonneg credit]
    split_ifs <;> simp only [List.mem_cons, List.not_mem_nil, or_false, exists_eq_or_imp,
      exists_eq_left, @eq_comm _ scriptPubKeyOut]
    · constructor
      · rintro (⟨-, nothing⟩ | ⟨same, first⟩ | ⟨same, second⟩)
        · omega
        · exact ⟨same, by omega⟩
        · exact ⟨same, second⟩
      · exact fun larger => .inr (.inr larger)
    · constructor
      · rintro (⟨-, nothing⟩ | ⟨same, only⟩)
        · omega
        · exact ⟨same, by omega⟩
      · exact fun larger => .inr ⟨larger.1, by have := larger.2; omega⟩
  have rest : (∃ out ∈ env.payments pindexPrev nFees,
        out.scriptPubKey = payee ∧ nRequired ≤ out.nValue) ↔
      (payee = env.lib.getScriptForDestination env.params.devFundAddress ∧
        nRequired ≤ 150 * coin) ∨
      (payee = env.lib.getScriptForDestination env.params.txFeeAddress ∧
        100 * coin ≤ nFees ∧ nRequired ≤ nFees) := by
    have some : 0 < 150 * coin := by decide
    rw [payments, outputs, devFundOutputs, fund, if_pos some, feeOutputs, List.nil_append]
    split_ifs with due
    · simp [payToAddress, due, @eq_comm _ payee]
    · simp [payToAddress, due, @eq_comm _ payee]
  have halves : (150 * coin).tdiv 2 = 75 * coin ∧
      150 * coin - (150 * coin).tdiv 2 = 75 * coin := by decide
  rw [PaidOtherwise, filledOutputs, paid, fund, halves.1, ← stake, ← rest]
  have second : (150 : Int) * coin - 75 * coin = 75 * coin := by decide
  simp [second, or_and_right, exists_or]

/-- With a masternode to count, or outside the see-saw, the payment is positive and no less than
required. -/
theorem requiredPayment_le
    (schedule : PaymentSchedule env.params)
    (drift : 0 ≤ env.params.nMasternodeCountDrift)
    (seeSaw : env.lib.seeSaw = getMasternodePaymentSeeSaw env.params)
    (indexed : 0 ≤ pindexPrev.nHeight)
    (counted : ¬(isSeeSawHeight env.params (pindexPrev.nHeight + 1) ∧
      env.masternodes.stableSize = 0)) :
    0 < env.nMasternodePayment pindexPrev ∧
      requiredPayment env.params env.masternodes (pindexPrev.nHeight + 1)
        pindexPrev.nMoneySupply ≤ env.nMasternodePayment pindexPrev := by
  rw [nMasternodePayment_eq seeSaw]
  constructor
  · apply (masternodePayment_pos_iff schedule (by omega) (by omega) _).mpr
    exact fun none => counted (And.intro none.1 (by exact_mod_cast none.2))
  · apply masternodePayment_antitone schedule _ (by omega)
    intro applies
    have some : env.masternodes.stableSize ≠ 0 := fun none => counted (And.intro applies none)
    omega

theorem nMasternodePayment_of_uncounted
    (schedule : PaymentSchedule env.params)
    (seeSaw : env.lib.seeSaw = getMasternodePaymentSeeSaw env.params)
    (indexed : 0 ≤ pindexPrev.nHeight)
    (uncounted : isSeeSawHeight env.params (pindexPrev.nHeight + 1) ∧
      env.masternodes.stableSize = 0) :
    env.nMasternodePayment pindexPrev = 0 := by
  have bounds := (masternodePayment_bounds schedule (show 0 < pindexPrev.nHeight + 1 by omega)
    (show (0 : Int) ≤ env.masternodes.stableSize by omega) pindexPrev.nMoneySupply).1
  have positive := masternodePayment_pos_iff schedule (show 0 < pindexPrev.nHeight + 1 by omega)
    (show (0 : Int) ≤ env.masternodes.stableSize by omega) pindexPrev.nMoneySupply
  rw [nMasternodePayment_eq seeSaw]
  by_contra nonzero
  have some := positive.mp (by omega)
  exact some (And.intro uncounted.1 (by exact_mod_cast uncounted.2))

theorem requiredPayment_pos
    (schedule : PaymentSchedule env.params)
    (drift : 0 < env.params.nMasternodeCountDrift)
    (indexed : 0 ≤ pindexPrev.nHeight) :
    0 < requiredPayment env.params env.masternodes (pindexPrev.nHeight + 1)
      pindexPrev.nMoneySupply := by
  apply (masternodePayment_pos_iff schedule (by omega) (by omega) _).mpr
  intro none
  omega

/-- The coinstake as it was filled in passes the check of the masternode's payment, unless the
see-saw paid nothing. -/
theorem isMasternodeTransactionValid_filled_iff
    (network : env.params.IsNetwork)
    (seeSaw : env.lib.seeSaw = getMasternodePaymentSeeSaw env.params)
    (tip : env.masternodes.tipMoneySupply = some pindexPrev.nMoneySupply)
    (indexed : 0 ≤ pindexPrev.nHeight)
    (staked : 0 ≤ nValue)
    {coinStake : CTransaction}
    (filled : coinStake.vout =
      filledOutputs env pindexPrev nStakeSplitThreshold nValue nFees scriptPubKeyOut) :
    isMasternodeTransactionValid env.params env.lib env.masternodes coinStake
        (pindexPrev.nHeight + 1) = true ↔
      ((∃ payee, IsVotedPayee env.params env.masternodes (pindexPrev.nHeight + 1) payee) →
        isSeeSawHeight env.params (pindexPrev.nHeight + 1) ∧ env.masternodes.stableSize = 0 →
          ∃ payee, IsVotedPayee env.params env.masternodes (pindexPrev.nHeight + 1) payee ∧
            env.PaidOtherwise nStakeSplitThreshold nValue nFees scriptPubKeyOut payee
              (requiredPayment env.params env.masternodes (pindexPrev.nHeight + 1)
                pindexPrev.nMoneySupply)) := by
  have schedule := network.paymentSchedule
  have limits := network.paymentLimits
  have required := @requiredPayment_pos env pindexPrev schedule limits.drift indexed
  rw [isMasternodeTransactionValid_iff limits.signatures seeSaw tip, filled]
  by_cases uncounted : isSeeSawHeight env.params (pindexPrev.nHeight + 1) ∧
      env.masternodes.stableSize = 0
  · have unpaid := nMasternodePayment_of_uncounted schedule seeSaw indexed uncounted
    simp only [uncounted, and_self, true_implies,
      mem_filledOutputs_of_unpaid schedule uncounted.1 unpaid staked required]
  · refine iff_of_true ?_ fun _ applies => absurd applies uncounted
    intro voted
    obtain ⟨positive, enough⟩ := requiredPayment_le schedule limits.drift.le seeSaw indexed uncounted
    obtain ⟨payee, chosen, payeeVoted⟩ := payee_of_voted limits.signatures voted
    refine ⟨payee, payeeVoted,
      { nValue := env.nMasternodePayment pindexPrev, scriptPubKey := payee }, ?_, rfl, enough⟩
    have output : env.masternodeOutputs pindexPrev =
        [{ nValue := env.nMasternodePayment pindexPrev, scriptPubKey := payee }] := by
      rw [masternodeOutputs, chosen]
      exact if_pos positive
    rw [filledOutputs, payments, output]
    simp

/-- The empty coinbase of a block of proof of stake passes it only when no payee has enough
votes. -/
theorem isMasternodeTransactionValid_coinBase_iff
    (network : env.params.IsNetwork)
    (seeSaw : env.lib.seeSaw = getMasternodePaymentSeeSaw env.params)
    (tip : env.masternodes.tipMoneySupply = some pindexPrev.nMoneySupply)
    (indexed : 0 ≤ pindexPrev.nHeight)
    (empty : coinBaseOutputEmpty coinBase = true) :
    isMasternodeTransactionValid env.params env.lib env.masternodes coinBase
        (pindexPrev.nHeight + 1) = true ↔
      ¬∃ payee, IsVotedPayee env.params env.masternodes (pindexPrev.nHeight + 1) payee := by
  have schedule := network.paymentSchedule
  have limits := network.paymentLimits
  have required := @requiredPayment_pos env pindexPrev schedule limits.drift indexed
  have worthless : ∀ out ∈ coinBase.vout, out.nValue = 0 := by
    unfold coinBaseOutputEmpty at empty
    split at empty
    · rename_i txout only
      simp only [CTxOut.isEmpty, Bool.and_eq_true, beq_iff_eq] at empty
      simp [only, empty.1]
    · exact absurd empty Bool.false_ne_true
  rw [isMasternodeTransactionValid_iff limits.signatures seeSaw tip]
  constructor
  · intro paid voted
    obtain ⟨payee, -, out, inOutputs, -, enough⟩ := paid voted
    have nothing := worthless out inOutputs
    omega
  · exact fun none voted => absurd voted none

theorem filledOutputs_paysAddresses
    (reads : ∀ strAddress ∈ [env.params.devFundAddress, env.params.txFeeAddress],
      env.lib.toAddress (env.lib.getScriptForDestination strAddress) = strAddress)
    (schedule : PaymentSchedule env.params)
    {coinStake : CTransaction} {scriptPubKeyOut : CScript}
    (nonneg : NoNegativeOutput coinStake)
    (filled : coinStake.vout =
      filledOutputs env pindexPrev nStakeSplitThreshold nValue nFees scriptPubKeyOut) :
    (100 * coin ≤ nFees →
      paysAddress env.lib coinStake env.params.txFeeAddress nFees = true) ∧
    (env.params.getChainHeight .h4 ≤ pindexPrev.nHeight + 1 →
      pindexPrev.nHeight + 1 < env.params.getChainHeight .h8 →
        paysAddress env.lib coinStake env.params.devFundAddress
          (getBlockValueDevFund env.params (pindexPrev.nHeight + 1)) = true) := by
  constructor
  · intro due
    apply paysAddress_of_mem nonneg (reads _ (by simp)) (lt_of_lt_of_le (by decide) due)
    rw [filled, filledOutputs, payments, feeOutputs, if_pos due]
    simp
  · intro fourth eighth
    have amount : devFundPayment env.params (pindexPrev.nHeight + 1) =
        getBlockValueDevFund env.params (pindexPrev.nHeight + 1) := if_pos eighth
    have positive : 0 < getBlockValueDevFund env.params (pindexPrev.nHeight + 1) := by
      rw [getBlockValueDevFund_of_h4 schedule fourth]
      decide
    apply paysAddress_of_mem nonneg (reads _ (by simp)) positive
    rw [filled, filledOutputs, payments, devFundOutputs, amount, if_pos positive]
    simp

end Validation

/-- When the validator accepts what the producer fills in: it asks for no payment, or it looks
for the payment in the coinstake and the see-saw pays as soon as one masternode is counted, or
the payment that it requires without one happens to be made. -/
def AcceptsPayment (env : FillEnv) (node : NodeLocal) (pindexPrev : CBlockIndex)
    (nStakeSplitThreshold nValue nFees : Int) (scriptPubKeyOut : CScript) : Prop :=
  env.masternodes.isSynced = true →
  node.isSporkActive .masternodePaymentEnforcement = true →
  (∃ payee, IsVotedPayee env.params env.masternodes (pindexPrev.nHeight + 1) payee) →
    env.params.nLastPOWBlock < pindexPrev.nHeight + 1 ∧
    (isSeeSawHeight env.params (pindexPrev.nHeight + 1) ∧ env.masternodes.stableSize = 0 →
      ∃ payee, IsVotedPayee env.params env.masternodes (pindexPrev.nHeight + 1) payee ∧
        env.PaidOtherwise nStakeSplitThreshold nValue nFees scriptPubKeyOut payee
          (requiredPayment env.params env.masternodes (pindexPrev.nHeight + 1)
            pindexPrev.nMoneySupply))

end FillEnv

/-- A block of proof of stake whose coinstake has the outputs; signing it changes its input. -/
structure CarriesStake (block : CBlock) (vout : List CTxOut) : Prop where
  coinBase : block.vtx.head?.any coinBaseOutputEmpty = true
  coinStake : block.vtx[1]?.map CTransaction.vout = some vout

theorem isBlockPayeeValid_filled_iff
    {env : FillEnv} {node : NodeLocal} {pindexPrev : CBlockIndex}
    {nStakeSplitThreshold nValue nFees : Int} {scriptPubKeyOut : CScript} {block : CBlock}
    (network : env.params.IsNetwork)
    (seeSaw : env.lib.seeSaw = getMasternodePaymentSeeSaw env.params)
    (reads : ∀ strAddress ∈ [env.params.devFundAddress, env.params.txFeeAddress],
      env.lib.toAddress (env.lib.getScriptForDestination strAddress) = strAddress)
    (tip : env.masternodes.tipMoneySupply = some pindexPrev.nMoneySupply)
    (indexed : 0 ≤ pindexPrev.nHeight)
    (staked : 0 ≤ nValue)
    (ordinary : isBudgetPaymentBlock env.params env.masternodes
      (node.isSporkActive .enableSuperblocks) (pindexPrev.nHeight + 1) = false)
    (nonneg : ∀ out ∈ FillEnv.filledOutputs env pindexPrev nStakeSplitThreshold nValue nFees
      scriptPubKeyOut, 0 ≤ out.nValue)
    (carries : CarriesStake block
      (FillEnv.filledOutputs env pindexPrev nStakeSplitThreshold nValue nFees scriptPubKeyOut))
    (ancestors : List CBlockIndex) :
    isBlockPayeeValid env.params env.lib env.masternodes node block (pindexPrev.nHeight + 1)
        nFees ancestors = true ↔
      env.AcceptsPayment node pindexPrev nStakeSplitThreshold nValue nFees scriptPubKeyOut := by
  have schedule := network.paymentSchedule
  have limits := network.paymentLimits
  unfold isBlockPayeeValid paymentTransaction FillEnv.AcceptsPayment
  cases synced : env.masternodes.isSynced with
  | false => simp
  | true =>
    simp only [Bool.not_true, Bool.false_or, true_implies]
    by_cases staking : env.params.nLastPOWBlock < pindexPrev.nHeight + 1
    · obtain ⟨coinStake, second, filled⟩ := Option.map_eq_some_iff.mp carries.coinStake
      have stakeNonneg : NoNegativeOutput coinStake := by
        unfold NoNegativeOutput
        rw [filled]
        exact nonneg
      have addresses := FillEnv.filledOutputs_paysAddresses reads schedule stakeNonneg filled
      rw [if_pos staking, second]
      rw [paymentsValid_iff ordinary (fun due _ => addresses.1 due) addresses.2,
        FillEnv.isMasternodeTransactionValid_filled_iff network seeSaw tip indexed staked filled]
      simp [staking]
    · obtain ⟨coinBase, first, empty⟩ := (Option.any_eq_true _ _).mp carries.coinBase
      have early : ¬env.params.getChainHeight .h4 ≤ pindexPrev.nHeight + 1 := by
        have := limits.proofOfWork
        omega
      rw [if_neg staking, ← List.head?_eq_getElem?, first]
      rw [paymentsValid_iff ordinary (fun _ fourth => absurd fourth early)
          (fun fourth _ => absurd fourth early),
        FillEnv.isMasternodeTransactionValid_coinBase_iff network seeSaw tip indexed empty]
      simp [staking, imp_false]

/-- For every ordinary block of proof of stake of a network and every coinstake as the wallet
makes it, what `FillBlockPayee` makes of it keeps the value of the stake, and passes
`IsBlockPayeeValid` of a node with the same chain, votes and masternodes exactly in the cases
described. -/
theorem blockPayee_agrees_iff
    {env : FillEnv} {node : NodeLocal} {pindexPrev : CBlockIndex}
    {nStakeSplitThreshold nValue : Int}
    (network : env.params.IsNetwork)
    (seeSaw : env.lib.seeSaw = getMasternodePaymentSeeSaw env.params)
    (reads : ∀ strAddress ∈ [env.params.devFundAddress, env.params.txFeeAddress],
      env.lib.toAddress (env.lib.getScriptForDestination strAddress) = strAddress)
    (superblocks : env.superblocks = node.isSporkActive .enableSuperblocks)
    (tip : env.masternodes.tipMoneySupply = some pindexPrev.nMoneySupply)
    (indexed : 0 ≤ pindexPrev.nHeight)
    (threshold : 0 ≤ nStakeSplitThreshold)
    (staked : env.params.moneyRange nValue = true)
    (ordinary : isBudgetPaymentBlock env.params env.masternodes env.superblocks
      (pindexPrev.nHeight + 1) = false)
    (nFees : Int) (prevout : COutPoint) (scriptPubKeyOut : CScript) (rest : List CBlockIndex) :
    ∃ filled,
      env.fillBlockPayee
          (createCoinStake env.params nStakeSplitThreshold prevout nValue scriptPubKeyOut
            (pindexPrev.nHeight + 1))
          nFees true (pindexPrev :: rest) = some filled ∧
      ∀ block, CarriesStake block filled.vout →
        ((ConservesValue env pindexPrev nFees
              (createCoinStake env.params nStakeSplitThreshold prevout nValue scriptPubKeyOut
                (pindexPrev.nHeight + 1)) filled ∧
            isBlockPayeeValid env.params env.lib env.masternodes node block
              (pindexPrev.nHeight + 1) nFees (pindexPrev :: rest) = true) ↔
          env.AcceptsPayment node pindexPrev nStakeSplitThreshold nValue nFees
            scriptPubKeyOut) := by
  have covers := FillEnv.stakeCovers_of_isNetwork network seeSaw indexed threshold staked
  have count := @FillEnv.stakeOutCount_createCoinStake nStakeSplitThreshold nValue env.params
    prevout scriptPubKeyOut (pindexPrev.nHeight + 1)
  have made : (createCoinStake env.params nStakeSplitThreshold prevout nValue scriptPubKeyOut
      (pindexPrev.nHeight + 1)).vout =
        FillEnv.stakedOutputs env pindexPrev nStakeSplitThreshold nValue scriptPubKeyOut 0 0 :=
    reducedStake_zero.symm
  have conserves := @FillEnv.conservesValue_filledOutputs env pindexPrev nStakeSplitThreshold
    nValue nFees covers _ scriptPubKeyOut made
  refine ⟨_, FillEnv.fillBlockPayee_eq covers ordinary made count nFees rest, ?_⟩
  intro block carries
  rw [superblocks] at ordinary
  rw [and_iff_right conserves]
  exact isBlockPayeeValid_filled_iff network seeSaw reads tip indexed covers.staked ordinary
    conserves.nonneg carries (pindexPrev :: rest)

/-- A node of the main network that counts some masternodes, where six votes are for one payee
at every height. -/
def votedEnv (stableSize : Nat) : FillEnv where
  params := .main
  lib := { plainPaymentLib with seeSaw := getMasternodePaymentSeeSaw .main }
  masternodes :=
    { budgetNode [] with
      stableSize := stableSize
      mapMasternodeBlocks := fun _ => some [([7], 6)]
      tipMoneySupply := some (12000000000 * coin) }
  man := .empty
  queue := tiedQueueEnv
  superblocks := settledNode.isSporkActive .enableSuperblocks

/-- The parent of a block at a height. -/
def ordinaryParent (nHeight : Int) : CBlockIndex :=
  { superblockParent with nHeight := nHeight - 1, nMoneySupply := 12000000000 * coin }

/-- A coinstake of 5000 coins at a height. -/
def ordinaryStake (nHeight : Int) : CTransaction :=
  createCoinStake .main 2000 ⟨7, 0⟩ (5000 * coin) [2] nHeight

/-- A block of proof of stake with some outputs in its coinstake. -/
def ordinaryBlock (vout : List CTxOut) : CBlock where
  hash := 8
  nVersion := 4
  hashPrevBlock := 1
  hashMerkleRoot := 0
  nTime := 0
  nBits := 0
  nNonce := 0
  nAccumulatorCheckpoint := 0
  vtx :=
    [ { hash := 5
        nVersion := 1
        vin := [⟨.null, [1, 1], 0⟩]
        vout := [{ nValue := 0, scriptPubKey := [] }]
        nLockTime := 0 },
      { ordinaryStake 0 with vout := vout } ]
  vchBlockSig := []

theorem blockPayee_agrees_iff_counted :
    ∃ filled,
      (votedEnv 20).fillBlockPayee (ordinaryStake 400000) 0 true [ordinaryParent 400000] =
        some filled ∧
      ConservesValue (votedEnv 20) (ordinaryParent 400000) 0 (ordinaryStake 400000) filled ∧
      isBlockPayeeValid .main (votedEnv 20).lib (votedEnv 20).masternodes settledNode
        (ordinaryBlock filled.vout) 400000 0 [ordinaryParent 400000] = true := by
  obtain ⟨filled, fills, agrees⟩ :=
    @blockPayee_agrees_iff (votedEnv 20) settledNode (ordinaryParent 400000) 2000 (5000 * coin)
      (.inl rfl) rfl (by decide) rfl rfl (by decide) (by decide) (by decide) (by decide) 0 ⟨7, 0⟩
      [2] []
  refine ⟨filled, fills, (agrees (ordinaryBlock filled.vout) ⟨rfl, rfl⟩).mpr ?_⟩
  intro _ _ _
  refine ⟨by decide, fun uncounted => ?_⟩
  exact absurd uncounted.2 (by decide)

/-- What the producer fills in is refused where the see-saw applies and every masternode is too
young to count, and where stake was found before the last height of proof of work. -/
theorem blockPayee_disagrees :
    ((votedEnv 0).fillBlockPayee (ordinaryStake 400000) 0 true [ordinaryParent 400000]).map
        (fun filled =>
          isBlockPayeeValid .main (votedEnv 0).lib (votedEnv 0).masternodes settledNode
            (ordinaryBlock filled.vout) 400000 0 [ordinaryParent 400000]) = some false ∧
      ((votedEnv 20).fillBlockPayee (ordinaryStake 9000) 0 true [ordinaryParent 9000]).map
        (fun filled =>
          isBlockPayeeValid .main (votedEnv 20).lib (votedEnv 20).masternodes settledNode
            (ordinaryBlock filled.vout) 9000 0 [ordinaryParent 9000]) = some false := by
  decide

end ColossusCoin
