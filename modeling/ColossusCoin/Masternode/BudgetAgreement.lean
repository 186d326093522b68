import ColossusCoin.Masternode.BudgetProducer

/-!
# Producer and validator of a budget block

What a node fills in for the budget passes its own checks where the payments do not get in
each other's way: the coins created in a superblock have to arrive alone at their script.
-/

namespace ColossusCoin

open Aggregates

/-- The sum of some outputs. -/
def outputSum (outputs : List CTxOut) : Int :=
  (outputs.map CTxOut.nValue).sum

/-- What some outputs pay to a payee. -/
def paidBy (lib : PaymentLib) (outputs : List CTxOut) (payee : Payee) : Int :=
  outputSum (outputs.filter fun out => payee.paidBy lib out)

@[simp] theorem outputSum_nil : outputSum [] = 0 := rfl

@[simp] theorem outputSum_cons (out : CTxOut) (outputs : List CTxOut) :
    outputSum (out :: outputs) = out.nValue + outputSum outputs := rfl

@[simp] theorem outputSum_append (first second : List CTxOut) :
    outputSum (first ++ second) = outputSum first + outputSum second := by
  simp [outputSum]

@[simp] theorem paidBy_nil (lib : PaymentLib) (payee : Payee) : paidBy lib [] payee = 0 := rfl

theorem paidBy_cons
    (lib : PaymentLib) (out : CTxOut) (outputs : List CTxOut) (payee : Payee) :
    paidBy lib (out :: outputs) payee =
      (if payee.paidBy lib out = true then out.nValue else 0) + paidBy lib outputs payee := by
  unfold paidBy
  rw [List.filter_cons]
  split_ifs
  · rw [outputSum_cons]
  · rw [Int.zero_add]

theorem paidBy_append
    (lib : PaymentLib) (first second : List CTxOut) (payee : Payee) :
    paidBy lib (first ++ second) payee = paidBy lib first payee + paidBy lib second payee := by
  unfold paidBy
  rw [List.filter_append, outputSum_append]

theorem findPayment_eq_paidBy (lib : PaymentLib) (tx : CTransaction) (payee : Payee) :
    findPayment lib tx payee = paidBy lib tx.vout payee := rfl

theorem paidBy_script (lib : PaymentLib) (outputs : List CTxOut) (script : CScript) :
    paidBy lib outputs (.script script) = sumAt (outputEntries outputs) script := by
  induction outputs with
  | nil => rfl
  | cons out rest ih =>
    have unfolded : outputEntries (out :: rest) =
        (out.scriptPubKey, out.nValue) :: outputEntries rest := rfl
    rw [paidBy_cons, ih, unfolded, sumAt_cons]
    simp [Payee.paidBy]

/-! ## The single superblock -/

theorem fillPayments_eq
    (nTotalBudget : Int) (payments : List (CScript × Int)) (nPaidBudget : Int) :
    outputEntries (fillPayments nTotalBudget payments nPaidBudget).1 =
        fittingPayments nTotalBudget payments nPaidBudget ∧
      (fillPayments nTotalBudget payments nPaidBudget).2 = nPaidBudget +
        ((fittingPayments nTotalBudget payments nPaidBudget).map Prod.snd).sum := by
  induction payments generalizing nPaidBudget with
  | nil => simp [fillPayments, fittingPayments, outputEntries]
  | cons payment rest ih =>
    obtain ⟨payee, nAmount⟩ := payment
    rw [fillPayments, fittingPayments]
    split_ifs with fits
    · obtain ⟨entries, paid⟩ := ih (nPaidBudget + nAmount)
      rw [paid, List.map_cons, List.sum_cons, Int.add_assoc]
      refine ⟨?_, rfl⟩
      rw [← entries]
      rfl
    · exact ih nPaidBudget

theorem fittingPayments_sum_le
    (within : nPaidBudget ≤ nTotalBudget)
    (payments : List (CScript × Int)) :
    nPaidBudget + ((fittingPayments nTotalBudget payments nPaidBudget).map Prod.snd).sum ≤
      nTotalBudget := by
  induction payments generalizing nPaidBudget with
  | nil => simpa [fittingPayments] using within
  | cons payment rest ih =>
    rw [fittingPayments]
    split_ifs with fits
    · rw [List.map_cons, List.sum_cons, ← Int.add_assoc]
      exact ih fits
    · exact ih within

theorem outputSum_eq_entries (outputs : List CTxOut) :
    outputSum outputs = ((outputEntries outputs).map Prod.snd).sum := by
  simp [outputSum, outputEntries, Function.comp_def]

/-- The coins created for a script. -/
def createdFor (params : CChainParams) (lib : PaymentLib) (nHeight : Int)
    (script : CScript) : Int :=
  if createsExtraCoin params nHeight = true ∧ script = extraCoinScript params lib then
    extraCoinAmount
  else 0

section Superblock

theorem unallocatedRemainder_nonneg
    (shares : SharesFit params)
    (masternodes : MasternodeLocal) (nHeight : Int) :
    0 ≤ unallocatedRemainder params masternodes nHeight := by
  have within := fittingPayments_sum_le (getTotalBudget_nonneg shares nHeight)
    (masternodes.findBudgetPayments params nHeight)
  unfold unallocatedRemainder budgetsInFull
  omega

/-- The outputs of a superblock as entries: what is required, without an empty remainder, and
the coins created. -/
theorem outputEntries_superblockOutputs :
    outputEntries (superblockOutputs params lib masternodes nHeight) =
      budgetsInFull params masternodes nHeight ++
        ((if 0 < unallocatedRemainder params masternodes nHeight then
          [(lib.getScriptForDestination params.unallocatedBudgetAddress,
            unallocatedRemainder params masternodes nHeight)]
        else []) ++
        ((if params.getChainHeight .h9 ≤ nHeight then
          [(lib.getScriptForDestination params.devFundAddress, getTotalDevFund params nHeight)]
        else []) ++
        if createsExtraCoin params nHeight = true then
          [(extraCoinScript params lib, extraCoinAmount)]
        else [])) := by
  obtain ⟨entries, paid⟩ := fillPayments_eq (getTotalBudget params nHeight)
    (masternodes.findBudgetPayments params nHeight) 0
  rw [Int.zero_add] at paid
  have some : (fillPayments (getTotalBudget params nHeight)
      (masternodes.findBudgetPayments params nHeight) 0).2 < getTotalBudget params nHeight ↔
      0 < unallocatedRemainder params masternodes nHeight := by
    rw [paid]
    unfold unallocatedRemainder budgetsInFull
    omega
  have remainder : getTotalBudget params nHeight -
      (fillPayments (getTotalBudget params nHeight)
        (masternodes.findBudgetPayments params nHeight) 0).2 =
      unallocatedRemainder params masternodes nHeight := by
    rw [paid]
    rfl
  unfold superblockOutputs
  dsimp only
  rw [remainder]
  simp only [some]
  unfold outputEntries at entries ⊢
  rw [List.map_append, entries]
  congr 1
  split_ifs <;> rfl

/-- Each script gets all that is due to it, and the coins created for it. -/
theorem sumAt_superblockOutputs
    (shares : SharesFit params)
    (script : CScript) :
    sumAt (outputEntries (superblockOutputs params lib masternodes nHeight)) script =
      sumAt (requiredDues params lib masternodes nHeight) script +
        createdFor params lib nHeight script := by
  have nonneg := unallocatedRemainder_nonneg shares masternodes nHeight
  have remainder : sumAt (if 0 < unallocatedRemainder params masternodes nHeight then
        [(lib.getScriptForDestination params.unallocatedBudgetAddress,
          unallocatedRemainder params masternodes nHeight)]
      else []) script =
      sumAt [(lib.getScriptForDestination params.unallocatedBudgetAddress,
        unallocatedRemainder params masternodes nHeight)] script := by
    split_ifs with some
    · rfl
    · have nothing : unallocatedRemainder params masternodes nHeight = 0 := by omega
      rw [sumAt_cons, nothing, ite_self]
      rfl
  have created : sumAt (if createsExtraCoin params nHeight = true then
        [(extraCoinScript params lib, extraCoinAmount)]
      else []) script = createdFor params lib nHeight script := by
    unfold createdFor
    split_ifs with creates both both
    · rw [sumAt_cons, if_pos both.2.symm]
      rfl
    · have other : extraCoinScript params lib ≠ script := fun same => both ⟨creates, same.symm⟩
      rw [sumAt_cons, if_neg other]
      rfl
    · exact absurd both.1 creates
    · rfl
  rw [outputEntries_superblockOutputs, requiredDues, superblockDues, sumAt_append, sumAt_append,
    sumAt_append, remainder, created, sumAt_append, sumAt_cons, sumAt_cons, sumAt_nil]
  omega

/-- In all, a superblock pays the budget, the share of the development fund and the coins
created. -/
theorem outputSum_superblockOutputs
    (shares : SharesFit params) :
    outputSum (superblockOutputs params lib masternodes nHeight) =
      getTotalBudget params nHeight +
        (if params.getChainHeight .h9 ≤ nHeight then getTotalDevFund params nHeight else 0) +
        (if createsExtraCoin params nHeight = true then extraCoinAmount else 0) := by
  have nonneg := unallocatedRemainder_nonneg shares masternodes nHeight
  have total : unallocatedRemainder params masternodes nHeight =
      getTotalBudget params nHeight -
        ((budgetsInFull params masternodes nHeight).map Prod.snd).sum := rfl
  have remainder : ((if 0 < unallocatedRemainder params masternodes nHeight then
        [(lib.getScriptForDestination params.unallocatedBudgetAddress,
          unallocatedRemainder params masternodes nHeight)]
      else []).map Prod.snd).sum = unallocatedRemainder params masternodes nHeight := by
    split_ifs with some
    · simp
    · simp only [List.map_nil, List.sum_nil]
      omega
  rw [outputSum_eq_entries, outputEntries_superblockOutputs, List.map_append, List.sum_append,
    List.map_append, List.sum_append, remainder, List.map_append, List.sum_append]
  split_ifs
  · simp only [List.map_cons, List.map_nil, List.sum_cons, List.sum_nil]
    omega
  · simp only [List.map_cons, List.map_nil, List.sum_cons, List.sum_nil]
    omega
  · simp only [List.map_cons, List.map_nil, List.sum_cons, List.sum_nil]
    omega
  · simp only [List.map_nil, List.sum_nil]
    omega

end Superblock

theorem grabHighestCount_mem
    {masternodes : MasternodeLocal} {nTargetHeight : Int}
    (counted : (masternodes.grabHighestCount nTargetHeight).1 ≠ -1) :
    ∃ budget ∈ masternodes.mapFinalizedBudgets,
      budget.mapVotesSize = (masternodes.grabHighestCount nTargetHeight).1 ∧
        budget.covers nTargetHeight = true ∧
        budget.getPayeeAndAmount nTargetHeight =
          some (masternodes.grabHighestCount nTargetHeight).2 := by
  have step : ∀ (budgets : List CFinalizedBudget) (best : Int × CScript × Int),
      budgets.foldl (MasternodeLocal.grabStep nTargetHeight) best = best ∨
        ∃ budget ∈ budgets,
          budget.mapVotesSize = (budgets.foldl (MasternodeLocal.grabStep nTargetHeight) best).1 ∧
          budget.covers nTargetHeight = true ∧
          budget.getPayeeAndAmount nTargetHeight =
            some (budgets.foldl (MasternodeLocal.grabStep nTargetHeight) best).2 := by
    intro budgets
    induction budgets with
    | nil => exact fun best => .inl rfl
    | cons budget rest ih =>
      intro best
      rw [List.foldl_cons]
      rcases ih (MasternodeLocal.grabStep nTargetHeight best budget) with
        same | ⟨found, member, facts⟩
      · rw [same]
        unfold MasternodeLocal.grabStep
        split_ifs with better
        · cases scheduled : budget.getPayeeAndAmount nTargetHeight with
          | none => exact .inl rfl
          | some payment =>
            exact .inr ⟨budget, List.mem_cons_self, rfl, better.2.2, scheduled⟩
        · exact .inl rfl
      · exact .inr ⟨found, List.mem_cons_of_mem _ member, facts⟩
  rcases step masternodes.mapFinalizedBudgets (-1, [], 0) with none | found
  · exact absurd (congrArg Prod.fst none) counted
  · exact found

theorem unallocatedAmount_nonneg
    (params : CChainParams) (masternodes : MasternodeLocal) (nHeight : Int)
    (ancestors : List CBlockIndex) (nAmount : Int) :
    0 ≤ unallocatedAmount params masternodes nHeight ancestors nAmount := by
  unfold unallocatedAmount
  split_ifs
  · exact le_refl 0
  · split
    · exact le_refl 0
    · split_ifs
      · exact le_refl 0
      · exact le_max_left _ _

section BudgetBlock

/-- Without a budget, the whole of it has to be paid to the address for unallocated ones. -/
theorem validBeforeH8_iff_of_none
    (unscheduled : masternodes.budgetPayment nHeight = none)
    (starts : isCycleStart params nHeight = true) :
    isTransactionValidBeforeH8 params lib masternodes txNew nHeight ancestors = true ↔
      getTotalBudget params nHeight ≤
        findPayment lib txNew (.address params.unallocatedBudgetAddress) := by
  unfold MasternodeLocal.budgetPayment at unscheduled
  unfold isTransactionValidBeforeH8
  generalize masternodes.grabHighestCount nHeight = grabbed at unscheduled ⊢
  dsimp only at unscheduled ⊢
  split_ifs at unscheduled ⊢ with few
  rw [starts, Bool.true_and, decide_eq_true_eq]

/-- With the payment of the budget among the outputs, it is left to check the rest. -/
theorem validBeforeH8_iff_of_some
    {nAmount : Int}
    (scheduled : masternodes.budgetPayment nHeight = some (payee, nAmount))
    (paid : ∃ out ∈ txNew.vout, out.scriptPubKey = payee ∧ out.nValue = nAmount) :
    isTransactionValidBeforeH8 params lib masternodes txNew nHeight ancestors = true ↔
      (unallocatedAmount params masternodes nHeight ancestors nAmount = 0 ∨
        unallocatedAmount params masternodes nHeight ancestors nAmount ≤
          findPayment lib txNew (.address params.unallocatedBudgetAddress)) := by
  have voted := @grabHighestCount_mem masternodes nHeight
  unfold MasternodeLocal.budgetPayment at scheduled
  unfold isTransactionValidBeforeH8
  generalize masternodes.grabHighestCount nHeight = grabbed at scheduled voted ⊢
  obtain ⟨nHighestCount, grabbedPayment⟩ := grabbed
  dsimp only at scheduled voted ⊢
  split_ifs at scheduled with few
  rw [Option.some.injEq] at scheduled
  subst scheduled
  have enough : (0 : Int) ≤ nHighestCount := by
    unfold MasternodeLocal.nFivePercent at few
    omega
  obtain ⟨budget, member, votes, covers, payment⟩ := voted (by omega)
  have finalBudgetValid : (masternodes.mapFinalizedBudgets.any fun budget =>
      nHighestCount - (masternodes.countEnabled / 10 : Nat) ≤ budget.mapVotesSize &&
        budget.covers nHeight && budget.isTransactionValid txNew nHeight) = true := by
    rw [List.any_eq_true]
    refine ⟨budget, member, ?_⟩
    obtain ⟨out, inOutputs, toPayee, amount⟩ := paid
    have pays : budget.isTransactionValid txNew nHeight = true := by
      unfold CFinalizedBudget.isTransactionValid
      rw [payment]
      rw [List.any_eq_true]
      exact ⟨out, inOutputs, by simp [toPayee, amount]⟩
    rw [pays, covers, Bool.and_true, Bool.and_true, decide_eq_true_eq]
    omega
  rw [if_neg few]
  rw [finalBudgetValid, Bool.true_and, Bool.or_eq_true, beq_iff_eq, decide_eq_true_eq]

theorem outputSum_budgetBlockOutputs :
    outputSum (budgetBlockOutputs params lib masternodes nHeight ancestors) =
      getBudgetValue params masternodes nHeight ancestors := by
  unfold budgetBlockOutputs getBudgetValue
  cases masternodes.budgetPayment nHeight with
  | none =>
    split_ifs
    · rw [outputSum_cons, outputSum_nil, Int.add_zero]
      rfl
    · rfl
  | some payment =>
    have nonneg := unallocatedAmount_nonneg params masternodes nHeight ancestors payment.2
    dsimp only
    rw [outputSum_cons]
    split_ifs with some
    · rw [outputSum_cons, outputSum_nil, Int.add_zero]
      rfl
    · rw [outputSum_nil]
      dsimp only
      omega

end BudgetBlock

/-! ## Agreement -/

/-- When a node accepts the budget payments that it fills into a transaction itself. -/
structure ProducerAgrees (params : CChainParams) (lib : PaymentLib)
    (masternodes : MasternodeLocal) (node : NodeLocal) (nHeight nFees : Int)
    (ancestors : List CBlockIndex) (txNew : CTransaction) : Prop where
  /-- No amount due in a superblock exceeds all that its script receives, as it could where
  negative amounts are due to the same script. -/
  covered : params.getChainHeight .h8 ≤ nHeight →
    ∀ due ∈ requiredDues params lib masternodes nHeight,
      due.2 ≤ paidBy lib txNew.vout (.script due.1) +
        sumAt (requiredDues params lib masternodes nHeight) due.1 +
          createdFor params lib nHeight due.1
  /-- The coins created arrive alone at their script. -/
  alone : params.getChainHeight .h8 ≤ nHeight → createsExtraCoin params nHeight = true →
    paidBy lib txNew.vout (.script (extraCoinScript params lib)) +
      sumAt (requiredDues params lib masternodes nHeight) (extraCoinScript params lib) = 0
  /-- No negative payment takes away from the address for unallocated budgets. -/
  unallocated : nHeight < params.getChainHeight .h8 →
    ∀ payee nAmount, masternodes.budgetPayment nHeight = some (payee, nAmount) →
      unallocatedAmount params masternodes nHeight ancestors nAmount = 0 ∨
        0 ≤ paidBy lib txNew.vout (.address params.unallocatedBudgetAddress) +
          if lib.toAddress payee = params.unallocatedBudgetAddress then nAmount else 0
  /-- A node that does not go by the budgets it knows sees no more than the total budget. -/
  limited : nHeight < params.getChainHeight .h8 → isExemptHeight params nHeight = false →
    (!masternodes.isSynced || node.isInitialBlockDownload) = true →
      getBudgetValue params masternodes nHeight ancestors + feePayment nFees ≤
        getTotalBudget params nHeight + nFees

/-- The block of a stake and of some payments, with its fees, passes the value check. -/
def passesValueCheck (params : CChainParams) (masternodes : MasternodeLocal) (node : NodeLocal)
    (nHeight nFees nStakeValue : Int) (ancestors : List CBlockIndex)
    (txNew : CTransaction) : Bool :=
  isBlockValueValid params masternodes node nHeight
    (nFees + getBlockExpectedMint params nHeight)
    (txNew.valueOutSum - nStakeValue + feePayment nFees) ancestors

theorem feePayment_le (nonneg : 0 ≤ nFees) : feePayment nFees ≤ nFees := by
  unfold feePayment
  split_ifs
  · exact le_refl nFees
  · exact nonneg

theorem paidBy_nonneg
    (nonneg : NoNegativeOutput txNew)
    (lib : PaymentLib) (payee : Payee) :
    0 ≤ paidBy lib txNew.vout payee :=
  findPayment_nonneg nonneg lib payee

section Agreement

variable {txNew : CTransaction}

/-- The payments of a superblock, and their check. -/
theorem superblock_agrees_iff
    (shares : SharesFit params)
    (eighth : params.getChainHeight .h8 ≤ nHeight)
    (starts : isCycleStart params nHeight = true)
    (outputs : filled.vout = txNew.vout ++ superblockOutputs params lib masternodes nHeight) :
    isBudgetTransactionValid params lib masternodes filled nHeight ancestors = true ↔
      (∀ due ∈ requiredDues params lib masternodes nHeight,
        due.2 ≤ paidBy lib txNew.vout (.script due.1) +
          sumAt (requiredDues params lib masternodes nHeight) due.1 +
            createdFor params lib nHeight due.1) ∧
      (createsExtraCoin params nHeight = true →
        paidBy lib txNew.vout (.script (extraCoinScript params lib)) +
          sumAt (requiredDues params lib masternodes nHeight) (extraCoinScript params lib) =
            0) := by
  have paid : ∀ script, findPayment lib filled (.script script) =
      paidBy lib txNew.vout (.script script) +
        sumAt (requiredDues params lib masternodes nHeight) script +
          createdFor params lib nHeight script := by
    intro script
    rw [findPayment_eq_paidBy, outputs, paidBy_append,
      paidBy_script lib (superblockOutputs params lib masternodes nHeight),
      sumAt_superblockOutputs shares, Int.add_assoc]
  rw [isBudgetTransactionValid_iff eighth starts]
  simp only [paid]
  apply and_congr_right
  intro _
  apply imp_congr_right
  intro creates
  rw [createdFor, if_pos ⟨creates, rfl⟩]
  omega

theorem budgetBlock_agrees_iff
    (reads : lib.toAddress (lib.getScriptForDestination params.unallocatedBudgetAddress) =
      params.unallocatedBudgetAddress)
    (nonneg : NoNegativeOutput txNew)
    (scheduled : (masternodes.budgetPayment nHeight).isSome = true ∨
      isCycleStart params nHeight = true)
    (outputs : filled.vout =
      txNew.vout ++ budgetBlockOutputs params lib masternodes nHeight ancestors) :
    isTransactionValidBeforeH8 params lib masternodes filled nHeight ancestors = true ↔
      ∀ payee nAmount, masternodes.budgetPayment nHeight = some (payee, nAmount) →
        unallocatedAmount params masternodes nHeight ancestors nAmount = 0 ∨
          0 ≤ paidBy lib txNew.vout (.address params.unallocatedBudgetAddress) +
            if lib.toAddress payee = params.unallocatedBudgetAddress then nAmount else 0 := by
  have paid : ∀ payee, findPayment lib filled payee = paidBy lib txNew.vout payee +
      paidBy lib (budgetBlockOutputs params lib masternodes nHeight ancestors) payee := by
    intro payee
    rw [findPayment_eq_paidBy, outputs, paidBy_append]
  have toUnallocated : ∀ nAmount,
      Payee.paidBy lib (payToAddress lib nAmount params.unallocatedBudgetAddress)
        (.address params.unallocatedBudgetAddress) = true := by
    intro nAmount
    exact beq_iff_eq.mpr reads
  cases budget : masternodes.budgetPayment nHeight with
  | none =>
    rw [budget] at scheduled
    have starts : isCycleStart params nHeight = true := scheduled.resolve_left (by simp)
    have stake := paidBy_nonneg nonneg lib (.address params.unallocatedBudgetAddress)
    rw [validBeforeH8_iff_of_none budget starts, paid, budgetBlockOutputs, budget]
    rw [if_pos starts, paidBy_cons, if_pos (toUnallocated _), paidBy_nil]
    unfold payToAddress
    simp only [reduceCtorEq, false_implies, implies_true, iff_true]
    omega
  | some payment =>
    obtain ⟨payee, nAmount⟩ := payment
    have inOutputs : ∃ out ∈ filled.vout, out.scriptPubKey = payee ∧ out.nValue = nAmount := by
      rw [outputs, budgetBlockOutputs, budget]
      refine ⟨{ nValue := nAmount, scriptPubKey := payee }, ?_, rfl, rfl⟩
      exact List.mem_append_right _ List.mem_cons_self
    have rest := unallocatedAmount_nonneg params masternodes nHeight ancestors nAmount
    have unallocated : paidBy lib
        (if 0 < unallocatedAmount params masternodes nHeight ancestors nAmount then
          [payToAddress lib (unallocatedAmount params masternodes nHeight ancestors nAmount)
            params.unallocatedBudgetAddress]
        else []) (.address params.unallocatedBudgetAddress) =
        unallocatedAmount params masternodes nHeight ancestors nAmount := by
      split_ifs with some
      · rw [paidBy_cons, if_pos (toUnallocated _), paidBy_nil, Int.add_zero]
        rfl
      · rw [paidBy_nil]
        omega
    have toPayee : (Payee.address params.unallocatedBudgetAddress).paidBy lib
        { nValue := nAmount, scriptPubKey := payee } = true ↔
        lib.toAddress payee = params.unallocatedBudgetAddress :=
      beq_iff_eq
    rw [validBeforeH8_iff_of_some budget inOutputs, paid, budgetBlockOutputs, budget]
    rw [paidBy_cons, unallocated]
    simp only [toPayee, Option.some.injEq, Prod.mk.injEq, and_imp]
    constructor
    · rintro paidInFull _ _ rfl rfl
      apply paidInFull.imp_right
      intro enough
      omega
    · intro agrees
      apply (agrees payee nAmount rfl rfl).imp_right
      intro enough
      omega

theorem superblock_passesValueCheck
    (shares : SharesFit params)
    (positive : 0 < nHeight)
    (eighth : params.getChainHeight .h8 ≤ nHeight)
    (starts : isCycleStart params nHeight = true)
    (stakes : StakesReward params nHeight nStakeValue txNew)
    (fees : 0 ≤ nFees)
    (outputs : filled.vout = txNew.vout ++ superblockOutputs params lib masternodes nHeight) :
    passesValueCheck params masternodes node nHeight nFees nStakeValue ancestors filled =
      true := by
  have paidFees := feePayment_le fees
  have rewarded := stakes.rewarded
  have worth : filled.valueOutSum = txNew.valueOutSum +
      outputSum (superblockOutputs params lib masternodes nHeight) := by
    rw [CTransaction.valueOutSum, outputs]
    exact outputSum_append _ _
  rw [outputSum_superblockOutputs shares] at worth
  unfold passesValueCheck isBlockValueValid getBlockExpectedMint
  rw [if_neg (by omega)]
  cases exempt : isExemptHeight params nHeight with
  | true => rfl
  | false =>
    rw [if_neg Bool.false_ne_true]
    by_cases ninth : params.getChainHeight .h9 ≤ nHeight
    · cases creates : createsExtraCoin params nHeight with
      | false =>
        simp only [ninth, starts, creates, if_true, Bool.false_eq_true, if_false,
          decide_eq_true_eq] at worth ⊢
        omega
      | true =>
        simp only [ninth, starts, creates, if_true, decide_eq_true_eq] at worth ⊢
        omega
    · have creates : createsExtraCoin params nHeight = false := by
        simp [createsExtraCoin, ninth]
      simp only [ninth, eighth, starts, creates, if_true, Bool.false_eq_true, if_false,
        decide_eq_true_eq] at worth ⊢
      omega

/-- Before the eighth height a node that goes by its budgets allows their value, and any other
node allows the total budget. -/
theorem budgetBlock_passesValueCheck_iff
    (positive : 0 < nHeight)
    (early : nHeight < params.getChainHeight .h8)
    (heights : params.getChainHeight .h8 ≤ params.getChainHeight .h9)
    (block : isBudgetPaymentBlock params masternodes
      (node.isSporkActive .enableSuperblocks) nHeight = true)
    (stakes : StakesReward params nHeight nStakeValue txNew)
    (fees : 0 ≤ nFees)
    (outputs : filled.vout =
      txNew.vout ++ budgetBlockOutputs params lib masternodes nHeight ancestors) :
    passesValueCheck params masternodes node nHeight nFees nStakeValue ancestors filled = true ↔
      (isExemptHeight params nHeight = false →
        (!masternodes.isSynced || node.isInitialBlockDownload) = true →
          getBudgetValue params masternodes nHeight ancestors + feePayment nFees ≤
            getTotalBudget params nHeight + nFees) := by
  have paidFees := feePayment_le fees
  have rewarded := stakes.rewarded
  have worth : filled.valueOutSum = txNew.valueOutSum +
      outputSum (budgetBlockOutputs params lib masternodes nHeight ancestors) := by
    rw [CTransaction.valueOutSum, outputs]
    exact outputSum_append _ _
  rw [outputSum_budgetBlockOutputs] at worth
  have notEighth : ¬ params.getChainHeight .h8 ≤ nHeight := Int.not_le.mpr early
  have notNinth : ¬ params.getChainHeight .h9 ≤ nHeight := by omega
  have within : nHeight.tmod (getBudgetPaymentCycleBlocks params) <
      params.nMaxSuperBlocksPerCycle := by
    unfold isBudgetPaymentBlock at block
    rw [if_neg notEighth] at block
    split_ifs at block with disabled outside
    exact Int.not_le.mp outside
  unfold passesValueCheck isBlockValueValid getBlockExpectedMint
  rw [if_neg (by omega), if_neg notNinth, if_neg notEighth, if_pos within, block]
  cases exempt : isExemptHeight params nHeight with
  | true => simp
  | false =>
    cases unknown : (!masternodes.isSynced || node.isInitialBlockDownload) with
    | false =>
      simp only [Bool.false_eq_true, if_false, if_true, decide_eq_true_eq, false_implies,
        implies_true, iff_true]
      omega
    | true =>
      simp only [Bool.false_eq_true, if_false, if_true, decide_eq_true_eq, true_implies]
      omega

end Agreement

/-- For every budget block of a network, every state of the budget and every coinstake that the
miner makes: what `FillBlockPayee` fills in passes the budget check and the value check of a
node in the same state exactly if the payments do not get in each other's way. -/
theorem fillBudgetPayee_agrees_iff
    {params : CChainParams} {lib : PaymentLib} {masternodes : MasternodeLocal}
    {node : NodeLocal} {pindexPrev : CBlockIndex} {rest : List CBlockIndex}
    {nStakeSplitThreshold nValue nFees : Int}
    (network : params.IsNetwork)
    (reads : lib.toAddress (lib.getScriptForDestination params.unallocatedBudgetAddress) =
      params.unallocatedBudgetAddress)
    (indexed : 0 ≤ pindexPrev.nHeight)
    (staked : 0 ≤ nValue)
    (fees : 0 ≤ nFees)
    (block : isBudgetPaymentBlock params masternodes
      (node.isSporkActive .enableSuperblocks) (pindexPrev.nHeight + 1) = true)
    (prevout : COutPoint) (scriptPubKeyOut : CScript) :
    (isBudgetTransactionValid params lib masternodes
        (fillBudgetPayee params lib masternodes (node.isSporkActive .enableSuperblocks)
          (createCoinStake params nStakeSplitThreshold prevout nValue scriptPubKeyOut
            (pindexPrev.nHeight + 1))
          true (pindexPrev :: rest))
        (pindexPrev.nHeight + 1) (pindexPrev :: rest) = true ∧
      passesValueCheck params masternodes node (pindexPrev.nHeight + 1) nFees nValue
        (pindexPrev :: rest)
        (fillBudgetPayee params lib masternodes (node.isSporkActive .enableSuperblocks)
          (createCoinStake params nStakeSplitThreshold prevout nValue scriptPubKeyOut
            (pindexPrev.nHeight + 1))
          true (pindexPrev :: rest)) = true) ↔
      ProducerAgrees params lib masternodes node (pindexPrev.nHeight + 1) nFees
        (pindexPrev :: rest)
        (createCoinStake params nStakeSplitThreshold prevout nValue scriptPubKeyOut
          (pindexPrev.nHeight + 1)) := by
  have shares := network.sharesFit
  have heights := network.h8_le_h9
  have stakes := stakesReward_createCoinStake shares staked nStakeSplitThreshold prevout
    scriptPubKeyOut (pindexPrev.nHeight + 1)
  generalize createCoinStake params nStakeSplitThreshold prevout nValue scriptPubKeyOut
    (pindexPrev.nHeight + 1) = txNew at stakes ⊢
  have positive : 0 < pindexPrev.nHeight + 1 := by omega
  unfold fillBudgetPayee
  dsimp only
  rw [Bool.not_true, if_neg Bool.false_ne_true, block, Bool.not_true,
    if_neg Bool.false_ne_true]
  generalize pindexPrev.nHeight + 1 = nHeight at *
  by_cases eighth : params.getChainHeight .h8 ≤ nHeight
  · have starts : isCycleStart params nHeight = true := by
      unfold isBudgetPaymentBlock at block
      rw [if_pos eighth] at block
      split_ifs at block
      exact block
    have late : ¬ nHeight < params.getChainHeight .h8 := Int.not_lt.mpr eighth
    rw [if_pos eighth, superblock_agrees_iff shares eighth starts rfl,
      superblock_passesValueCheck shares positive eighth starts stakes fees rfl]
    constructor
    · rintro ⟨⟨covered, alone⟩, -⟩
      exact ⟨fun _ => covered, fun _ => alone, fun early => absurd early late,
        fun early => absurd early late⟩
    · intro agrees
      exact ⟨⟨agrees.covered eighth, agrees.alone eighth⟩, rfl⟩
  · have early : nHeight < params.getChainHeight .h8 := Int.not_le.mp eighth
    have scheduled : (masternodes.budgetPayment nHeight).isSome = true ∨
        isCycleStart params nHeight = true := by
      unfold isBudgetPaymentBlock at block
      rw [if_neg eighth] at block
      split_ifs at block
      exact (Bool.or_eq_true _ _).mp block
    rw [if_neg eighth, isBudgetTransactionValid, if_pos early,
      budgetBlock_agrees_iff reads stakes.nonneg scheduled rfl,
      budgetBlock_passesValueCheck_iff positive early heights block stakes fees rfl]
    constructor
    · rintro ⟨unallocated, limited⟩
      exact ⟨fun late => absurd late eighth, fun late => absurd late eighth,
        fun _ => unallocated, fun _ => limited⟩
    · intro agrees
      exact ⟨agrees.unallocated early, agrees.limited early⟩

/-- A synchronized node with all sporks active. -/
def settledNode : NodeLocal where
  fOkToGoFast := false
  isInitialBlockDownload := false
  time := 1
  adjustedTime := 1
  tipTime := 0
  sporks _ := 0
  mapLockedInputs _ := none

/-- The parent of the superblock of height 1296000. -/
def superblockParent : CBlockIndex where
  hash := 1
  nHeight := 1295999
  nVersion := 5
  nTime := 0
  nBits := 0
  nAccumulatorCheckpoint := 0
  nStatus := ⟨blockValidTree, true, true, false, false⟩
  nUndoPos := 0
  nMint := 0
  nMoneySupply := 0
  mapZerocoinSupply _ := 0
  vMintDenominationsInBlock := []

/-- The coinstake of that superblock, with a stake of 5000 coins. -/
def superblockStake : CTransaction :=
  createCoinStake .main 2000 ⟨7, 0⟩ (5000 * coin) [2] 1296000

/-- That superblock as a node fills it in that knows of some finalized budgets. -/
def filledSuperblock (budgets : List CFinalizedBudget) : CTransaction :=
  fillBudgetPayee .main plainPaymentLib (budgetNode budgets)
    (settledNode.isSporkActive .enableSuperblocks) superblockStake true [superblockParent]

/-- A finalized budget with one payment of 1000 coins. -/
def oneProposal (payee : CScript) : CFinalizedBudget where
  nBlockStart := 1296000
  vecBudgetPayments := [(payee, 1000 * coin)]
  mapVotesSize := 10

theorem fillBudgetPayee_agrees_iff_oneProposal :
    isBudgetTransactionValid .main plainPaymentLib (budgetNode [oneProposal [1]])
        (filledSuperblock [oneProposal [1]]) 1296000 [superblockParent] = true ∧
      passesValueCheck .main (budgetNode [oneProposal [1]]) settledNode 1296000 0 (5000 * coin)
        [superblockParent] (filledSuperblock [oneProposal [1]]) = true := by
  refine (@fillBudgetPayee_agrees_iff .main plainPaymentLib (budgetNode [oneProposal [1]])
    settledNode superblockParent [] 2000 (5000 * coin) 0 (.inl rfl) (by decide) (by decide)
    (by decide) (by decide) (by decide) ⟨7, 0⟩ [2]).mpr ?_
  constructor
  · intro _
    decide
  · intro _ _
    decide
  · intro early
    exact absurd early (by decide)
  · intro early
    exact absurd early (by decide)

/-- Where a proposal pays the script to which coins are created, the superblock that the node
fills in fails its own check. -/
theorem fillBudgetPayee_disagrees :
    isBudgetPaymentBlock .main
        (budgetNode [oneProposal (extraCoinScript .main plainPaymentLib)])
        (settledNode.isSporkActive .enableSuperblocks) 1296000 = true ∧
      isBudgetTransactionValid .main plainPaymentLib
        (budgetNode [oneProposal (extraCoinScript .main plainPaymentLib)])
        (filledSuperblock [oneProposal (extraCoinScript .main plainPaymentLib)]) 1296000
        [superblockParent] = false := by
  decide

end ColossusCoin
