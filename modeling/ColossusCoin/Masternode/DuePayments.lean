import ColossusCoin.Masternode.Payments
import Mathlib.Algebra.Order.BigOperators.Group.List
import Mathlib.Algebra.Order.Ring.Int

/-!
# Payments that are due

On a synchronized node with the superblock and the budget enforcement sporks
active, whatever `IsBlockValueValid` allows above the expected mint has to be paid
to the payees that `IsBlockPayeeValid` asks for.  The payments due in a block are
stated on their own, and each of the two checks is compared with them.
-/

namespace ColossusCoin

/-- The payments of finalized budgets that fit into the total budget. -/
def fittingPayments (nTotalBudget : Int) :
    List (CScript × Int) → Int → List (CScript × Int)
  | [], _ => []
  | (payee, nAmount) :: rest, nPaidBudget =>
    if nPaidBudget + nAmount ≤ nTotalBudget then
      (payee, nAmount) :: fittingPayments nTotalBudget rest (nPaidBudget + nAmount)
    else fittingPayments nTotalBudget rest nPaidBudget

/-- The sum of a list of payments. -/
def totalDue (payments : List (Payee × Int)) : Int :=
  (payments.map Prod.snd).sum

/-- The payments that a superblock from the eighth height on has to make. -/
def superblockPayments (params : CChainParams) (lib : PaymentLib)
    (masternodes : MasternodeLocal) (nHeight : Int) : List (Payee × Int) :=
  let nTotalBudget := getTotalBudget params nHeight
  let toScript strAddress := Payee.script (lib.getScriptForDestination strAddress)
  let budgets := fittingPayments nTotalBudget
    (masternodes.findBudgetPayments params nHeight) 0
  budgets.map (fun payment => (Payee.script payment.1, payment.2)) ++
    (toScript params.unallocatedBudgetAddress,
      nTotalBudget - (budgets.map Prod.snd).sum) ::
    ((if params.getChainHeight .h9 ≤ nHeight then
      [(toScript params.devFundAddress, getTotalDevFund params nHeight)] else []) ++
    (if createsExtraCoin params nHeight then
      [(toScript params.address108M, extraCoinAmount)] else []))

/-- The payments that a budget block before the eighth height has to make. -/
def budgetBlockPayments (params : CChainParams) (masternodes : MasternodeLocal)
    (nHeight : Int) (ancestors : List CBlockIndex) : List (Payee × Int) :=
  let unallocated := Payee.address params.unallocatedBudgetAddress
  match masternodes.budgetPayment nHeight with
  | none =>
    if isCycleStart params nHeight then
      [(unallocated, getTotalBudget params nHeight)]
    else []
  | some (payee, nAmount) =>
    let nUnallocated := unallocatedAmount params masternodes nHeight ancestors nAmount
    (Payee.script payee, nAmount) ::
      if nUnallocated = 0 then [] else [(unallocated, nUnallocated)]

/-- The payments due in a block, given whether superblocks are enabled. -/
def duePayments (params : CChainParams) (lib : PaymentLib)
    (masternodes : MasternodeLocal) (superblocks : Bool) (nHeight : Int)
    (ancestors : List CBlockIndex) : List (Payee × Int) :=
  if !isBudgetPaymentBlock params masternodes superblocks nHeight then []
  else if nHeight < params.getChainHeight .h8 then
    budgetBlockPayments params masternodes nHeight ancestors
  else superblockPayments params lib masternodes nHeight

/-- What a transaction pays to any of the payees, each output counted once. -/
def paidTo (lib : PaymentLib) (tx : CTransaction) (payees : List Payee) : Int :=
  ((tx.vout.filter fun out => payees.any (Payee.paidBy lib out)).map
    CTxOut.nValue).sum

/-- No output pays two of the payees. -/
def DistinctPayees (lib : PaymentLib) (payees : List Payee) : Prop :=
  payees.Pairwise fun first second =>
    ∀ out, ¬(first.paidBy lib out = true ∧ second.paidBy lib out = true)

/-- Each of the payments was made. -/
def MakesPayments (lib : PaymentLib) (tx : CTransaction)
    (payments : List (Payee × Int)) : Prop :=
  ∀ payment ∈ payments, payment.2 ≤ findPayment lib tx payment.1

theorem paidTo_nil (lib : PaymentLib) (tx : CTransaction) :
    paidTo lib tx [] = 0 := by
  simp [paidTo]

/-- An output that pays a payee pays none of the others. -/
theorem paidTo_cons
    (distinct : DistinctPayees lib (payee :: payees)) (tx : CTransaction) :
    paidTo lib tx (payee :: payees) = findPayment lib tx payee + paidTo lib tx payees := by
  have apart := (List.pairwise_cons.mp distinct).1
  unfold paidTo findPayment
  simp only [List.any_cons]
  induction tx.vout with
  | nil => rfl
  | cons out outs ih =>
    by_cases pays : payee.paidBy lib out = true
    · have othersUnpaid : payees.any (Payee.paidBy lib out) = false := by
        apply List.any_eq_false.mpr
        intro other member paid
        exact apart other member out ⟨pays, paid⟩
      simp only [List.filter_cons, pays, othersUnpaid, Bool.or_false,
        if_true, Bool.false_eq_true, if_false, List.map_cons, List.sum_cons]
      rw [ih]
      omega
    · rw [Bool.not_eq_true] at pays
      simp only [List.filter_cons, pays, Bool.false_or, Bool.false_eq_true, if_false]
      by_cases others : payees.any (Payee.paidBy lib out) = true
      · simp only [others, if_true, List.map_cons, List.sum_cons]
        rw [ih]
        omega
      · simpa only [others, Bool.false_eq_true, if_false] using ih

theorem totalDue_le_paidTo
    (distinct : DistinctPayees lib (payments.map Prod.fst))
    (paid : MakesPayments lib tx payments) :
    totalDue payments ≤ paidTo lib tx (payments.map Prod.fst) := by
  induction payments with
  | nil => simp [totalDue, paidTo_nil]
  | cons payment rest ih =>
    rw [List.map_cons] at distinct ⊢
    rw [paidTo_cons distinct, totalDue, List.map_cons, List.sum_cons]
    have first := paid payment List.mem_cons_self
    have others := ih (List.pairwise_cons.mp distinct).2
      fun other member => paid other (List.mem_cons_of_mem _ member)
    rw [totalDue] at others
    omega

theorem totalDue_append (first second : List (Payee × Int)) :
    totalDue (first ++ second) = totalDue first + totalDue second := by
  simp [totalDue]

theorem totalDue_superblockPayments
    (params : CChainParams) (lib : PaymentLib) (masternodes : MasternodeLocal)
    (nHeight : Int) :
    totalDue (superblockPayments params lib masternodes nHeight) =
      getTotalBudget params nHeight +
        (if params.getChainHeight .h9 ≤ nHeight then getTotalDevFund params nHeight
        else 0) +
        (if createsExtraCoin params nHeight then extraCoinAmount else 0) := by
  unfold superblockPayments
  rw [totalDue_append]
  have budgets : ∀ payments : List (CScript × Int),
      totalDue (payments.map fun payment => (Payee.script payment.1, payment.2)) =
        (payments.map Prod.snd).sum := by
    intro payments
    simp [totalDue, Function.comp_def]
  rw [budgets]
  split <;> split <;> simp [totalDue] <;> omega

theorem totalDue_budgetBlockPayments
    (params : CChainParams) (masternodes : MasternodeLocal) (nHeight : Int)
    (ancestors : List CBlockIndex) :
    totalDue (budgetBlockPayments params masternodes nHeight ancestors) =
      getBudgetValue params masternodes nHeight ancestors := by
  unfold budgetBlockPayments getBudgetValue
  cases masternodes.budgetPayment nHeight with
  | none =>
    dsimp only
    split <;> simp [totalDue]
  | some payment =>
    dsimp only
    split
    · rename_i allocated
      simp [totalDue, allocated]
    · simp [totalDue]

/-- Above the expected value, the value check allows no more than is due.  From the
eighth height on it does not ask whether superblocks are enabled. -/
theorem minted_le_of_isBlockValueValid
    (lib : PaymentLib)
    (heights : params.getChainHeight .h8 ≤ params.getChainHeight .h9)
    (valid : isBlockValueValid params masternodes node nHeight nExpectedValue nMinted
      ancestors = true)
    (ordinary : isExemptHeight params nHeight = false)
    (synced : masternodes.isSynced = true)
    (settled : node.isInitialBlockDownload = false)
    (superblocks : params.getChainHeight .h8 ≤ nHeight →
      node.isSporkActive .enableSuperblocks = true) :
    nMinted ≤
      nExpectedValue + totalDue (duePayments params lib masternodes
        (node.isSporkActive .enableSuperblocks) nHeight ancestors) := by
  unfold isBlockValueValid at valid
  unfold duePayments
  by_cases positive : nHeight ≤ 0
  · simp [positive] at valid
  · rw [if_neg positive, ordinary, if_neg Bool.false_ne_true] at valid
    by_cases eighth : params.getChainHeight .h8 ≤ nHeight
    · have early : ¬ nHeight < params.getChainHeight .h8 := by omega
      rw [if_neg early, superblocks eighth]
      by_cases starts : isCycleStart params nHeight = true
      · have block : isBudgetPaymentBlock params masternodes true nHeight = true := by
          simp [isBudgetPaymentBlock, eighth, starts]
        simp only [block, Bool.not_true, Bool.false_eq_true, if_false]
        rw [totalDue_superblockPayments]
        by_cases ninth : params.getChainHeight .h9 ≤ nHeight
        · simp only [ninth, starts, if_true, decide_eq_true_eq] at valid ⊢
          omega
        · have extra : createsExtraCoin params nHeight = false := by
            simp [createsExtraCoin, ninth]
          simp only [ninth, eighth, starts, extra, if_true, if_false, decide_eq_true_eq,
            Bool.false_eq_true] at valid ⊢
          omega
      · have block : isBudgetPaymentBlock params masternodes true nHeight = false := by
          simpa [isBudgetPaymentBlock, eighth] using starts
        simp only [block, Bool.not_false, if_true]
        have bound : nMinted ≤ nExpectedValue := by
          by_cases ninth : params.getChainHeight .h9 ≤ nHeight
          · simpa [ninth, starts] using valid
          · simpa [ninth, eighth, starts] using valid
        simp only [totalDue, List.map_nil, List.sum_nil]
        omega
    · have ninth : ¬ params.getChainHeight .h9 ≤ nHeight := by omega
      have early : nHeight < params.getChainHeight .h8 := by omega
      rw [if_neg ninth, if_neg eighth, synced, settled] at valid
      simp only [Bool.not_true, Bool.or_false, Bool.false_eq_true, if_false] at valid
      rw [if_pos early]
      by_cases block : isBudgetPaymentBlock params masternodes
          (node.isSporkActive .enableSuperblocks) nHeight = true
      · simp only [block, if_true, decide_eq_true_eq] at valid
        simp only [block, Bool.not_true, Bool.false_eq_true, if_false]
        rw [totalDue_budgetBlockPayments]
        exact valid
      · simp only [block, Bool.false_eq_true, if_false, decide_eq_true_eq] at valid
        simp only [block, Bool.not_false, if_true, totalDue, List.map_nil, List.sum_nil]
        omega

/-- The heights at which the value check may allow more than the expected value. -/
def mayRaiseLimit (params : CChainParams) (nHeight : Int) : Bool :=
  if params.getChainHeight .h8 ≤ nHeight then isCycleStart params nHeight
  else nHeight.tmod (getBudgetPaymentCycleBlocks params) < params.nMaxSuperBlocksPerCycle

theorem minted_le_of_not_mayRaiseLimit
    (heights : params.getChainHeight .h8 ≤ params.getChainHeight .h9)
    (valid : isBlockValueValid params masternodes node nHeight nExpectedValue nMinted
      ancestors = true)
    (ordinary : isExemptHeight params nHeight = false)
    (usual : mayRaiseLimit params nHeight = false) :
    nMinted ≤ nExpectedValue := by
  unfold isBlockValueValid at valid
  unfold mayRaiseLimit at usual
  by_cases positive : nHeight ≤ 0
  · simp [positive] at valid
  · rw [if_neg positive, ordinary, if_neg Bool.false_ne_true] at valid
    by_cases eighth : params.getChainHeight .h8 ≤ nHeight
    · rw [if_pos eighth] at usual
      by_cases ninth : params.getChainHeight .h9 ≤ nHeight
      · simpa [ninth, usual] using valid
      · simpa [ninth, eighth, usual] using valid
    · have ninth : ¬ params.getChainHeight .h9 ≤ nHeight := by omega
      rw [if_neg eighth, decide_eq_false_iff_not] at usual
      rw [if_neg ninth, if_neg eighth] at valid
      by_cases unknown : (!masternodes.isSynced || node.isInitialBlockDownload) = true
      · rw [if_pos unknown, if_neg usual] at valid
        exact of_decide_eq_true valid
      · have block : ∀ superblocks,
            isBudgetPaymentBlock params masternodes superblocks nHeight = false := by
          intro superblocks
          have outside := Int.not_lt.mp usual
          cases superblocks <;> simp [isBudgetPaymentBlock, eighth, outside]
        rw [if_neg unknown, block, if_neg Bool.false_ne_true] at valid
        exact of_decide_eq_true valid

theorem makesPayments_nil (lib : PaymentLib) (tx : CTransaction) :
    MakesPayments lib tx [] := by
  simp [MakesPayments]

theorem makesPayments_cons
    (first : payment.2 ≤ findPayment lib tx payment.1)
    (others : MakesPayments lib tx payments) :
    MakesPayments lib tx (payment :: payments) := by
  intro current member
  cases member with
  | head => exact first
  | tail _ inRest => exact others current inRest

theorem makesPayments_append
    (inFirst : MakesPayments lib tx first)
    (inSecond : MakesPayments lib tx second) :
    MakesPayments lib tx (first ++ second) := by
  intro current member
  cases List.mem_append.mp member with
  | inl present => exact inFirst current present
  | inr present => exact inSecond current present

/-- The loop over the finalized budget payments passes when each of the fitting
ones is made, and then returns their sum. -/
theorem fitting_of_checkBudgetPayments
    (checked : checkBudgetPayments lib tx nTotalBudget payments nPaidBudget = some nPaid) :
    nPaid =
        nPaidBudget + ((fittingPayments nTotalBudget payments nPaidBudget).map Prod.snd).sum ∧
      MakesPayments lib tx
        ((fittingPayments nTotalBudget payments nPaidBudget).map fun payment =>
          (Payee.script payment.1, payment.2)) := by
  induction payments generalizing nPaidBudget with
  | nil =>
    simp only [checkBudgetPayments, Option.some.injEq] at checked
    simp [fittingPayments, makesPayments_nil, checked]
  | cons payment rest ih =>
    obtain ⟨payee, nAmount⟩ := payment
    rw [checkBudgetPayments] at checked
    rw [fittingPayments]
    by_cases fits : nPaidBudget + nAmount ≤ nTotalBudget
    · rw [if_pos fits] at checked ⊢
      by_cases missing : findPayment lib tx (.script payee) < nAmount
      · rw [if_pos missing] at checked
        cases checked
      · rw [if_neg missing] at checked
        have others := ih checked
        refine ⟨?_, makesPayments_cons (Int.not_lt.mp missing) others.2⟩
        rw [others.1, List.map_cons, List.sum_cons]
        omega
    · rw [if_neg fits] at checked ⊢
      exact ih checked

/-- The budget check of a superblock from the eighth height on asks for all that
is due. -/
theorem makes_superblockPayments
    (eighth : params.getChainHeight .h8 ≤ nHeight)
    (starts : isCycleStart params nHeight = true)
    (valid : isBudgetTransactionValid params lib masternodes tx nHeight ancestors = true) :
    MakesPayments lib tx (superblockPayments params lib masternodes nHeight) := by
  unfold isBudgetTransactionValid at valid
  rw [if_neg (by omega), if_neg (by simp [starts])] at valid
  dsimp only at valid
  split at valid
  · cases valid
  · rename_i nPaid checked
    obtain ⟨paidSum, budgets⟩ := fitting_of_checkBudgetPayments checked
    simp only [Bool.and_eq_true, Bool.or_eq_true, decide_eq_true_eq,
      Bool.not_eq_true', beq_iff_eq] at valid
    obtain ⟨⟨unallocated, devFund⟩, created⟩ := valid
    refine makesPayments_append budgets (makesPayments_cons ?_ (makesPayments_append ?_ ?_))
    · dsimp only
      omega
    · split
      · rename_i ninth
        exact makesPayments_cons (devFund.resolve_left (by omega)) (makesPayments_nil _ _)
      · exact makesPayments_nil _ _
    · split
      · rename_i creates
        have paid := created.resolve_left (by simp [creates])
        exact makesPayments_cons (le_of_eq paid.symm) (makesPayments_nil _ _)
      · exact makesPayments_nil _ _

/-- Before the eighth height, a block may pay any finalized budget that comes
close to the highest count of votes.  The payment is determined when all of them
schedule the same one. -/
def Uncontested (masternodes : MasternodeLocal) (nHeight : Int) : Prop :=
  ∀ budget ∈ masternodes.mapFinalizedBudgets,
    (masternodes.grabHighestCount nHeight).1 - (masternodes.countEnabled / 10 : Nat) ≤
        budget.mapVotesSize →
      budget.covers nHeight = true →
      budget.getPayeeAndAmount nHeight =
        some (masternodes.grabHighestCount nHeight).2

/-- An exact payment to a script is found, among outputs without negative
values. -/
theorem le_findPayment_of_mem
    (nonneg : ∀ txout ∈ tx.vout, 0 ≤ txout.nValue)
    (member : out ∈ tx.vout) :
    out.nValue ≤ findPayment lib tx (.script out.scriptPubKey) := by
  apply List.single_le_sum
  · intro value present
    obtain ⟨txout, inFiltered, rfl⟩ := List.mem_map.mp present
    exact nonneg txout (List.mem_of_mem_filter inFiltered)
  · apply List.mem_map_of_mem
    exact List.mem_filter.mpr ⟨member, by simp [Payee.paidBy]⟩

/-- The budget check of a budget block before the eighth height asks for all that
is due, when the payment is determined. -/
theorem makes_budgetBlockPayments
    (nonneg : ∀ txout ∈ tx.vout, 0 ≤ txout.nValue)
    (uncontested : Uncontested masternodes nHeight)
    (valid : isTransactionValidBeforeH8 params lib masternodes tx nHeight ancestors = true) :
    MakesPayments lib tx (budgetBlockPayments params masternodes nHeight ancestors) := by
  unfold isTransactionValidBeforeH8 at valid
  unfold Uncontested at uncontested
  unfold budgetBlockPayments MasternodeLocal.budgetPayment
  generalize masternodes.grabHighestCount nHeight = grabbed at valid uncontested ⊢
  obtain ⟨nHighestCount, payee, nAmount⟩ := grabbed
  dsimp only at valid uncontested ⊢
  by_cases few : nHighestCount < masternodes.nFivePercent
  · rw [if_pos few] at valid
    rw [if_pos few]
    simp only [Bool.and_eq_true, decide_eq_true_eq] at valid
    rw [if_pos valid.1]
    exact makesPayments_cons valid.2 (makesPayments_nil _ _)
  · rw [if_neg few] at valid
    rw [if_neg few]
    simp only [Bool.and_eq_true, List.any_eq_true, decide_eq_true_eq, Bool.or_eq_true,
      beq_iff_eq] at valid
    obtain ⟨⟨budget, member, ⟨votes, covers⟩, pays⟩, unallocated⟩ := valid
    have scheduled := uncontested budget member votes covers
    rw [CFinalizedBudget.isTransactionValid, scheduled] at pays
    simp only [List.any_eq_true, Bool.and_eq_true, beq_iff_eq] at pays
    obtain ⟨out, inOutputs, rfl, rfl⟩ := pays
    refine makesPayments_cons (le_findPayment_of_mem nonneg inOutputs) ?_
    split
    · exact makesPayments_nil _ _
    · rename_i some
      exact makesPayments_cons (unallocated.resolve_left some) (makesPayments_nil _ _)

/-- On a synchronized node that enforces the budget, the payee check asks for all
that is due. -/
theorem makes_duePayments
    (valid : paymentsValid params lib masternodes node tx nHeight nFees ancestors = true)
    (nonneg : ∀ txout ∈ tx.vout, 0 ≤ txout.nValue)
    (enforced : node.isSporkActive .masternodeBudgetEnforcement = true)
    (uncontested : nHeight < params.getChainHeight .h8 →
      Uncontested masternodes nHeight) :
    MakesPayments lib tx (duePayments params lib masternodes
      (node.isSporkActive .enableSuperblocks) nHeight ancestors) := by
  unfold paymentsValid at valid
  unfold duePayments
  simp only [enforced, Bool.not_true, Bool.or_false] at valid
  cases block : isBudgetPaymentBlock params masternodes
      (node.isSporkActive .enableSuperblocks) nHeight with
  | false => exact makesPayments_nil _ _
  | true =>
    simp only [block, if_true, Bool.and_eq_true] at valid
    have budgetValid := valid.1.1
    by_cases early : nHeight < params.getChainHeight .h8
    · rw [isBudgetTransactionValid, if_pos early] at budgetValid
      rw [if_pos early]
      exact makes_budgetBlockPayments nonneg (uncontested early) budgetValid
    · rw [if_neg early]
      have eighth : params.getChainHeight .h8 ≤ nHeight := Int.not_lt.mp early
      have starts : isCycleStart params nHeight = true := by
        simp only [isBudgetPaymentBlock, if_pos eighth] at block
        split at block
        · cases block
        · exact block
      exact makes_superblockPayments eighth starts budgetValid

end ColossusCoin
