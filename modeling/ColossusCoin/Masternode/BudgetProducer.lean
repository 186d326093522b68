import ColossusCoin.Masternode.PaidInFull

/-!
# What the producer of a budget block pays

`CreateCoinStake` makes the outputs of the stake, and `FillBlockPayee` appends the payments of
the budget.  Both are followed by what they pay to a script and in all.
-/

namespace ColossusCoin

open Aggregates

/-- The outputs that `CreateCoinStake` makes: an empty one, and the value staked with the reward
in one output or, above the threshold of the wallet, in two. -/
def coinStakeOutputs (nStakeSplitThreshold nSplitSize nCredit : Int)
    (scriptPubKeyOut : CScript) : List CTxOut :=
  { nValue := 0, scriptPubKey := [] } ::
    if nStakeSplitThreshold * coin < nSplitSize.tdiv 2 then
      [{ nValue := nCredit.tdiv 2, scriptPubKey := scriptPubKeyOut },
        { nValue := nCredit - nCredit.tdiv 2, scriptPubKey := scriptPubKeyOut }]
    else [{ nValue := nCredit, scriptPubKey := scriptPubKeyOut }]

/-- `CreateCoinStake` for the kernel that it found, before it is signed. -/
def createCoinStake (params : CChainParams) (nStakeSplitThreshold : Int) (prevout : COutPoint)
    (nValue : Int) (scriptPubKeyOut : CScript) (nHeight : Int) : CTransaction where
  hash := 0
  nVersion := 1
  vin := [⟨prevout, [], 4294967295⟩]
  vout := coinStakeOutputs nStakeSplitThreshold nValue
    (nValue + getBlockValueReward params nHeight) scriptPubKeyOut
  nLockTime := 0

/-- An output to an address. -/
def payToAddress (lib : PaymentLib) (nValue : Int) (strAddress : String) : CTxOut where
  nValue := nValue
  scriptPubKey := lib.getScriptForDestination strAddress

/-- The loop over the budget payments: the outputs added, and the budget paid then. -/
def fillPayments (nTotalBudget : Int) : List (CScript × Int) → Int → List CTxOut × Int
  | [], nPaidBudget => ([], nPaidBudget)
  | (payee, nAmount) :: rest, nPaidBudget =>
    if nPaidBudget + nAmount ≤ nTotalBudget then
      match fillPayments nTotalBudget rest (nPaidBudget + nAmount) with
      | (outputs, nPaid) => ({ nValue := nAmount, scriptPubKey := payee } :: outputs, nPaid)
    else fillPayments nTotalBudget rest nPaidBudget

/-- The outputs added to a single superblock. -/
def superblockOutputs (params : CChainParams) (lib : PaymentLib)
    (masternodes : MasternodeLocal) (nTargetHeight : Int) : List CTxOut :=
  let nTotalBudget := getTotalBudget params nTargetHeight
  match fillPayments nTotalBudget (masternodes.findBudgetPayments params nTargetHeight) 0 with
  | (outputs, nPaidBudget) =>
    outputs ++
      ((if nPaidBudget < nTotalBudget then
        [payToAddress lib (nTotalBudget - nPaidBudget) params.unallocatedBudgetAddress]
      else []) ++
      ((if params.getChainHeight .h9 ≤ nTargetHeight then
        [payToAddress lib (getTotalDevFund params nTargetHeight) params.devFundAddress]
      else []) ++
      if createsExtraCoin params nTargetHeight then
        [payToAddress lib extraCoinAmount params.address108M]
      else []))

/-- The outputs added to a budget block before the eighth height. -/
def budgetBlockOutputs (params : CChainParams) (lib : PaymentLib)
    (masternodes : MasternodeLocal) (nTargetHeight : Int) (ancestors : List CBlockIndex) :
    List CTxOut :=
  match masternodes.budgetPayment nTargetHeight with
  | none =>
    if isCycleStart params nTargetHeight then
      [payToAddress lib (getTotalBudget params nTargetHeight)
        params.unallocatedBudgetAddress]
    else []
  | some (payee, nAmount) =>
    let nUnallocatedAmount :=
      unallocatedAmount params masternodes nTargetHeight ancestors nAmount
    { nValue := nAmount, scriptPubKey := payee } ::
      if 0 < nUnallocatedAmount then
        [payToAddress lib nUnallocatedAmount params.unallocatedBudgetAddress]
      else []

/-- `CBudgetManager::FillBlockPayee`, given the ancestors from the parent on and whether
superblocks are enabled. -/
def fillBudgetPayee (params : CChainParams) (lib : PaymentLib) (masternodes : MasternodeLocal)
    (superblocks : Bool) (txNew : CTransaction) (fProofOfStake : Bool)
    (ancestors : List CBlockIndex) : CTransaction :=
  if !fProofOfStake then txNew
  else
    match ancestors with
    | [] => txNew
    | pindexPrev :: _ =>
      let nTargetHeight := pindexPrev.nHeight + 1
      if !isBudgetPaymentBlock params masternodes superblocks nTargetHeight then txNew
      else if params.getChainHeight .h8 ≤ nTargetHeight then
        { txNew with
          vout := txNew.vout ++ superblockOutputs params lib masternodes nTargetHeight }
      else
        { txNew with
          vout := txNew.vout ++
            budgetBlockOutputs params lib masternodes nTargetHeight ancestors }

/-- The fees that `FillBlockPayee` pays to the address for fees, from 100 coins on. -/
def feePayment (nFees : Int) : Int :=
  if 100 * coin ≤ nFees then nFees else 0

/-- A stake with its reward: no output is negative, and the outputs exceed the value staked by
the reward of the height. -/
structure StakesReward (params : CChainParams) (nHeight nValue : Int) (txNew : CTransaction) :
    Prop where
  nonneg : NoNegativeOutput txNew
  rewarded : txNew.valueOutSum = nValue + getBlockValueReward params nHeight

theorem getBlockValue_nonneg (params : CChainParams) (nHeight : Int) :
    0 ≤ getBlockValue params nHeight := by
  unfold getBlockValue
  split_ifs <;> decide

/-- The shares of the budget and of the development fund are no more than the block. -/
structure SharesFit (params : CChainParams) : Prop where
  budget : 0 ≤ params.nBudgetPercent
  devFund : 0 ≤ params.nDevFundPercent
  both : params.nBudgetPercent + params.nDevFundPercent ≤ 100
  cycle : 0 ≤ getBudgetPaymentCycleBlocks params

theorem CChainParams.IsNetwork.sharesFit
    (network : params.IsNetwork) :
    SharesFit params := by
  rcases network with rfl | rfl | rfl <;>
    exact ⟨by decide, by decide, by decide, by decide⟩

theorem getBlockValueReward_nonneg
    (shares : SharesFit params)
    (nHeight : Int) :
    0 ≤ getBlockValueReward params nHeight := by
  have value := getBlockValue_nonneg params nHeight
  have devFund := shares.devFund
  have both := shares.both
  unfold getBlockValueReward
  split_ifs
  · exact value
  · exact Int.tdiv_nonneg (Int.mul_nonneg value (by omega)) (by omega)
  · exact Int.tdiv_nonneg (Int.mul_nonneg value (by omega)) (by omega)
  · exact Int.tdiv_nonneg (Int.mul_nonneg value (by omega)) (by omega)

theorem getTotalBudget_nonneg
    (shares : SharesFit params)
    (nHeight : Int) :
    0 ≤ getTotalBudget params nHeight := by
  have value := getBlockValue_nonneg params nHeight
  apply Int.mul_nonneg _ shares.cycle
  unfold getBlockValueBudget
  split_ifs
  · exact le_refl 0
  · exact Int.tdiv_nonneg (Int.mul_nonneg value (by omega)) (by omega)
  · exact Int.tdiv_nonneg (Int.mul_nonneg value shares.budget) (by omega)

theorem stakesReward_createCoinStake
    (shares : SharesFit params)
    (nonneg : 0 ≤ nValue)
    (nStakeSplitThreshold : Int) (prevout : COutPoint) (scriptPubKeyOut : CScript)
    (nHeight : Int) :
    StakesReward params nHeight nValue
      (createCoinStake params nStakeSplitThreshold prevout nValue scriptPubKeyOut nHeight) := by
  have reward := getBlockValueReward_nonneg shares nHeight
  have half := Int.tdiv_nonneg (show 0 ≤ nValue + getBlockValueReward params nHeight by omega)
    (show (0 : Int) ≤ 2 by omega)
  have small := Int.tdiv_le_self 2 (show 0 ≤ nValue + getBlockValueReward params nHeight by omega)
  constructor
  · unfold NoNegativeOutput createCoinStake coinStakeOutputs
    rw [List.forall_mem_cons]
    refine ⟨le_refl 0, ?_⟩
    split_ifs
    · simp only [List.forall_mem_cons, List.not_mem_nil, false_implies, implies_true, and_true]
      constructor <;> omega
    · simp only [List.forall_mem_cons, List.not_mem_nil, false_implies, implies_true, and_true]
      omega
  · unfold CTransaction.valueOutSum createCoinStake coinStakeOutputs
    split_ifs
    · simp
    · simp

end ColossusCoin
