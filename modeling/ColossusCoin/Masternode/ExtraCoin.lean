import ColossusCoin.Library.Multiples
import ColossusCoin.Masternode.BudgetProducer
import Mathlib.Algebra.BigOperators.Finprod

/-!
# The coins created from the ninth height on

`IsBlockValueValid` allows 4.5 million coins more in the superblocks of a window that opens
at the ninth height, `CBudgetManager::FillBlockPayee` pays them, and
`CBudgetManager::IsTransactionValid` asks for them.  Both ends belong to the window, so that
it holds one superblock more than cycles when it opens with a superblock.
-/

namespace ColossusCoin

open Multiples

/-- What is created at a height on top of the budget. -/
def extraAllowance (params : CChainParams) (nHeight : Int) : Int :=
  if 0 < nHeight ∧ isCycleStart params nHeight = true ∧
      createsExtraCoin params nHeight = true then
    extraCoinAmount
  else 0

/-- The outputs of a superblock for the budget and the development fund. -/
def ordinaryOutputs (params : CChainParams) (lib : PaymentLib) (masternodes : MasternodeLocal)
    (nTargetHeight : Int) : List CTxOut :=
  let nTotalBudget := getTotalBudget params nTargetHeight
  match fillPayments nTotalBudget (masternodes.findBudgetPayments params nTargetHeight) 0 with
  | (outputs, nPaidBudget) =>
    outputs ++
      ((if nPaidBudget < nTotalBudget then
        [payToAddress lib (nTotalBudget - nPaidBudget) params.unallocatedBudgetAddress]
      else []) ++
      if params.getChainHeight .h9 ≤ nTargetHeight then
        [payToAddress lib (getTotalDevFund params nTargetHeight) params.devFundAddress]
      else [])

/-- The checks of a superblock on the budget and the development fund. -/
def ordinaryPaymentsValid (params : CChainParams) (lib : PaymentLib)
    (masternodes : MasternodeLocal) (txNew : CTransaction) (nBlockHeight : Int) : Bool :=
  let nTotalBudget := getTotalBudget params nBlockHeight
  let paidTo address := findPayment lib txNew (.script (lib.getScriptForDestination address))
  match checkBudgetPayments lib txNew nTotalBudget
      (masternodes.findBudgetPayments params nBlockHeight) 0 with
  | none => false
  | some nPaidBudget =>
    nTotalBudget - nPaidBudget ≤ paidTo params.unallocatedBudgetAddress &&
      (nBlockHeight < params.getChainHeight .h9 ||
        getTotalDevFund params nBlockHeight ≤ paidTo params.devFundAddress)

/-- The three functions that know the window go by the same allowance. -/
structure GoesBy (params : CChainParams) (allowance : Int → Int) : Prop where
  value : ∀ (masternodes : MasternodeLocal) (node : NodeLocal)
    (nHeight nExpectedValue nMinted : Int) (ancestors : List CBlockIndex),
    0 < nHeight → isExemptHeight params nHeight = false →
      params.getChainHeight .h9 ≤ nHeight →
        isBlockValueValid params masternodes node nHeight nExpectedValue nMinted ancestors =
          decide (nMinted ≤ nExpectedValue +
            (if isCycleStart params nHeight = true then
              getTotalBudget params nHeight + getTotalDevFund params nHeight
            else 0) + allowance nHeight)
  filled : ∀ (lib : PaymentLib) (masternodes : MasternodeLocal) (nHeight : Int),
    0 < nHeight → isCycleStart params nHeight = true →
      superblockOutputs params lib masternodes nHeight =
        ordinaryOutputs params lib masternodes nHeight ++
          if allowance nHeight = 0 then []
          else [payToAddress lib (allowance nHeight) params.address108M]
  checked : ∀ (lib : PaymentLib) (masternodes : MasternodeLocal) (txNew : CTransaction)
    (nHeight : Int) (ancestors : List CBlockIndex),
    0 < nHeight → params.getChainHeight .h8 ≤ nHeight → isCycleStart params nHeight = true →
      isBudgetTransactionValid params lib masternodes txNew nHeight ancestors =
        (ordinaryPaymentsValid params lib masternodes txNew nHeight &&
          (allowance nHeight == 0 ||
            findPayment lib txNew
              (.script (lib.getScriptForDestination params.address108M)) ==
                allowance nHeight))

section Allowance

theorem extraCoinAmount_ne_zero : extraCoinAmount ≠ 0 := by
  decide

theorem extraCoinAmount_beq_zero : (extraCoinAmount == 0) = false := by
  decide

theorem extraAllowance_of_isCycleStart
    (positive : 0 < nHeight)
    (starts : isCycleStart params nHeight = true) :
    extraAllowance params nHeight =
      if createsExtraCoin params nHeight = true then extraCoinAmount else 0 := by
  unfold extraAllowance
  simp [positive, starts]

/-- Between superblocks nothing is created. -/
theorem extraAllowance_of_not_isCycleStart
    (other : isCycleStart params nHeight = false) :
    extraAllowance params nHeight = 0 := by
  unfold extraAllowance
  simp [other]

theorem isBlockValueValid_extraAllowance
    (masternodes : MasternodeLocal) (node : NodeLocal) (nExpectedValue nMinted : Int)
    (ancestors : List CBlockIndex)
    (positive : 0 < nHeight)
    (ordinary : isExemptHeight params nHeight = false)
    (ninth : params.getChainHeight .h9 ≤ nHeight) :
    isBlockValueValid params masternodes node nHeight nExpectedValue nMinted ancestors =
      decide (nMinted ≤ nExpectedValue +
        (if isCycleStart params nHeight = true then
          getTotalBudget params nHeight + getTotalDevFund params nHeight
        else 0) + extraAllowance params nHeight) := by
  unfold isBlockValueValid
  rw [if_neg (by omega), ordinary, if_neg Bool.false_ne_true, if_pos ninth]
  cases starts : isCycleStart params nHeight with
  | false =>
    rw [extraAllowance_of_not_isCycleStart starts, if_neg Bool.false_ne_true,
      if_neg Bool.false_ne_true, Int.add_zero, Int.add_zero]
  | true =>
    rw [extraAllowance_of_isCycleStart positive starts]
    simp only [if_true, Int.add_assoc]

theorem superblockOutputs_extraAllowance
    (lib : PaymentLib) (masternodes : MasternodeLocal)
    (positive : 0 < nHeight)
    (starts : isCycleStart params nHeight = true) :
    superblockOutputs params lib masternodes nHeight =
      ordinaryOutputs params lib masternodes nHeight ++
        if extraAllowance params nHeight = 0 then []
        else [payToAddress lib (extraAllowance params nHeight) params.address108M] := by
  rw [extraAllowance_of_isCycleStart positive starts]
  unfold superblockOutputs ordinaryOutputs
  generalize fillPayments (getTotalBudget params nHeight)
    (masternodes.findBudgetPayments params nHeight) 0 = filled
  cases createsExtraCoin params nHeight with
  | false => simp
  | true => simp [extraCoinAmount_ne_zero]

theorem isBudgetTransactionValid_extraAllowance
    (lib : PaymentLib) (masternodes : MasternodeLocal) (txNew : CTransaction)
    (ancestors : List CBlockIndex)
    (positive : 0 < nHeight)
    (eighth : params.getChainHeight .h8 ≤ nHeight)
    (starts : isCycleStart params nHeight = true) :
    isBudgetTransactionValid params lib masternodes txNew nHeight ancestors =
      (ordinaryPaymentsValid params lib masternodes txNew nHeight &&
        (extraAllowance params nHeight == 0 ||
          findPayment lib txNew (.script (lib.getScriptForDestination params.address108M)) ==
            extraAllowance params nHeight)) := by
  rw [extraAllowance_of_isCycleStart positive starts]
  unfold isBudgetTransactionValid ordinaryPaymentsValid
  rw [if_neg (by omega), starts, if_neg (by decide)]
  dsimp only
  cases checkBudgetPayments lib txNew (getTotalBudget params nHeight)
      (masternodes.findBudgetPayments params nHeight) 0 with
  | none => rfl
  | some nPaidBudget =>
    cases createsExtraCoin params nHeight with
    | false => simp
    | true => simp [extraCoinAmount_beq_zero, Bool.and_assoc]

end Allowance

/-- The allowance is what the three functions go by. -/
theorem goesBy_extraAllowance (params : CChainParams) :
    GoesBy params (extraAllowance params) where
  value masternodes node _ nExpectedValue nMinted ancestors positive ordinary ninth :=
    isBlockValueValid_extraAllowance masternodes node nExpectedValue nMinted ancestors positive
      ordinary ninth
  filled lib masternodes _ positive starts :=
    superblockOutputs_extraAllowance lib masternodes positive starts
  checked lib masternodes txNew _ ancestors positive eighth starts :=
    isBudgetTransactionValid_extraAllowance lib masternodes txNew ancestors positive eighth starts

/-- The heights at which something is created are multiples of the cycle in the window. -/
theorem extraAllowance_eq
    (opens : first = max 1 (params.getChainHeight .h9))
    (nHeight : Int) :
    extraAllowance params nHeight =
      if nHeight ∈ (Finset.Ioc (first - 1) (params.getChainHeight .h9 +
            24 * getBudgetPaymentCycleBlocks params)).filter
          fun height => getBudgetPaymentCycleBlocks params ∣ height then
        extraCoinAmount
      else 0 := by
  have same : (0 < nHeight ∧ isCycleStart params nHeight = true ∧
      createsExtraCoin params nHeight = true) ↔
        nHeight ∈ (Finset.Ioc (first - 1) (params.getChainHeight .h9 +
          24 * getBudgetPaymentCycleBlocks params)).filter
            fun height => getBudgetPaymentCycleBlocks params ∣ height := by
    rw [Finset.mem_filter, Finset.mem_Ioc, Int.dvd_iff_tmod_eq_zero]
    unfold isCycleStart createsExtraCoin
    rw [beq_iff_eq, Bool.and_eq_true, decide_eq_true_iff, decide_eq_true_iff]
    omega
  unfold extraAllowance
  simp only [same]

/-- In all, 25 superblocks create coins where the ninth height is a superblock, and 24
where it is not. -/
theorem finsum_extraAllowance
    (positive : 0 < getBudgetPaymentCycleBlocks params)
    (start : 0 ≤ params.getChainHeight .h9) :
    (∑ᶠ nHeight : Int, extraAllowance params nHeight) =
      (if params.getChainHeight .h9 ≠ 0 ∧
          getBudgetPaymentCycleBlocks params ∣ params.getChainHeight .h9 then 25 else 24) *
        extraCoinAmount := by
  let first := max 1 (params.getChainHeight .h9)
  let window := (Finset.Ioc (first - 1) (params.getChainHeight .h9 +
    24 * getBudgetPaymentCycleBlocks params)).filter
      fun height => getBudgetPaymentCycleBlocks params ∣ height
  have total : (∑ᶠ nHeight : Int, extraAllowance params nHeight) =
      (window.card : Int) * extraCoinAmount := by
    simp only [extraAllowance_eq (show first = _ from rfl)]
    have support : Function.support (fun nHeight : Int =>
        if nHeight ∈ window then extraCoinAmount else 0) ⊆ (window : Set Int) := by
      intro nHeight created
      by_contra outside
      exact created (if_neg outside)
    rw [finsum_eq_sum_of_support_subset _ support,
      Finset.sum_congr rfl fun nHeight inside => if_pos inside, Finset.sum_const,
      nsmul_eq_mul]
  rw [total, card_multiples positive, Int.add_mul_ediv_right _ _ positive.ne']
  congr 1
  rcases start.eq_or_lt with zero | after
  · have opens : first - 1 = 0 := by omega
    rw [opens, ← zero]
    simp
  · have opens : first = params.getChainHeight .h9 := by omega
    rw [opens, ediv_pred positive]
    split_ifs <;> omega

/-- For every length of the cycle and every ninth height, the allowance that the three
functions go by comes to 24 instalments, 108 million coins in all, exactly when the ninth
height is no superblock. -/
theorem extraCoins_total_iff
    (params : CChainParams)
    (positive : 0 < getBudgetPaymentCycleBlocks params)
    (start : 0 ≤ params.getChainHeight .h9) :
    GoesBy params (extraAllowance params) ∧
      ((∑ᶠ nHeight : Int, extraAllowance params nHeight = 108000000 * coin) ↔
        params.getChainHeight .h9 = 0 ∨
          ¬getBudgetPaymentCycleBlocks params ∣ params.getChainHeight .h9) := by
  have instalments : 24 * extraCoinAmount = 108000000 * coin := by decide
  refine ⟨goesBy_extraAllowance params, ?_⟩
  rw [finsum_extraAllowance positive start, ← instalments]
  have positiveAmount : 0 < extraCoinAmount := by decide
  split_ifs with superblock
  · constructor
    · intro equal
      omega
    · rintro (zero | other)
      · exact absurd zero superblock.1
      · exact absurd superblock.2 other
  · simp only [true_iff]
    by_contra both
    push Not at both
    exact superblock both

/-- The main network with its ninth height one block later. -/
def laterMain : CChainParams :=
  { CChainParams.main with
    getChainHeight := fun height =>
      if height = .h9 then 1296001 else CChainParams.main.getChainHeight height }

theorem extraCoins_total_iff_laterMain :
    ∑ᶠ nHeight : Int, extraAllowance laterMain nHeight = 108000000 * coin :=
  (extraCoins_total_iff laterMain (by decide) (by decide)).2.mpr (Or.inr (by decide))

/-- On the main network the ninth height is the thirtieth superblock: 112.5 million coins
are created. -/
theorem extraCoins_main :
    GoesBy .main (extraAllowance .main) ∧
      ∑ᶠ nHeight : Int, extraAllowance .main nHeight = 112500000 * coin ∧
        ∑ᶠ nHeight : Int, extraAllowance .main nHeight ≠ 108000000 * coin := by
  have total : ∑ᶠ nHeight : Int, extraAllowance .main nHeight = 112500000 * coin := by
    rw [finsum_extraAllowance (by decide) (by decide)]
    decide
  refine ⟨goesBy_extraAllowance .main, total, ?_⟩
  rw [total]
  decide

end ColossusCoin
