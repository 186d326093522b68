import ColossusCoin.Library.Aggregates
import ColossusCoin.Masternode.DuePayments
import Mathlib.Data.List.Dedup

/-!
# Superblocks that pay in full

A superblock is checked payment by payment, each against all that is paid to its script.  An
accepted one pays each script the largest amount due to it, and the sum of them only if the
amounts do not pile up on one script.
-/

namespace ColossusCoin

open Aggregates

/-- What is due in a superblock for given budget payments: these, what they leave of the
total budget, and the share of the development fund. -/
def superblockDues (params : CChainParams) (lib : PaymentLib) (nHeight : Int)
    (budgets : List (CScript × Int)) (nUnallocated : Int) : List (CScript × Int) :=
  budgets ++
    (lib.getScriptForDestination params.unallocatedBudgetAddress, nUnallocated) ::
      if params.getChainHeight .h9 ≤ nHeight then
        [(lib.getScriptForDestination params.devFundAddress, getTotalDevFund params nHeight)]
      else []

/-- The approved payments that fit into the total budget. -/
def budgetsInFull (params : CChainParams) (masternodes : MasternodeLocal) (nHeight : Int) :
    List (CScript × Int) :=
  fittingPayments (getTotalBudget params nHeight)
    (masternodes.findBudgetPayments params nHeight) 0

/-- What the payments that fit leave of the total budget. -/
def unallocatedRemainder (params : CChainParams) (masternodes : MasternodeLocal)
    (nHeight : Int) : Int :=
  getTotalBudget params nHeight - ((budgetsInFull params masternodes nHeight).map Prod.snd).sum

/-- What a superblock has to pay, apart from the coins that are created. -/
def requiredDues (params : CChainParams) (lib : PaymentLib) (masternodes : MasternodeLocal)
    (nHeight : Int) : List (CScript × Int) :=
  superblockDues params lib nHeight (budgetsInFull params masternodes nHeight)
    (unallocatedRemainder params masternodes nHeight)

/-- The same with all approved payments, whether or not they fit. -/
def approvedDues (params : CChainParams) (lib : PaymentLib) (masternodes : MasternodeLocal)
    (nHeight : Int) : List (CScript × Int) :=
  superblockDues params lib nHeight (masternodes.findBudgetPayments params nHeight)
    (unallocatedRemainder params masternodes nHeight)

/-- The script to which the created coins go. -/
def extraCoinScript (params : CChainParams) (lib : PaymentLib) : CScript :=
  lib.getScriptForDestination params.address108M

/-- The least that an accepted superblock pays to a script. -/
def leastPaid (params : CChainParams) (lib : PaymentLib) (masternodes : MasternodeLocal)
    (nHeight : Int) (script : CScript) : Int :=
  if createsExtraCoin params nHeight = true ∧ script = extraCoinScript params lib then
    extraCoinAmount
  else largest (amountsAt (requiredDues params lib masternodes nHeight) script)

/-- A superblock can be accepted: the coins created do not fall short of an amount that is
due to their script. -/
def Payable (params : CChainParams) (lib : PaymentLib) (masternodes : MasternodeLocal)
    (nHeight : Int) : Prop :=
  createsExtraCoin params nHeight = true →
    largest (amountsAt (requiredDues params lib masternodes nHeight)
      (extraCoinScript params lib)) ≤ extraCoinAmount

/-- What is paid to scripts, as entries under them. -/
def outputEntries (vout : List CTxOut) : List (CScript × Int) :=
  vout.map fun out => (out.scriptPubKey, out.nValue)

theorem findPayment_eq_sumAt (lib : PaymentLib) (tx : CTransaction) (script : CScript) :
    findPayment lib tx (.script script) = sumAt (outputEntries tx.vout) script := by
  unfold findPayment
  induction tx.vout with
  | nil => rfl
  | cons out rest ih =>
    have unfolded : outputEntries (out :: rest) =
        (out.scriptPubKey, out.nValue) :: outputEntries rest := rfl
    rw [unfolded, sumAt_cons, ← ih]
    by_cases here : out.scriptPubKey = script
    · simp [Payee.paidBy, here]
    · simp [Payee.paidBy, here]

/-- The loop over the budget payments passes exactly if each that fits is paid. -/
theorem checkBudgetPayments_eq_some_iff
    {payments : List (CScript × Int)} :
    checkBudgetPayments lib tx nTotalBudget payments nPaidBudget = some nPaid ↔
      nPaid = nPaidBudget + ((fittingPayments nTotalBudget payments nPaidBudget).map Prod.snd).sum ∧
        ∀ payment ∈ fittingPayments nTotalBudget payments nPaidBudget,
          payment.2 ≤ findPayment lib tx (.script payment.1) := by
  induction payments generalizing nPaidBudget with
  | nil => simp [checkBudgetPayments, fittingPayments, eq_comm]
  | cons payment rest ih =>
    obtain ⟨payee, nAmount⟩ := payment
    rw [checkBudgetPayments, fittingPayments]
    split_ifs with fits missing
    · have unpaid : ¬ nAmount ≤ findPayment lib tx (.script payee) := Int.not_le.mpr missing
      simp [unpaid]
    · have paid : nAmount ≤ findPayment lib tx (.script payee) := Int.not_lt.mp missing
      rw [ih, List.forall_mem_cons, List.map_cons, List.sum_cons, and_iff_right paid, Int.add_assoc]
    · exact ih

/-- A superblock is accepted exactly if each amount is covered by what its script receives
and the coins created are exact. -/
theorem isBudgetTransactionValid_iff
    (eighth : params.getChainHeight .h8 ≤ nHeight)
    (starts : isCycleStart params nHeight = true)
    (lib : PaymentLib) (masternodes : MasternodeLocal) (tx : CTransaction)
    (ancestors : List CBlockIndex) :
    isBudgetTransactionValid params lib masternodes tx nHeight ancestors = true ↔
      (∀ due ∈ requiredDues params lib masternodes nHeight,
        due.2 ≤ findPayment lib tx (.script due.1)) ∧
      (createsExtraCoin params nHeight = true →
        findPayment lib tx (.script (extraCoinScript params lib)) = extraCoinAmount) := by
  have late : ¬ nHeight < params.getChainHeight .h8 := Int.not_lt.mpr eighth
  have devFund : (∀ due ∈ (if params.getChainHeight .h9 ≤ nHeight then
        [(lib.getScriptForDestination params.devFundAddress, getTotalDevFund params nHeight)]
      else []), due.2 ≤ findPayment lib tx (.script due.1)) ↔
      (nHeight < params.getChainHeight .h9 ∨ getTotalDevFund params nHeight ≤
        findPayment lib tx (.script (lib.getScriptForDestination params.devFundAddress))) := by
    split_ifs with ninth
    · simp [Int.not_lt.mpr ninth]
    · simp [Int.not_le.mp ninth]
  unfold isBudgetTransactionValid
  rw [if_neg late, if_neg (by simp [starts])]
  dsimp only
  unfold requiredDues superblockDues
  rw [List.forall_mem_append, List.forall_mem_cons, devFund]
  cases checked : checkBudgetPayments lib tx (getTotalBudget params nHeight)
      (masternodes.findBudgetPayments params nHeight) 0 with
  | none =>
    have unpaid : ¬ ∀ payment ∈ budgetsInFull params masternodes nHeight,
        payment.2 ≤ findPayment lib tx (.script payment.1) := by
      intro paid
      have passes := checkBudgetPayments_eq_some_iff.mpr ⟨rfl, paid⟩
      rw [checked] at passes
      cases passes
    simp only [unpaid, false_and, Bool.false_eq_true]
  | some nPaid =>
    obtain ⟨sum, paid⟩ := checkBudgetPayments_eq_some_iff.mp checked
    rw [zero_add] at sum
    have remainder : getTotalBudget params nHeight - nPaid =
        unallocatedRemainder params masternodes nHeight := by
      rw [unallocatedRemainder, budgetsInFull, sum]
    have created : (!createsExtraCoin params nHeight ||
        findPayment lib tx (.script (extraCoinScript params lib)) == extraCoinAmount) = true ↔
        (createsExtraCoin params nHeight = true →
          findPayment lib tx (.script (extraCoinScript params lib)) = extraCoinAmount) := by
      cases createsExtraCoin params nHeight with
      | false => simp
      | true => simp
    unfold extraCoinScript at created ⊢
    rw [Bool.and_eq_true, Bool.and_eq_true, created, remainder, Bool.or_eq_true,
      decide_eq_true_eq, decide_eq_true_eq, decide_eq_true_eq]
    have budgets : ∀ payment ∈ budgetsInFull params masternodes nHeight,
        payment.2 ≤ findPayment lib tx (.script payment.1) := paid
    rw [and_iff_right budgets]

/-- No output has a negative value, as `CheckTransaction` makes sure. -/
def NoNegativeOutput (tx : CTransaction) : Prop :=
  ∀ txout ∈ tx.vout, 0 ≤ txout.nValue

theorem findPayment_nonneg
    (nonneg : NoNegativeOutput tx)
    (lib : PaymentLib) (payee : Payee) :
    0 ≤ findPayment lib tx payee := by
  apply List.sum_nonneg
  intro value member
  obtain ⟨txout, paid, rfl⟩ := List.mem_map.mp member
  exact nonneg txout (List.mem_of_mem_filter paid)

theorem extraCoinAmount_nonneg : 0 ≤ extraCoinAmount := by decide

theorem leastPaid_nonneg
    (params : CChainParams) (lib : PaymentLib) (masternodes : MasternodeLocal)
    (nHeight : Int) (script : CScript) :
    0 ≤ leastPaid params lib masternodes nHeight script := by
  unfold leastPaid
  split_ifs
  · exact extraCoinAmount_nonneg
  · exact largest_nonneg _

section Superblock

/-- An accepted superblock pays each script at least that much. -/
theorem leastPaid_le_findPayment
    (eighth : params.getChainHeight .h8 ≤ nHeight)
    (starts : isCycleStart params nHeight = true)
    (nonneg : NoNegativeOutput tx)
    (valid : isBudgetTransactionValid params lib masternodes tx nHeight ancestors = true)
    (script : CScript) :
    leastPaid params lib masternodes nHeight script ≤ findPayment lib tx (.script script) := by
  obtain ⟨covered, created⟩ :=
    (isBudgetTransactionValid_iff eighth starts lib masternodes tx ancestors).mp valid
  unfold leastPaid
  split_ifs with extra
  · obtain ⟨creates, rfl⟩ := extra
    exact le_of_eq (created creates).symm
  · rw [largest_le_iff (findPayment_nonneg nonneg lib _)]
    intro amount member
    exact covered (script, amount) (mem_amountsAt.mp member)

theorem payable_of_valid
    (eighth : params.getChainHeight .h8 ≤ nHeight)
    (starts : isCycleStart params nHeight = true)
    (valid : isBudgetTransactionValid params lib masternodes tx nHeight ancestors = true) :
    Payable params lib masternodes nHeight := by
  obtain ⟨covered, created⟩ :=
    (isBudgetTransactionValid_iff eighth starts lib masternodes tx ancestors).mp valid
  intro creates
  rw [largest_le_iff extraCoinAmount_nonneg]
  intro amount member
  rw [← created creates]
  exact covered (extraCoinScript params lib, amount) (mem_amountsAt.mp member)

variable (params lib masternodes nHeight) in
/-- A transaction that pays to each script the least that is accepted. -/
def leastSuperblock : CTransaction where
  hash := 0
  nVersion := 1
  vin := []
  vout :=
    (extraCoinScript params lib ::
        (requiredDues params lib masternodes nHeight).map Prod.fst).dedup.map fun script =>
      { nValue := leastPaid params lib masternodes nHeight script, scriptPubKey := script }
  nLockTime := 0

theorem noNegativeOutput_leastSuperblock :
    NoNegativeOutput (leastSuperblock params lib masternodes nHeight) := by
  intro txout member
  obtain ⟨script, -, rfl⟩ := List.mem_map.mp member
  exact leastPaid_nonneg params lib masternodes nHeight script

theorem findPayment_leastSuperblock (script : CScript) :
    findPayment lib (leastSuperblock params lib masternodes nHeight) (.script script) =
      if script = extraCoinScript params lib ∨
          script ∈ (requiredDues params lib masternodes nHeight).map Prod.fst then
        leastPaid params lib masternodes nHeight script
      else 0 := by
  have entries : outputEntries (leastSuperblock params lib masternodes nHeight).vout =
      tabulate (extraCoinScript params lib ::
          (requiredDues params lib masternodes nHeight).map Prod.fst).dedup
        (leastPaid params lib masternodes nHeight) := by
    simp [outputEntries, leastSuperblock, tabulate, Function.comp_def]
  rw [findPayment_eq_sumAt, entries, sumAt_tabulate (List.nodup_dedup _)]
  simp only [List.mem_dedup, List.mem_cons]

theorem findPayment_leastSuperblock_le (script : CScript) :
    findPayment lib (leastSuperblock params lib masternodes nHeight) (.script script) ≤
      leastPaid params lib masternodes nHeight script := by
  rw [findPayment_leastSuperblock]
  split_ifs
  · exact le_refl _
  · exact leastPaid_nonneg params lib masternodes nHeight script

theorem valid_leastSuperblock
    (eighth : params.getChainHeight .h8 ≤ nHeight)
    (starts : isCycleStart params nHeight = true)
    (payable : Payable params lib masternodes nHeight) :
    isBudgetTransactionValid params lib masternodes
      (leastSuperblock params lib masternodes nHeight) nHeight ancestors = true := by
  rw [isBudgetTransactionValid_iff eighth starts]
  constructor
  · intro due member
    have listed : due.1 ∈ (requiredDues params lib masternodes nHeight).map Prod.fst :=
      List.mem_map_of_mem member
    have amount : due.2 ∈ amountsAt (requiredDues params lib masternodes nHeight) due.1 :=
      mem_amountsAt.mpr member
    rw [findPayment_leastSuperblock, if_pos (.inr listed), leastPaid]
    split_ifs with extra
    · obtain ⟨creates, same⟩ := extra
      rw [same] at amount
      exact le_trans (le_largest amount) (payable creates)
    · exact le_largest amount
  · intro creates
    rw [findPayment_leastSuperblock, if_pos (.inl rfl), leastPaid, if_pos ⟨creates, rfl⟩]

variable (params lib masternodes nHeight ancestors) in
/-- Every accepted superblock pays to each script the sum of what is due to it. -/
def PaysInFull (dues : List (CScript × Int)) : Prop :=
  ∀ tx, NoNegativeOutput tx →
    isBudgetTransactionValid params lib masternodes tx nHeight ancestors = true →
      ∀ script, sumAt dues script ≤ findPayment lib tx (.script script)

theorem paysInFull_iff
    (eighth : params.getChainHeight .h8 ≤ nHeight)
    (starts : isCycleStart params nHeight = true)
    (dues : List (CScript × Int)) :
    PaysInFull params lib masternodes nHeight ancestors dues ↔
      (Payable params lib masternodes nHeight →
        ∀ script, sumAt dues script ≤ leastPaid params lib masternodes nHeight script) := by
  constructor
  · intro inFull payable script
    have paid := inFull _ noNegativeOutput_leastSuperblock
      (valid_leastSuperblock eighth starts payable) script
    exact le_trans paid (findPayment_leastSuperblock_le script)
  · intro covered tx nonneg valid script
    have payable := payable_of_valid eighth starts valid
    exact le_trans (covered payable script)
      (leastPaid_le_findPayment eighth starts nonneg valid script)

/-- Where no coins are created for a script, amounts that are not negative are covered exactly
if no two of them are positive. -/
theorem sumAt_le_leastPaid_iff
    (nonneg : ∀ due ∈ requiredDues params lib masternodes nHeight, 0 ≤ due.2)
    (plain : ¬ (createsExtraCoin params nHeight = true ∧
      script = extraCoinScript params lib)) :
    sumAt (requiredDues params lib masternodes nHeight) script ≤
        leastPaid params lib masternodes nHeight script ↔
      (amountsAt (requiredDues params lib masternodes nHeight) script).Pairwise
        fun first second => first = 0 ∨ second = 0 := by
  rw [leastPaid, if_neg plain]
  apply sum_le_largest_iff
  intro amount member
  exact nonneg _ (mem_amountsAt.mp member)

end Superblock

/-- At the height of every superblock since the eighth one, all accepted transactions pay each
script the sum of what is due to it exactly if this sum is no more than the largest amount due
to the script, or than the coins created for it, unless no transaction is accepted at all.
Approved payments that do not fit into the total budget are left out of what is due, or not. -/
theorem superblock_paysInFull_iff
    {params : CChainParams} {nHeight : Int}
    (eighth : params.getChainHeight .h8 ≤ nHeight)
    (starts : isCycleStart params nHeight = true)
    (lib : PaymentLib) (masternodes : MasternodeLocal) (ancestors : List CBlockIndex) :
    (PaysInFull params lib masternodes nHeight ancestors
        (requiredDues params lib masternodes nHeight) ↔
      (Payable params lib masternodes nHeight →
        ∀ script, sumAt (requiredDues params lib masternodes nHeight) script ≤
          leastPaid params lib masternodes nHeight script)) ∧
    (PaysInFull params lib masternodes nHeight ancestors
        (approvedDues params lib masternodes nHeight) ↔
      (Payable params lib masternodes nHeight →
        ∀ script, sumAt (approvedDues params lib masternodes nHeight) script ≤
          leastPaid params lib masternodes nHeight script)) :=
  ⟨paysInFull_iff eighth starts _, paysInFull_iff eighth starts _⟩

/-- Scripts that spell out their address. -/
def plainPaymentLib : PaymentLib where
  toAddress script := String.ofList (script.map fun byte => Char.ofNat byte.toNat)
  getScriptForDestination strAddress := strAddress.toList.map fun c => UInt8.ofNat c.toNat
  seeSaw _ _ _ := 0

/-- A node that knows of twenty masternodes and of some finalized budgets. -/
def budgetNode (budgets : List CFinalizedBudget) : MasternodeLocal where
  isSynced := true
  countEnabled := 20
  stableSize := 20
  mapFinalizedBudgets := budgets
  mapMasternodeBlocks _ := none
  tipMoneySupply := none

/-- Without finalized budgets, the first superblock pays all of the budget to one script. -/
theorem superblock_paysInFull_iff_unallocated :
    PaysInFull .main plainPaymentLib (budgetNode []) 1252800 []
      (requiredDues .main plainPaymentLib (budgetNode []) 1252800) := by
  apply (superblock_paysInFull_iff (by decide) (by decide) _ _ _).1.mpr
  intro _ script
  have single : requiredDues .main plainPaymentLib (budgetNode []) 1252800 =
      [(plainPaymentLib.getScriptForDestination CChainParams.main.unallocatedBudgetAddress,
        getTotalBudget .main 1252800)] := by
    decide
  have nonneg : (0 : Int) ≤ getTotalBudget .main 1252800 := by decide
  have plain : ¬ (createsExtraCoin CChainParams.main 1252800 = true ∧
      script = extraCoinScript .main plainPaymentLib) := by
    rintro ⟨creates, -⟩
    exact absurd creates (by decide)
  rw [sumAt_le_leastPaid_iff _ plain]
  · rw [single]
    by_cases here : plainPaymentLib.getScriptForDestination
        CChainParams.main.unallocatedBudgetAddress = script
    · simp [amountsAt, here]
    · simp [amountsAt, here]
  · rw [single]
    intro due member
    rw [List.mem_singleton] at member
    rw [member]
    exact nonneg

/-- A finalized budget with two payments of 1000 coins to one script. -/
def twicePaidBudget : CFinalizedBudget where
  nBlockStart := 1252800
  vecBudgetPayments := [([1], 1000 * coin), ([1], 1000 * coin)]
  mapVotesSize := 10

/-- The first superblock, with one payment of 1000 coins and the remainder. -/
def paidOnce : CTransaction where
  hash := 0
  nVersion := 1
  vin := []
  vout :=
    [{ nValue := 1000 * coin, scriptPubKey := [1] },
      { nValue := getTotalBudget .main 1252800 - 2000 * coin
        scriptPubKey :=
          plainPaymentLib.getScriptForDestination CChainParams.main.unallocatedBudgetAddress }]
  nLockTime := 0

/-- A superblock that pays one of two proposals of the same payee is accepted. -/
theorem superblock_underpaid :
    isBudgetTransactionValid .main plainPaymentLib (budgetNode [twicePaidBudget]) paidOnce
        1252800 [] = true ∧
      NoNegativeOutput paidOnce ∧
      findPayment plainPaymentLib paidOnce (.script [1]) <
        sumAt (requiredDues .main plainPaymentLib (budgetNode [twicePaidBudget]) 1252800) [1] := by
  refine ⟨by decide, ?_, by decide⟩
  unfold NoNegativeOutput
  decide

end ColossusCoin
