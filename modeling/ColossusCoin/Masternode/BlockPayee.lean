import ColossusCoin.Masternode.BudgetAgreement
import ColossusCoin.Masternode.PaymentQueue
import ColossusCoin.Masternode.SeeSaw

/-!
# Producer and validator of an ordinary block

`FillBlockPayee` takes the payments of the masternode and of the development fund out of the
stake and appends them.  Nothing is lost and no output becomes negative.  The validator asks
for the masternode's payment under the votes of the node, in the coinstake only above the last
height of proof of work, and with a count of masternodes that allows for a drift: without any
masternode the producer then pays nothing where the validator asks for a payment.
-/

namespace ColossusCoin

/-- Why nothing is subtracted from the stake reward. -/
inductive StakeRewardError where
  | invalidStakeOut (nStakeOut : Nat)
  | invalidVoutSize (nSize nStakeOut : Nat)
  | invalidAmount (nAmount : Int)
  | exceedsValueOut (nAmount nValueOut : Int)
  deriving DecidableEq, Repr

/-- An output with an amount taken from its value. -/
def CTxOut.less (nAmount : Int) (out : CTxOut) : CTxOut :=
  { out with nValue := out.nValue - nAmount }

/-- `SubtractFromStakeReward`, `none` where `GetValueOut` throws. -/
def subtractFromStakeReward (tx : CTransaction) (nStakeOut : Nat) (nAmount : Int) :
    Option (Except StakeRewardError CTransaction) :=
  if nStakeOut < 1 then some (.error (.invalidStakeOut nStakeOut))
  else if tx.vout.length < 1 + nStakeOut then
    some (.error (.invalidVoutSize tx.vout.length nStakeOut))
  else if nAmount ≤ 0 then some (.error (.invalidAmount nAmount))
  else
    match tx.getValueOut with
    | none => none
    | some nValueOut =>
      if nValueOut < nAmount then some (.error (.exceedsValueOut nAmount nValueOut))
      else if 1 < nStakeOut then
        let nAmount1 := nAmount.tdiv 2
        let nAmount2 := nAmount - nAmount1
        some (.ok
          { tx with
            vout := (tx.vout.modify 1 (CTxOut.less nAmount1)).modify 2
              (CTxOut.less nAmount2) })
      else some (.ok { tx with vout := tx.vout.modify 1 (CTxOut.less nAmount) })

/-- A payment is taken out of the stake and appended, or left out where that fails: both
payments out of the stake are made so. -/
def payFromStakeReward (tx : CTransaction) (nStakeOut : Nat) (payment : CTxOut) :
    Option CTransaction :=
  match subtractFromStakeReward tx nStakeOut payment.nValue with
  | none => none
  | some (.error _) => some tx
  | some (.ok reduced) => some { reduced with vout := reduced.vout ++ [payment] }

/-- `nStakeOut`: the outputs that the stake is in. -/
def stakeOutCount (tx : CTransaction) : Nat :=
  if 2 < tx.vout.length then 2 else 1

def CMasternodeMan.getCurrentMasterNode (env : RankEnv) (man : CMasternodeMan)
    (minProtocol : Int) : Option CMasternode :=
  (man.vMasternodes.foldl (fun best mn =>
    if !env.isScored minProtocol true mn then best
    else if best.2 < env.compactScore mn.vin then (some mn, env.compactScore mn.vin)
    else best) (none, 0)).1

namespace MasternodeLocal

/-- The votes for the payees of a block. -/
def blockPayees (nBlockHeight : Int) (vecPayments : List (CScript × Nat)) :
    CMasternodeBlockPayees where
  nBlockHeight := nBlockHeight
  vecPayments := vecPayments.map fun payee => ⟨payee.1, payee.2⟩

def getBlockPayee (masternodes : MasternodeLocal) (nBlockHeight : Int) : Option CScript :=
  match masternodes.mapMasternodeBlocks nBlockHeight with
  | none => none
  | some vecPayments => (blockPayees nBlockHeight vecPayments).getPayee

end MasternodeLocal

/-- What a node goes by when it fills in the payments of a block. -/
structure FillEnv where
  params : CChainParams
  lib : PaymentLib
  masternodes : MasternodeLocal
  /-- `mnodeman`, with what ranks its entries at height zero. -/
  man : CMasternodeMan
  queue : QueueEnv
  /-- `IsSporkActive(SPORK_13_ENABLE_SUPERBLOCKS)`. -/
  superblocks : Bool

namespace FillEnv

variable (env : FillEnv)

/-- The payee of a block: the one with the most votes, or else the current masternode. -/
def payee (nTargetHeight : Int) : Option CScript :=
  (env.masternodes.getBlockPayee nTargetHeight).or
    ((env.man.getCurrentMasterNode env.queue.toRankEnv 0).map env.queue.payeeOf)

/-- The payment of the masternode, by the node's count. -/
def nMasternodePayment (pindexPrev : CBlockIndex) : Int :=
  getMasternodePayment env.params env.lib.seeSaw (pindexPrev.nHeight + 1)
    env.masternodes.stableSize pindexPrev.nMoneySupply

/-- The outputs of a coinbase that pays a masternode: `vout.resize(2)` and what follows. -/
def coinBaseOutputs (nMasternodePayment : Int) (payee : CScript) (vout : List CTxOut) :
    List CTxOut :=
  (((vout ++ [CTxOut.null, CTxOut.null]).take 2).modify 1 fun out =>
    { out with nValue := nMasternodePayment, scriptPubKey := payee }).modify 0
      (CTxOut.less nMasternodePayment)

/-- `CMasternodePayments::FillBlockPayee`, `none` where it throws. -/
def fillMasternodePayee (txNew : CTransaction) (fProofOfStake : Bool)
    (pindexPrev : CBlockIndex) : Option CTransaction :=
  match env.payee (pindexPrev.nHeight + 1) with
  | none => some txNew
  | some payee =>
    let nMasternodePayment := env.nMasternodePayment pindexPrev
    if fProofOfStake then
      payFromStakeReward txNew (stakeOutCount txNew)
        { nValue := nMasternodePayment, scriptPubKey := payee }
    else
      some { txNew with vout := coinBaseOutputs nMasternodePayment payee txNew.vout }

/-- The payment for the budget or, outside budget blocks, that of the masternode. -/
def fillPayee (txNew : CTransaction) (fProofOfStake : Bool) (pindexPrev : CBlockIndex)
    (ancestors : List CBlockIndex) : Option CTransaction :=
  if isBudgetPaymentBlock env.params env.masternodes env.superblocks (pindexPrev.nHeight + 1) then
    some (fillBudgetPayee env.params env.lib env.masternodes env.superblocks txNew fProofOfStake
      ancestors)
  else env.fillMasternodePayee txNew fProofOfStake pindexPrev

/-- The payment of the development fund. -/
def fillDevFund (txNew : CTransaction) (nStakeOut : Nat) (nTargetHeight : Int) :
    Option CTransaction :=
  let nDevfundPayment := getBlockValueDevFund env.params nTargetHeight
  if nTargetHeight < env.params.getChainHeight .h8 ∧ 0 < nDevfundPayment then
    payFromStakeReward txNew nStakeOut
      (payToAddress env.lib nDevfundPayment env.params.devFundAddress)
  else some txNew

/-- The payment of the fees. -/
def fillFees (nFees : Int) (txNew : CTransaction) : CTransaction :=
  if 100 * coin ≤ nFees then
    { txNew with vout := txNew.vout ++ [payToAddress env.lib nFees env.params.txFeeAddress] }
  else txNew

/-- `FillBlockPayee`, given the ancestors from the parent on; `none` where it throws. -/
def fillBlockPayee (txNew : CTransaction) (nFees : Int) (fProofOfStake : Bool)
    (ancestors : List CBlockIndex) : Option CTransaction :=
  match ancestors with
  | [] => some txNew
  | pindexPrev :: _ => do
      let nStakeOut := stakeOutCount txNew
      let filled ← env.fillPayee txNew fProofOfStake pindexPrev ancestors
      let funded ← env.fillDevFund filled nStakeOut (pindexPrev.nHeight + 1)
      return env.fillFees nFees funded

end FillEnv

section OnePayment

/-- Outputs that are not negative and whose sum is an amount are summed up. -/
theorem getValueOut_of_bounded
    (nonneg : NoNegativeOutput tx)
    (bounded : tx.valueOutSum ≤ int64Max) :
    tx.getValueOut = some tx.valueOutSum := by
  have loop : ∀ (outs : List CTxOut) (start : Int), (∀ out ∈ outs, 0 ≤ out.nValue) →
      start + outputSum outs ≤ int64Max →
        outs.foldlM (fun nValueOut txout =>
          if txout.nValue < 0 ∨ int64Max < nValueOut + txout.nValue then none
          else some (nValueOut + txout.nValue)) start = some (start + outputSum outs) := by
    intro outs
    induction outs with
    | nil =>
      intro start _ _
      simp
    | cons out rest ih =>
      intro start outsNonneg sum
      rw [List.forall_mem_cons] at outsNonneg
      rw [outputSum_cons] at sum ⊢
      have restNonneg : 0 ≤ outputSum rest := by
        apply List.sum_nonneg
        intro value member
        obtain ⟨txout, inRest, rfl⟩ := List.mem_map.mp member
        exact outsNonneg.2 txout inRest
      rw [List.foldlM_cons, if_neg (by have := outsNonneg.1; omega), Option.bind_eq_bind,
        Option.bind_some, ih (start + out.nValue) outsNonneg.2 (by omega),
        Int.add_assoc]
  have total := loop tx.vout 0 nonneg (by rw [Int.zero_add]; exact bounded)
  rw [Int.zero_add] at total
  exact total

/-- The outputs of a coinstake with a part of the stake taken away: a part from the first and
a part from the second output, or both from the only one. -/
def reducedStake (nStakeSplitThreshold nSplitSize nCredit : Int) (scriptPubKeyOut : CScript)
    (nFirst nSecond : Int) : List CTxOut :=
  { nValue := 0, scriptPubKey := [] } ::
    if nStakeSplitThreshold * coin < nSplitSize.tdiv 2 then
      [{ nValue := nCredit.tdiv 2 - nFirst, scriptPubKey := scriptPubKeyOut },
        { nValue := nCredit - nCredit.tdiv 2 - nSecond, scriptPubKey := scriptPubKeyOut }]
    else [{ nValue := nCredit - (nFirst + nSecond), scriptPubKey := scriptPubKeyOut }]

theorem reducedStake_zero :
    reducedStake nStakeSplitThreshold nSplitSize nCredit scriptPubKeyOut 0 0 =
      coinStakeOutputs nStakeSplitThreshold nSplitSize nCredit scriptPubKeyOut := by
  simp [reducedStake, coinStakeOutputs]

/-- The number of outputs that the stake is in. -/
def stakeParts (nStakeSplitThreshold nSplitSize : Int) : Nat :=
  if nStakeSplitThreshold * coin < nSplitSize.tdiv 2 then 2 else 1

theorem length_reducedStake :
    (reducedStake nStakeSplitThreshold nSplitSize nCredit scriptPubKeyOut nFirst
      nSecond).length = 1 + stakeParts nStakeSplitThreshold nSplitSize := by
  unfold reducedStake stakeParts
  split_ifs <;> rfl

theorem outputSum_reducedStake :
    outputSum (reducedStake nStakeSplitThreshold nSplitSize nCredit scriptPubKeyOut nFirst
      nSecond) = nCredit - (nFirst + nSecond) := by
  unfold reducedStake
  split_ifs
  · simp only [outputSum_cons, outputSum_nil]
    omega
  · simp only [outputSum_cons, outputSum_nil]
    omega

theorem payFromStakeReward_reducedStake
    (outputs : tx.vout =
      reducedStake nStakeSplitThreshold nSplitSize nCredit scriptPubKeyOut nFirst nSecond ++ tail)
    (nonneg : NoNegativeOutput tx)
    (bounded : tx.valueOutSum ≤ int64Max)
    (positive : 0 < payment.nValue)
    (enough : payment.nValue ≤ tx.valueOutSum) :
    payFromStakeReward tx (stakeParts nStakeSplitThreshold nSplitSize) payment =
      some { tx with
        vout :=
          reducedStake nStakeSplitThreshold nSplitSize nCredit scriptPubKeyOut
            (nFirst + payment.nValue.tdiv 2)
            (nSecond + (payment.nValue - payment.nValue.tdiv 2)) ++ (tail ++ [payment]) } := by
  have value := getValueOut_of_bounded nonneg bounded
  have length : tx.vout.length = 1 + stakeParts nStakeSplitThreshold nSplitSize + tail.length := by
    rw [outputs, List.length_append, length_reducedStake]
  unfold payFromStakeReward subtractFromStakeReward
  rw [value]
  dsimp only
  have parts : 1 ≤ stakeParts nStakeSplitThreshold nSplitSize := by
    unfold stakeParts
    split_ifs <;> omega
  rw [if_neg (by omega), if_neg (by omega), if_neg (by omega), if_neg (by omega)]
  unfold stakeParts reducedStake at *
  by_cases split : nStakeSplitThreshold * coin < nSplitSize.tdiv 2
  · simp only [split, if_true] at outputs ⊢
    rw [outputs]
    simp [CTxOut.less, Int.sub_sub]
    omega
  · simp only [split, if_false] at outputs ⊢
    rw [outputs]
    simp [CTxOut.less]
    omega

/-- Nothing is taken for a payment of nothing. -/
theorem payFromStakeReward_of_nonpos
    (nonpos : payment.nValue ≤ 0)
    (tx : CTransaction) (nStakeOut : Nat) :
    payFromStakeReward tx nStakeOut payment = some tx := by
  unfold payFromStakeReward subtractFromStakeReward
  split_ifs <;> rfl

end OnePayment

namespace FillEnv

section Payments

variable (env : FillEnv) (pindexPrev : CBlockIndex)

/-- What the masternode gets: nothing where there is none to pay. -/
def paidToMasternode : Int :=
  (env.payee (pindexPrev.nHeight + 1)).elim 0 fun _ => env.nMasternodePayment pindexPrev

/-- The output of the masternode. -/
def masternodeOutputs : List CTxOut :=
  match env.payee (pindexPrev.nHeight + 1) with
  | none => []
  | some payee =>
    if 0 < env.nMasternodePayment pindexPrev then
      [{ nValue := env.nMasternodePayment pindexPrev, scriptPubKey := payee }]
    else []

/-- The output of the development fund. -/
def devFundOutputs : List CTxOut :=
  if 0 < devFundPayment env.params (pindexPrev.nHeight + 1) then
    [payToAddress env.lib (devFundPayment env.params (pindexPrev.nHeight + 1))
      env.params.devFundAddress]
  else []

/-- The output of the fees. -/
def feeOutputs (nFees : Int) : List CTxOut :=
  if 100 * coin ≤ nFees then [payToAddress env.lib nFees env.params.txFeeAddress] else []

/-- The outputs that are appended. -/
def payments (nFees : Int) : List CTxOut :=
  env.masternodeOutputs pindexPrev ++ env.devFundOutputs pindexPrev ++ env.feeOutputs nFees

end Payments

section Fill

variable {env : FillEnv} {pindexPrev : CBlockIndex} {nStakeSplitThreshold : Int}

/-- The coinstake as the wallet makes it, with what is taken from it. -/
def stakedOutputs (env : FillEnv) (pindexPrev : CBlockIndex)
    (nStakeSplitThreshold nValue : Int) (scriptPubKeyOut : CScript) (nFirst nSecond : Int) :
    List CTxOut :=
  reducedStake nStakeSplitThreshold nValue
    (nValue + getBlockValueReward env.params (pindexPrev.nHeight + 1)) scriptPubKeyOut nFirst
      nSecond

/-- What the amounts that are paid out of a stake have to satisfy. -/
structure StakeCovers (env : FillEnv) (pindexPrev : CBlockIndex)
    (nStakeSplitThreshold nValue : Int) : Prop where
  threshold : 0 ≤ nStakeSplitThreshold
  staked : 0 ≤ nValue
  bounded : nValue + getBlockValueReward env.params (pindexPrev.nHeight + 1) ≤ int64Max
  payment : 0 ≤ env.nMasternodePayment pindexPrev
  devFund : 0 ≤ devFundPayment env.params (pindexPrev.nHeight + 1)
  rewarded : env.nMasternodePayment pindexPrev +
    devFundPayment env.params (pindexPrev.nHeight + 1) ≤
      getBlockValueReward env.params (pindexPrev.nHeight + 1)

theorem stakeOutCount_createCoinStake
    (params : CChainParams) (prevout : COutPoint) (scriptPubKeyOut : CScript) (nHeight : Int) :
    stakeOutCount (createCoinStake params nStakeSplitThreshold prevout nValue scriptPubKeyOut
      nHeight) = stakeParts nStakeSplitThreshold nValue := by
  unfold stakeOutCount stakeParts createCoinStake coinStakeOutputs
  split_ifs <;> simp_all

/-- Parts of a payment within the reward are no more than the outputs that they are taken
from. -/
theorem stakedOutputs_nonneg
    (covers : StakeCovers env pindexPrev nStakeSplitThreshold nValue)
    (paid : 0 ≤ nPaid)
    (fund : 0 ≤ nFund)
    (within : nPaid + nFund ≤ getBlockValueReward env.params (pindexPrev.nHeight + 1))
    (scriptPubKeyOut : CScript) :
    ∀ out ∈ stakedOutputs env pindexPrev nStakeSplitThreshold nValue scriptPubKeyOut
      (nPaid.tdiv 2 + nFund.tdiv 2) (nPaid - nPaid.tdiv 2 + (nFund - nFund.tdiv 2)),
        0 ≤ out.nValue := by
  have staked := covers.staked
  have threshold : 0 ≤ nStakeSplitThreshold * coin := mul_nonneg covers.threshold (by decide)
  unfold stakedOutputs reducedStake
  rw [List.forall_mem_cons]
  refine And.intro (le_refl 0) ?_
  rw [Int.tdiv_eq_ediv_of_nonneg paid, Int.tdiv_eq_ediv_of_nonneg fund,
    Int.tdiv_eq_ediv_of_nonneg staked, Int.tdiv_eq_ediv_of_nonneg (by omega)]
  split_ifs with split
  · simp only [List.forall_mem_cons, List.not_mem_nil, false_implies, implies_true, and_true]
    constructor <;> omega
  · simp only [List.forall_mem_cons, List.not_mem_nil, false_implies, implies_true, and_true]
    omega

theorem outputSum_masternodeOutputs
    (covers : StakeCovers env pindexPrev nStakeSplitThreshold nValue) :
    outputSum (env.masternodeOutputs pindexPrev) = env.paidToMasternode pindexPrev := by
  have payment := covers.payment
  unfold masternodeOutputs paidToMasternode
  cases env.payee (pindexPrev.nHeight + 1) with
  | none => rfl
  | some payee =>
    split_ifs with positive
    · simp
    · simp only [outputSum_nil, Option.elim_some]
      omega

theorem paidToMasternode_bounds
    (covers : StakeCovers env pindexPrev nStakeSplitThreshold nValue) :
    0 ≤ env.paidToMasternode pindexPrev ∧
      env.paidToMasternode pindexPrev ≤ env.nMasternodePayment pindexPrev := by
  have payment := covers.payment
  unfold paidToMasternode
  cases env.payee (pindexPrev.nHeight + 1) with
  | none => exact And.intro (le_refl 0) payment
  | some payee => exact And.intro payment (le_refl _)

theorem masternodeOutputs_nonneg : ∀ out ∈ env.masternodeOutputs pindexPrev, 0 ≤ out.nValue := by
  unfold masternodeOutputs
  cases env.payee (pindexPrev.nHeight + 1) with
  | none => simp
  | some payee =>
    split_ifs with positive
    · simpa using positive.le
    · simp

theorem outputSum_stakedOutputs (scriptPubKeyOut : CScript) (nFirst nSecond : Int) :
    outputSum (stakedOutputs env pindexPrev nStakeSplitThreshold nValue scriptPubKeyOut nFirst
      nSecond) =
      nValue + getBlockValueReward env.params (pindexPrev.nHeight + 1) - (nFirst + nSecond) :=
  outputSum_reducedStake

/-- The payment of the masternode is taken in halves and appended. -/
theorem fillMasternodePayee_eq
    (covers : StakeCovers env pindexPrev nStakeSplitThreshold nValue)
    (made : txNew.vout =
      stakedOutputs env pindexPrev nStakeSplitThreshold nValue scriptPubKeyOut 0 0)
    (count : stakeOutCount txNew = stakeParts nStakeSplitThreshold nValue) :
    env.fillMasternodePayee txNew true pindexPrev =
      some { txNew with
        vout :=
          stakedOutputs env pindexPrev nStakeSplitThreshold nValue scriptPubKeyOut
            ((env.paidToMasternode pindexPrev).tdiv 2)
            (env.paidToMasternode pindexPrev - (env.paidToMasternode pindexPrev).tdiv 2) ++
          env.masternodeOutputs pindexPrev } := by
  have bounded := covers.bounded
  have rewarded := covers.rewarded
  have fund := covers.devFund
  have total : txNew.valueOutSum =
      nValue + getBlockValueReward env.params (pindexPrev.nHeight + 1) := by
    have sum := @outputSum_stakedOutputs env pindexPrev nStakeSplitThreshold nValue
      scriptPubKeyOut 0 0
    rw [← made] at sum
    exact sum.trans (by omega)
  have nonneg : NoNegativeOutput txNew := by
    have parts := stakedOutputs_nonneg covers (le_refl 0) (le_refl 0)
      (by have := covers.payment; omega) scriptPubKeyOut
    intro out member
    rw [made] at member
    exact parts out (by simpa using member)
  unfold fillMasternodePayee masternodeOutputs paidToMasternode
  cases env.payee (pindexPrev.nHeight + 1) with
  | none =>
    simp [← made]
  | some payee =>
    simp only [if_true, Option.elim_some, count]
    by_cases positive : 0 < env.nMasternodePayment pindexPrev
    · have outputs : txNew.vout = reducedStake nStakeSplitThreshold nValue
          (nValue + getBlockValueReward env.params (pindexPrev.nHeight + 1)) scriptPubKeyOut
            0 0 ++ [] := by
        rw [List.append_nil]
        exact made
      rw [if_pos positive, payFromStakeReward_reducedStake outputs nonneg (by omega) positive
        (by have := covers.staked; dsimp only; omega)]
      simp only [Int.zero_add, List.nil_append]
      rfl
    · have none : env.nMasternodePayment pindexPrev = 0 := by
        have := covers.payment
        omega
      rw [if_neg positive, payFromStakeReward_of_nonpos (by rw [none]), none]
      simp [← made]

/-- The payment of the development fund is taken in halves too. -/
theorem payDevFund_eq
    (covers : StakeCovers env pindexPrev nStakeSplitThreshold nValue)
    (filled : tx.vout =
      stakedOutputs env pindexPrev nStakeSplitThreshold nValue scriptPubKeyOut
        ((env.paidToMasternode pindexPrev).tdiv 2)
        (env.paidToMasternode pindexPrev - (env.paidToMasternode pindexPrev).tdiv 2) ++
      env.masternodeOutputs pindexPrev)
    (positive : 0 < devFundPayment env.params (pindexPrev.nHeight + 1)) :
    payFromStakeReward tx (stakeParts nStakeSplitThreshold nValue)
        (payToAddress env.lib (devFundPayment env.params (pindexPrev.nHeight + 1))
          env.params.devFundAddress) =
      some { tx with
        vout :=
          stakedOutputs env pindexPrev nStakeSplitThreshold nValue scriptPubKeyOut
            ((env.paidToMasternode pindexPrev).tdiv 2 +
              (devFundPayment env.params (pindexPrev.nHeight + 1)).tdiv 2)
            (env.paidToMasternode pindexPrev - (env.paidToMasternode pindexPrev).tdiv 2 +
              (devFundPayment env.params (pindexPrev.nHeight + 1) -
                (devFundPayment env.params (pindexPrev.nHeight + 1)).tdiv 2)) ++
          (env.masternodeOutputs pindexPrev ++
            [payToAddress env.lib (devFundPayment env.params (pindexPrev.nHeight + 1))
              env.params.devFundAddress]) } := by
  have bounded := covers.bounded
  have rewarded := covers.rewarded
  have staked := covers.staked
  have paid := paidToMasternode_bounds covers
  have total : tx.valueOutSum =
      nValue + getBlockValueReward env.params (pindexPrev.nHeight + 1) := by
    have sum : tx.valueOutSum = outputSum tx.vout := rfl
    rw [sum, filled, outputSum_append, outputSum_stakedOutputs, outputSum_masternodeOutputs covers]
    omega
  have nonneg : NoNegativeOutput tx := by
    have parts := stakedOutputs_nonneg covers paid.1 (le_refl 0) (by omega) scriptPubKeyOut
    intro out member
    rw [filled] at member
    rcases List.mem_append.mp member with inStake | appended
    · exact parts out (by simpa using inStake)
    · exact masternodeOutputs_nonneg out appended
  exact payFromStakeReward_reducedStake filled nonneg (by omega) positive
    (by rw [total]; simp only [payToAddress]; omega)

/-- The outputs of a coinstake as `FillBlockPayee` leaves it. -/
def filledOutputs (env : FillEnv) (pindexPrev : CBlockIndex)
    (nStakeSplitThreshold nValue nFees : Int) (scriptPubKeyOut : CScript) : List CTxOut :=
  stakedOutputs env pindexPrev nStakeSplitThreshold nValue scriptPubKeyOut
    ((env.paidToMasternode pindexPrev).tdiv 2 +
      (devFundPayment env.params (pindexPrev.nHeight + 1)).tdiv 2)
    (env.paidToMasternode pindexPrev - (env.paidToMasternode pindexPrev).tdiv 2 +
      (devFundPayment env.params (pindexPrev.nHeight + 1) -
        (devFundPayment env.params (pindexPrev.nHeight + 1)).tdiv 2)) ++
    env.payments pindexPrev nFees

/-- `FillBlockPayee` takes both payments from the stake and appends them, and appends the
fees. -/
theorem fillBlockPayee_eq
    (covers : StakeCovers env pindexPrev nStakeSplitThreshold nValue)
    (ordinary : isBudgetPaymentBlock env.params env.masternodes env.superblocks
      (pindexPrev.nHeight + 1) = false)
    {txNew : CTransaction} {scriptPubKeyOut : CScript}
    (made : txNew.vout =
      stakedOutputs env pindexPrev nStakeSplitThreshold nValue scriptPubKeyOut 0 0)
    (count : stakeOutCount txNew = stakeParts nStakeSplitThreshold nValue)
    (nFees : Int) (rest : List CBlockIndex) :
    env.fillBlockPayee txNew nFees true (pindexPrev :: rest) =
      some { txNew with
        vout := filledOutputs env pindexPrev nStakeSplitThreshold nValue nFees
          scriptPubKeyOut } := by
  have fund := covers.devFund
  have due : ∀ outputs, env.fillFees nFees { txNew with vout := outputs } =
      { txNew with vout := outputs ++ env.feeOutputs nFees } := by
    intro outputs
    unfold fillFees feeOutputs
    split_ifs <;> simp
  have masternode := fillMasternodePayee_eq covers made count
  have unbudgeted : env.fillPayee txNew true pindexPrev (pindexPrev :: rest) =
      env.fillMasternodePayee txNew true pindexPrev :=
    if_neg (Bool.eq_false_iff.mp ordinary)
  simp only [fillBlockPayee, count, unbudgeted, masternode, Option.bind_eq_bind, Option.bind_some]
  unfold fillDevFund
  by_cases pays : pindexPrev.nHeight + 1 < env.params.getChainHeight .h8 ∧
      0 < getBlockValueDevFund env.params (pindexPrev.nHeight + 1)
  · have amount : getBlockValueDevFund env.params (pindexPrev.nHeight + 1) =
        devFundPayment env.params (pindexPrev.nHeight + 1) := (if_pos pays.1).symm
    rw [if_pos pays, amount]
    rw [amount] at pays
    rw [payDevFund_eq covers rfl pays.2]
    rw [filledOutputs, payments, devFundOutputs, if_pos pays.2]
    simp only [Option.bind_some, due, List.append_assoc]
    rfl
  · have nothing : devFundPayment env.params (pindexPrev.nHeight + 1) = 0 := by
      unfold devFundPayment at fund ⊢
      split_ifs at fund ⊢ with early
      · have := fun positive => pays (And.intro early positive)
        omega
      · rfl
    rw [if_neg pays, filledOutputs, payments, devFundOutputs, nothing, if_neg (lt_irrefl 0),
      ← List.append_assoc]
    simp only [Int.zero_tdiv, Int.sub_zero, Int.add_zero, List.append_nil]
    exact congrArg some (due _)

end Fill

end FillEnv

end ColossusCoin
