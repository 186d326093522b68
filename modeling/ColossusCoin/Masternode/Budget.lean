import ColossusCoin.Primitives.Block

/-!
# Block subsidies and the budget

The value of a block and its shares, the finalized budgets that masternodes vote
for, and the payments that a superblock has to make.
-/

namespace ColossusCoin

def getBlockValue (params : CChainParams) (nHeight : Int) : Int :=
  if nHeight < params.getChainHeight .h1 then 0
  else if nHeight = params.getChainHeight .h1 then 12000000000 * coin
  else if nHeight < params.getChainHeight .h2 then 2500 * coin
  else if nHeight < params.getChainHeight .h3 then 1250 * coin
  else if nHeight < params.getChainHeight .h4 then 1000 * coin
  else 1500 * coin

def getBlockValueReward (params : CChainParams) (nHeight : Int) : Int :=
  if nHeight = params.getChainHeight .h1 then getBlockValue params nHeight
  else if nHeight < params.getChainHeight .h4 then
    (getBlockValue params nHeight * (100 - 5)).tdiv 100
  else if nHeight < params.getChainHeight .h8 then
    (getBlockValue params nHeight * (100 - params.nBudgetPercent)).tdiv 100
  else
    (getBlockValue params nHeight *
      (100 - params.nBudgetPercent - params.nDevFundPercent)).tdiv 100

def getBlockExpectedMint (params : CChainParams) (nHeight : Int) : Int :=
  getBlockValueReward params nHeight

def getBlockValueBudget (params : CChainParams) (nHeight : Int) : Int :=
  if nHeight = params.getChainHeight .h1 then 0
  else if nHeight < params.getChainHeight .h4 then
    (getBlockValue params nHeight * 5).tdiv 100
  else (getBlockValue params nHeight * params.nBudgetPercent).tdiv 100

def getBlockValueDevFund (params : CChainParams) (nHeight : Int) : Int :=
  if nHeight < params.getChainHeight .h4 then 0
  else (getBlockValue params nHeight * params.nDevFundPercent).tdiv 100

/-- `GetMasternodePayment`.  The see-saw rule between the fourth and the sixth
height is computed in floating point, and is a parameter. -/
def getMasternodePayment (params : CChainParams) (seeSaw : Int → Int → Int → Int)
    (nHeight nMasternodeCount nMoneySupply : Int) : Int :=
  if nHeight < params.getChainHeight .h4 then
    (getBlockValueReward params nHeight * 60).tdiv 100
  else if nHeight < params.getChainHeight .h6 then
    seeSaw nHeight nMasternodeCount nMoneySupply
  else if nHeight < params.getChainHeight .h8 then
    ((getBlockValueReward params nHeight - getBlockValueDevFund params nHeight) *
      60).tdiv 100
  else (getBlockValueReward params nHeight * 60).tdiv 100

def getBudgetPaymentCycleBlocks (params : CChainParams) : Int :=
  params.nBudgetPaymentCycle.tdiv params.nTargetSpacing

def getTotalBudget (params : CChainParams) (nHeight : Int) : Int :=
  getBlockValueBudget params nHeight * getBudgetPaymentCycleBlocks params

def getTotalDevFund (params : CChainParams) (nHeight : Int) : Int :=
  getBlockValueDevFund params nHeight * getBudgetPaymentCycleBlocks params

/-- The height opens a budget cycle. -/
def isCycleStart (params : CChainParams) (nHeight : Int) : Bool :=
  nHeight.tmod (getBudgetPaymentCycleBlocks params) == 0

/-- The 24 cycles from the ninth height on, over which 4.5 million coins are
created in each superblock. -/
def createsExtraCoin (params : CChainParams) (nHeight : Int) : Bool :=
  params.getChainHeight .h9 ≤ nHeight &&
    nHeight ≤ params.getChainHeight .h9 + 24 * getBudgetPaymentCycleBlocks params

/-- The coins created in a superblock of those cycles. -/
def extraCoinAmount : Int := 4500000 * coin

/-- `CFinalizedBudget`: its first block, its payments block by block, and the
number of votes it has. -/
structure CFinalizedBudget where
  nBlockStart : Int
  vecBudgetPayments : List (CScript × Int)
  mapVotesSize : Int
  deriving DecidableEq, Repr

namespace CFinalizedBudget

def getBlockEnd (budget : CFinalizedBudget) : Int :=
  budget.nBlockStart + (budget.vecBudgetPayments.length - 1)

def getPayeeAndAmount (budget : CFinalizedBudget) (nBlockHeight : Int) :
    Option (CScript × Int) :=
  if nBlockHeight < budget.nBlockStart then none
  else budget.vecBudgetPayments[(nBlockHeight - budget.nBlockStart).toNat]?

/-- The block height lies between the first and the last block. -/
def covers (budget : CFinalizedBudget) (nBlockHeight : Int) : Bool :=
  budget.nBlockStart ≤ nBlockHeight && nBlockHeight ≤ budget.getBlockEnd

/-- `CFinalizedBudget::IsTransactionValid`. -/
def isTransactionValid (budget : CFinalizedBudget) (txNew : CTransaction)
    (nBlockHeight : Int) : Bool :=
  match budget.getPayeeAndAmount nBlockHeight with
  | none => false
  | some (payee, nAmount) =>
    txNew.vout.any fun out => payee == out.scriptPubKey && nAmount == out.nValue

end CFinalizedBudget

/-- What payments use of code outside: addresses of scripts and scripts of
addresses, and the see-saw rule. -/
structure PaymentLib where
  /-- The address that `ExtractDestination` finds, as a string. -/
  toAddress : CScript → String
  /-- `GetScriptForDestination` of an address. -/
  getScriptForDestination : String → CScript
  /-- `GetMasternodePaymentSeeSaw`. -/
  seeSaw : Int → Int → Int → Int

/-- What a node knows of masternodes and of their votes. -/
structure MasternodeLocal where
  /-- `masternodeSync.IsSynced`. -/
  isSynced : Bool
  /-- `mnodeman.CountEnabled(ActiveProtocol())`. -/
  countEnabled : Nat
  /-- `mnodeman.stable_size`. -/
  stableSize : Nat
  /-- `mapFinalizedBudgets`, in the order of the map. -/
  mapFinalizedBudgets : List CFinalizedBudget
  /-- `mapMasternodeBlocks`: the payees of a block with their votes. -/
  mapMasternodeBlocks : Int → Option (List (CScript × Nat))
  /-- The money supply at the tip of the active chain, if there is one. -/
  tipMoneySupply : Option Int

namespace MasternodeLocal

/-- Five percent of the masternodes. -/
def nFivePercent (masternodes : MasternodeLocal) : Int :=
  (masternodes.countEnabled / 20 : Nat)

/-- One step of `GrabHighestCount`. -/
def grabStep (nTargetHeight : Int) (best : Int × CScript × Int)
    (budget : CFinalizedBudget) : Int × CScript × Int :=
  if 0 < budget.mapVotesSize ∧ best.1 < budget.mapVotesSize ∧
      budget.covers nTargetHeight = true then
    match budget.getPayeeAndAmount nTargetHeight with
    | none => best
    | some payment => (budget.mapVotesSize, payment)
  else best

/-- `GrabHighestCount`: the highest count of votes, with the payment of its
budget; `-1` without one. -/
def grabHighestCount (masternodes : MasternodeLocal) (nTargetHeight : Int) :
    Int × CScript × Int :=
  masternodes.mapFinalizedBudgets.foldl (grabStep nTargetHeight) (-1, [], 0)

/-- The payment scheduled for a height by a budget with enough votes. -/
def budgetPayment (masternodes : MasternodeLocal) (nTargetHeight : Int) :
    Option (CScript × Int) :=
  match masternodes.grabHighestCount nTargetHeight with
  | (nHighestCount, payment) =>
    if nHighestCount < masternodes.nFivePercent then none else some payment

/-- The loop of `FindBudgetPayments` with the number of heights left to try. -/
def findBudgetPaymentsFrom (masternodes : MasternodeLocal) :
    Nat → Int → List (CScript × Int)
  | 0, _ => []
  | left + 1, nTargetHeight =>
    match masternodes.budgetPayment nTargetHeight with
    | none => []
    | some payment =>
      payment :: findBudgetPaymentsFrom masternodes left (nTargetHeight + 1)

def findBudgetPayments (params : CChainParams) (masternodes : MasternodeLocal)
    (nTargetHeight : Int) : List (CScript × Int) :=
  masternodes.findBudgetPaymentsFrom params.nMaxSuperBlocksPerCycle nTargetHeight

end MasternodeLocal

/-- The sum that `GetPaidBudgetValue` takes over the blocks of the cycle, given
the ancestors from the parent on; `none` where it runs past genesis. -/
def paidInCycle (params : CChainParams) (nBudgetCycleStartHeight : Int) :
    List CBlockIndex → Option Int
  | [] => none
  | pindex :: rest =>
    if pindex.nHeight < nBudgetCycleStartHeight then some 0
    else
      (paidInCycle params nBudgetCycleStartHeight rest).map fun nAmount =>
        (pindex.nMint - getBlockExpectedMint params pindex.nHeight) + nAmount

/-- `GetPaidBudgetValue`, `none` for its `-1`. -/
def getPaidBudgetValue (params : CChainParams) (nTargetHeight : Int)
    (ancestors : List CBlockIndex) : Option Int :=
  let position := nTargetHeight.tmod (getBudgetPaymentCycleBlocks params)
  if params.nMaxSuperBlocksPerCycle ≤ position then none
  else
    match ancestors with
    | [] => none
    | _ => paidInCycle params (nTargetHeight - position) ancestors

/-- The part of the budget that no payment claims any more, when the next block
has none; zero when there is no such part. -/
def unallocatedAmount (params : CChainParams) (masternodes : MasternodeLocal)
    (nTargetHeight : Int) (ancestors : List CBlockIndex) (nAmount : Int) : Int :=
  if ancestors.isEmpty ∨ (masternodes.budgetPayment (nTargetHeight + 1)).isSome then 0
  else
    match getPaidBudgetValue params nTargetHeight ancestors with
    | none => 0
    | some nPaidAmount =>
      if nPaidAmount < 0 then 0
      else max 0 (getTotalBudget params nTargetHeight - nAmount - nPaidAmount)

def getBudgetValue (params : CChainParams) (masternodes : MasternodeLocal)
    (nTargetHeight : Int) (ancestors : List CBlockIndex) : Int :=
  match masternodes.budgetPayment nTargetHeight with
  | none =>
    if isCycleStart params nTargetHeight then getTotalBudget params nTargetHeight
    else 0
  | some (_, nAmount) =>
    nAmount + unallocatedAmount params masternodes nTargetHeight ancestors nAmount

def isBudgetPaymentBlock (params : CChainParams) (masternodes : MasternodeLocal)
    (superblocks : Bool) (nBlockHeight : Int) : Bool :=
  if !superblocks then false
  else if params.getChainHeight .h8 ≤ nBlockHeight then isCycleStart params nBlockHeight
  else if params.nMaxSuperBlocksPerCycle ≤
      nBlockHeight.tmod (getBudgetPaymentCycleBlocks params) then false
  else
    (masternodes.budgetPayment nBlockHeight).isSome || isCycleStart params nBlockHeight

/-- Who is paid: a script, or an address whatever the script. -/
inductive Payee where
  | script (scriptPubKey : CScript)
  | address (strAddress : String)
  deriving DecidableEq, Repr

/-- The output pays the payee. -/
def Payee.paidBy (lib : PaymentLib) (out : CTxOut) : Payee → Bool
  | .script scriptPubKey => out.scriptPubKey == scriptPubKey
  | .address strAddress => lib.toAddress out.scriptPubKey == strAddress

/-- `FindPayment`: what a transaction pays to a payee, both in its form for
scripts and in its form for addresses. -/
def findPayment (lib : PaymentLib) (tx : CTransaction) (payee : Payee) : Int :=
  ((tx.vout.filter fun out => payee.paidBy lib out).map CTxOut.nValue).sum

/-- The loop over finalized budget payments with the amount paid so far: `none`
where a payment is missing. -/
def checkBudgetPayments (lib : PaymentLib) (txNew : CTransaction)
    (nTotalBudget : Int) : List (CScript × Int) → Int → Option Int
  | [], nPaidBudget => some nPaidBudget
  | (payee, nAmount) :: rest, nPaidBudget =>
    if nPaidBudget + nAmount ≤ nTotalBudget then
      if findPayment lib txNew (.script payee) < nAmount then none
      else checkBudgetPayments lib txNew nTotalBudget rest (nPaidBudget + nAmount)
    else checkBudgetPayments lib txNew nTotalBudget rest nPaidBudget

def isTransactionValidBeforeH8 (params : CChainParams) (lib : PaymentLib)
    (masternodes : MasternodeLocal) (txNew : CTransaction) (nBlockHeight : Int)
    (ancestors : List CBlockIndex) : Bool :=
  match masternodes.grabHighestCount nBlockHeight with
  | (nHighestCount, _, nAmount) =>
    if nHighestCount < masternodes.nFivePercent then
      isCycleStart params nBlockHeight &&
        getTotalBudget params nBlockHeight ≤
          findPayment lib txNew (.address params.unallocatedBudgetAddress)
    else
      let finalBudgetValid := masternodes.mapFinalizedBudgets.any fun budget =>
        nHighestCount - (masternodes.countEnabled / 10 : Nat) ≤ budget.mapVotesSize &&
          budget.covers nBlockHeight && budget.isTransactionValid txNew nBlockHeight
      let nUnallocatedAmount :=
        unallocatedAmount params masternodes nBlockHeight ancestors nAmount
      let unallocatedBudgetValid := nUnallocatedAmount == 0 ||
        nUnallocatedAmount ≤
          findPayment lib txNew (.address params.unallocatedBudgetAddress)
      finalBudgetValid && unallocatedBudgetValid

/-- `CBudgetManager::IsTransactionValid`. -/
def isBudgetTransactionValid (params : CChainParams) (lib : PaymentLib)
    (masternodes : MasternodeLocal) (txNew : CTransaction) (nBlockHeight : Int)
    (ancestors : List CBlockIndex) : Bool :=
  if nBlockHeight < params.getChainHeight .h8 then
    isTransactionValidBeforeH8 params lib masternodes txNew nBlockHeight ancestors
  else if !isCycleStart params nBlockHeight then true
  else
    let nTotalBudget := getTotalBudget params nBlockHeight
    let paidTo address := findPayment lib txNew (.script (lib.getScriptForDestination address))
    match checkBudgetPayments lib txNew nTotalBudget
        (masternodes.findBudgetPayments params nBlockHeight) 0 with
    | none => false
    | some nPaidBudget =>
      nTotalBudget - nPaidBudget ≤ paidTo params.unallocatedBudgetAddress &&
        (nBlockHeight < params.getChainHeight .h9 ||
          getTotalDevFund params nBlockHeight ≤ paidTo params.devFundAddress) &&
        (!createsExtraCoin params nBlockHeight ||
          paidTo params.address108M == extraCoinAmount)

end ColossusCoin
