import ColossusCoin.Masternode.Budget
import ColossusCoin.Validation.CheckBlock

/-!
# Reward and payee checks

`IsBlockValueValid` limits what a block mints, and `IsBlockPayeeValid` asks for
payments of its coinstake.  The two branch independently, on the height, on the
sporks and on what the node knows of the budget.
-/

namespace ColossusCoin

/-- The blocks of the test network that break the rules. -/
def isExemptHeight (params : CChainParams) (nHeight : Int) : Bool :=
  params.testnet && (nHeight == 10800 || nHeight == 11040 || nHeight == 11041)

def isBlockValueValid (params : CChainParams) (masternodes : MasternodeLocal)
    (node : NodeLocal) (nHeight nExpectedValue nMinted : Int)
    (ancestors : List CBlockIndex) : Bool :=
  if nHeight ≤ 0 then false
  else if isExemptHeight params nHeight then true
  else if params.getChainHeight .h9 ≤ nHeight then
    let extraCoin := if createsExtraCoin params nHeight then extraCoinAmount else 0
    if isCycleStart params nHeight then
      nMinted ≤ nExpectedValue + getTotalBudget params nHeight +
        getTotalDevFund params nHeight + extraCoin
    else nMinted ≤ nExpectedValue
  else if params.getChainHeight .h8 ≤ nHeight then
    if isCycleStart params nHeight then
      nMinted ≤ nExpectedValue + getTotalBudget params nHeight
    else nMinted ≤ nExpectedValue
  else if !masternodes.isSynced || node.isInitialBlockDownload then
    if nHeight.tmod (getBudgetPaymentCycleBlocks params) <
        params.nMaxSuperBlocksPerCycle then
      nMinted ≤ nExpectedValue + getTotalBudget params nHeight
    else nMinted ≤ nExpectedValue
  else if isBudgetPaymentBlock params masternodes
      (node.isSporkActive .enableSuperblocks) nHeight then
    nMinted ≤ nExpectedValue + getBudgetValue params masternodes nHeight ancestors
  else nMinted ≤ nExpectedValue

/-- `CMasternodeBlockPayees::IsTransactionValid`. -/
def blockPayeesValid (params : CChainParams) (lib : PaymentLib)
    (masternodes : MasternodeLocal) (vecPayments : List (CScript × Nat))
    (txNew : CTransaction) (nBlockHeight : Int) : Bool :=
  match masternodes.tipMoneySupply with
  | none => false
  | some nMoneySupply =>
    let nRequiredMasternodePayment :=
      getMasternodePayment params lib.seeSaw nBlockHeight
        (masternodes.stableSize + params.nMasternodeCountDrift) nMoneySupply
    let nRequired := params.nMasternodePaymentSigRequired
    let nMaxSignatures := vecPayments.foldl (fun nMax payee =>
      if nMax ≤ payee.2 ∧ nRequired ≤ payee.2 then payee.2 else nMax) 0
    nMaxSignatures < nRequired ||
      vecPayments.any fun payee =>
        nRequired ≤ payee.2 &&
          txNew.vout.any fun out =>
            payee.1 == out.scriptPubKey && nRequiredMasternodePayment ≤ out.nValue

/-- `CMasternodePayments::IsTransactionValid`. -/
def isMasternodeTransactionValid (params : CChainParams) (lib : PaymentLib)
    (masternodes : MasternodeLocal) (txNew : CTransaction) (nBlockHeight : Int) :
    Bool :=
  match masternodes.mapMasternodeBlocks nBlockHeight with
  | none => true
  | some vecPayments =>
    blockPayeesValid params lib masternodes vecPayments txNew nBlockHeight

/-- A payment to an address of at least an amount was made: both payments to the
development fund that are checked apart from the budget look for one. -/
def paysAddress (lib : PaymentLib) (txNew : CTransaction) (strAddress : String)
    (nRequired : Int) : Bool :=
  let nAmount := findPayment lib txNew (.address strAddress)
  nAmount != 0 && nRequired ≤ nAmount

/-- The transaction of a block that makes the payments. -/
def paymentTransaction (params : CChainParams) (block : CBlock)
    (nBlockHeight : Int) : Option CTransaction :=
  if params.nLastPOWBlock < nBlockHeight then block.vtx[1]? else block.vtx[0]?

/-- The payments that `IsBlockPayeeValid` asks of the transaction; a payment that
is missing counts only when its spork enforces it. -/
def paymentsValid (params : CChainParams) (lib : PaymentLib)
    (masternodes : MasternodeLocal) (node : NodeLocal) (txNew : CTransaction)
    (nBlockHeight nFees : Int) (ancestors : List CBlockIndex) : Bool :=
  let fourth := params.getChainHeight .h4
  (if isBudgetPaymentBlock params masternodes
      (node.isSporkActive .enableSuperblocks) nBlockHeight then
    isBudgetTransactionValid params lib masternodes txNew nBlockHeight ancestors ||
      !node.isSporkActive .masternodeBudgetEnforcement
  else
    isMasternodeTransactionValid params lib masternodes txNew nBlockHeight ||
      !node.isSporkActive .masternodePaymentEnforcement) &&
  (!(100 * coin ≤ nFees && fourth ≤ nBlockHeight) ||
    paysAddress lib txNew params.txFeeAddress nFees ||
    !node.isSporkActive .feePaymentEnforcement) &&
  (!(fourth ≤ nBlockHeight && nBlockHeight < params.getChainHeight .h8) ||
    paysAddress lib txNew params.devFundAddress
      (getBlockValueDevFund params nBlockHeight) ||
    !node.isSporkActive .devFundPaymentEnforcement)

/-- `IsBlockPayeeValid`.  The source reads past the end of a block without the
transaction that makes the payments; here such a block is refused. -/
def isBlockPayeeValid (params : CChainParams) (lib : PaymentLib)
    (masternodes : MasternodeLocal) (node : NodeLocal) (block : CBlock)
    (nBlockHeight nFees : Int) (ancestors : List CBlockIndex) : Bool :=
  !masternodes.isSynced ||
    match paymentTransaction params block nBlockHeight with
    | none => false
    | some txNew =>
      paymentsValid params lib masternodes node txNew nBlockHeight nFees ancestors

end ColossusCoin
