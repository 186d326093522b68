import ColossusCoin.Primitives.Transaction

/-!
# Chain parameters and sporks

The parameters of the three networks, as far as validation reads them, and the
settings that the network's operators can change while it runs.
-/

namespace ColossusCoin

/-- `ChainHeight`: the heights at which rules change. -/
inductive ChainHeight where
  | h1 | h2 | h3 | h4 | h5 | h6 | h7 | h8 | h9
  deriving DecidableEq, Repr

/-- Largest value of an `int`. -/
def intMax : Int := 2147483647

structure CChainParams where
  testnet : Bool
  hashGenesisBlock : Uint256
  bnProofOfWorkLimit : Uint256
  nTargetSpacing : Int
  nLastPOWBlock : Int
  nMaturity : Int
  nMaxMoneyOut : Int
  nBudgetPercent : Int
  nDevFundPercent : Int
  nBudgetPaymentCycle : Int
  nMaxSuperBlocksPerCycle : Nat
  nMaxZerocoinSpendsPerTransaction : Nat
  nBlockEnforceSerialRange : Int
  nBlockRecalculateAccumulators : Int
  nBlockFirstFraudulent : Int
  nBlockEnforceInvalidUTXO : Int
  fSkipProofOfWorkCheck : Bool
  nMasternodeCountDrift : Int
  nMasternodePaymentSigRequired : Nat
  nEnforceBlockUpgradeMajority : Nat
  nRejectBlockOutdatedMajority : Nat
  nToCheckBlockUpgradeMajority : Nat
  devFundAddress : String
  txFeeAddress : String
  unallocatedBudgetAddress : String
  address108M : String
  getChainHeight : ChainHeight → Int

namespace CChainParams

/-- `CMainParams`. -/
def main : CChainParams where
  testnet := false
  hashGenesisBlock := 0xa0ce8206c908357008c1b9a8ba2813aff0989ca7f72d62b14e652c55f02b4f5c
  bnProofOfWorkLimit := (2 ^ 256 - 1) >>> 20
  nTargetSpacing := 60
  nLastPOWBlock := 10080
  nMaturity := 90
  nMaxMoneyOut := 20000000000 * coin
  nBudgetPercent := 10
  nDevFundPercent := 10
  nBudgetPaymentCycle := 60 * 60 * 24 * 30
  nMaxSuperBlocksPerCycle := 100
  nMaxZerocoinSpendsPerTransaction := 7
  nBlockEnforceSerialRange := intMax
  nBlockRecalculateAccumulators := intMax
  nBlockFirstFraudulent := intMax
  nBlockEnforceInvalidUTXO := intMax
  fSkipProofOfWorkCheck := false
  nMasternodeCountDrift := 20
  nMasternodePaymentSigRequired := 6
  nEnforceBlockUpgradeMajority := 750
  nRejectBlockOutdatedMajority := 950
  nToCheckBlockUpgradeMajority := 1000
  devFundAddress := "DBKqofwU8QUFYFwNYZetyBbj2Y7oAcWLbX"
  txFeeAddress := "DEKP7sVxwwuN1mtCpTXtjua77XqFBBRaKG"
  unallocatedBudgetAddress := "DE2nWCnyYyWxoUNRg5gEeA7Kx1kpBs2spB"
  address108M := "DAbHsptawrVEgXy4USDzpUjugVYVQCENe1"
  getChainHeight
    | .h1 => 1
    | .h2 => 151202
    | .h3 => 302401
    | .h4 => 388800
    | .h5 => 500000
    | .h6 => 500000
    | .h7 => 550000
    | .h8 => 1252800
    | .h9 => 1296000

/-- `CTestNetParams`. -/
def testNet : CChainParams where
  testnet := true
  hashGenesisBlock := 0x6cd37a546cfaafeee652fd0f3a85ba64c0f539f771a27fca9610cdc2f3278932
  bnProofOfWorkLimit := (2 ^ 256 - 1) >>> 1
  nTargetSpacing := 60
  nLastPOWBlock := 10080
  nMaturity := 15
  nMaxMoneyOut := 20000000000 * coin
  nBudgetPercent := 10
  nDevFundPercent := 10
  nBudgetPaymentCycle := 60 * 60 * 2
  nMaxSuperBlocksPerCycle := 100
  nMaxZerocoinSpendsPerTransaction := 7
  nBlockEnforceSerialRange := intMax
  nBlockRecalculateAccumulators := intMax
  nBlockFirstFraudulent := intMax
  nBlockEnforceInvalidUTXO := intMax
  fSkipProofOfWorkCheck := false
  nMasternodeCountDrift := 20
  nMasternodePaymentSigRequired := 1
  nEnforceBlockUpgradeMajority := 51
  nRejectBlockOutdatedMajority := 75
  nToCheckBlockUpgradeMajority := 100
  devFundAddress := "y4XhfKjJPwxi42YRQssbdDytJ74W8V1bVt"
  txFeeAddress := "yE8w3zvHtbn7mAFxyKk1UJEX92DWrnqzg6"
  unallocatedBudgetAddress := "yBtxR3o3uvbtkfeWLuFqa7o7yY9N1ha4Yn"
  address108M := "xzKVwq9a9fcshaFhQLY1TS7tMbkspRsXjZ"
  getChainHeight
    | .h1 => 1
    | .h2 | .h3 | .h4 => 35500
    | .h5 | .h6 | .h7 => 53000
    | .h8 => 99000
    | .h9 => 99120

/-- `CRegTestParams`, as `testnet` where it says nothing else; its network is not
`TESTNET`. -/
def regTest : CChainParams :=
  { testNet with
    testnet := false
    nEnforceBlockUpgradeMajority := 750
    nRejectBlockOutdatedMajority := 950
    nToCheckBlockUpgradeMajority := 1000
    hashGenesisBlock := 0x41d203d900885c5ff18d2c550957743a164060a184182fa17ad1d8cff46c7eac }

/-- The parameters are those of one of the networks. -/
def IsNetwork (params : CChainParams) : Prop :=
  params = main ∨ params = testNet ∨ params = regTest

/-- The last two heights come in order. -/
theorem IsNetwork.h8_le_h9
    {params : CChainParams}
    (network : params.IsNetwork) :
    params.getChainHeight .h8 ≤ params.getChainHeight .h9 := by
  rcases network with rfl | rfl | rfl <;> decide

def zerocoinStartHeight (params : CChainParams) : Int :=
  params.getChainHeight .h5

def moneyRange (params : CChainParams) (nValueOut : Int) : Bool :=
  0 ≤ nValueOut && nValueOut ≤ params.nMaxMoneyOut

end CChainParams

/-- The sporks that validation asks for. -/
inductive Spork where
  | swiftTxBlockFiltering
  | masternodePaymentEnforcement
  | masternodeBudgetEnforcement
  | enableSuperblocks
  | newProtocolEnforcement
  | newProtocolEnforcement2
  | feePaymentEnforcement
  | devFundPaymentEnforcement
  | maxReorganizationDepth
  | zerocoinMaintenanceMode
  | enforceMinTxFee
  | txFeeValue
  | limitBlockTx
  | blockTxValue
  deriving DecidableEq, Repr

/-- The spork settings a node has received, `GetSporkValue` reading them. -/
abbrev SporkValues := Spork → Int

/-- `IsSporkActive` at a time. -/
def SporkValues.isActive (values : SporkValues) (time : Int) (spork : Spork) : Bool :=
  values spork != -1 && values spork < time

end ColossusCoin
