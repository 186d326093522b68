import ColossusCoin.Chain.ActiveChain
import ColossusCoin.Chain.BestTip
import ColossusCoin.Chain.BlockFiles
import ColossusCoin.Chain.BlockTrust
import ColossusCoin.Chain.ForkStakeExact
import ColossusCoin.Chain.OneEncoding
import ColossusCoin.Chain.StakeModifier
import ColossusCoin.Chain.StakeTarget
import ColossusCoin.Coins.CacheRefinement
import ColossusCoin.Coins.StoredSize
import ColossusCoin.Masternode.BudgetCollateral
import ColossusCoin.Masternode.BudgetVotesKept
import ColossusCoin.Masternode.CleanUp
import ColossusCoin.Masternode.Collateral
import ColossusCoin.Masternode.ExtraCoin
import ColossusCoin.Masternode.LeadingBudget
import ColossusCoin.Masternode.NewestBroadcast
import ColossusCoin.Masternode.PayeeAgreement
import ColossusCoin.Masternode.PayeeTally
import ColossusCoin.Masternode.PaymentCounts
import ColossusCoin.Masternode.RandomChoice
import ColossusCoin.Masternode.SeenMessages
import ColossusCoin.Mempool.RejectedTransactions
import ColossusCoin.Mempool.ReorgCleanup
import ColossusCoin.Mempool.Serials
import ColossusCoin.Net.DownloadBookkeeping
import ColossusCoin.Net.OrphanTransactions
import ColossusCoin.Primitives.BlockSignature
import ColossusCoin.Primitives.PartialTrees
import ColossusCoin.Sporks.Convergence
import ColossusCoin.SwiftTx.Agreement
import ColossusCoin.SwiftTx.ForgedVotes
import ColossusCoin.Validation.AmountRanges
import ColossusCoin.Validation.OutputIndices
import ColossusCoin.Validation.PermanentMarks
import ColossusCoin.Validation.SpendValue
import ColossusCoin.Wallet.MintSelection
import ColossusCoin.Wallet.MissingMints
import ColossusCoin.Zerocoin.ChainSupply
import ColossusCoin.Zerocoin.WitnessCoins
import ColossusCoin.AddrMan.Restored
import ColossusCoin.Primitives.Addresses
import ColossusCoin.Validation.MultiSig
import ColossusCoin.Chain.AcceptBlock
import ColossusCoin.Wallet.MintTransaction
import ColossusCoin.Masternode.MixingPool
import ColossusCoin.Mempool.BlockTemplate
import ColossusCoin.Chain.StakeSearch
import ColossusCoin.Net.TimeData
