import ColossusCoin.Library.GreedyFill
import ColossusCoin.Library.SortedMap
import ColossusCoin.Masternode.Budget
import ColossusCoin.Masternode.BudgetVotes

/-!
# Proposals and the next budget

The proposals of the budget, as they are made for a number of payments, and the choice of those
that the next superblock pays.  Arithmetic on `int` and `CAmount` that overflows has no result.
-/

namespace ColossusCoin

/-- A vote of a proposal, with its `fValid`. -/
structure CountedVote where
  vote : CBudgetVote
  fValid : Bool
  deriving DecidableEq, Repr

def voteYes : Int := 1

def voteNo : Int := 2

structure CBudgetProposal where
  nAlloted : Int
  fValid : Bool
  strProposalName : String
  strURL : String
  nBlockStart : Int
  nBlockEnd : Int
  nAmount : Int
  address : CScript
  nTime : Int
  nFeeTXHash : Uint256
  mapVotes : SortedMap Uint256 CountedVote

/-- A result of arithmetic on `int`, unless it overflows. -/
def asInt (value : Int) : Option Int :=
  if -(intMax + 1) ≤ value ∧ value ≤ intMax then some value else none

/-- A result of arithmetic on `CAmount`, unless it overflows. -/
def asAmount (value : Int) : Option Int :=
  if -(int64Max + 1) ≤ value ∧ value ≤ int64Max then some value else none

/-- `nCycleStart + (GetBudgetPaymentCycleBlocks() + 1) * nPaymentCount`, for a cycle of so many
blocks. -/
def proposalBlockEnd (nCycleBlocks nBlockStart nPaymentCount : Int) : Option Int := do
  let nLonger ← asInt (nCycleBlocks + 1)
  let nDuration ← asInt (nLonger * nPaymentCount)
  asInt (nBlockStart - nBlockStart.tmod nCycleBlocks + nDuration)

/-- The constructor of `CBudgetProposalBroadcast`; no constructor sets `nAlloted`. -/
def CBudgetProposal.broadcast (params : CChainParams) (nAlloted : Int)
    (strProposalName strURL : String) (nPaymentCount : Int) (address : CScript)
    (nAmount nBlockStart : Int) (nFeeTXHash : Uint256) : Option CBudgetProposal :=
  (proposalBlockEnd (getBudgetPaymentCycleBlocks params) nBlockStart nPaymentCount).map
    fun nBlockEnd =>
      { nAlloted, fValid := true, strProposalName, strURL, nBlockStart, nBlockEnd, nAmount,
        address, nTime := 0, nFeeTXHash, mapVotes := .empty }

namespace CBudgetProposal

/-- The votes that count for a choice. -/
def countVotes (proposal : CBudgetProposal) (nVote : Int) : Int :=
  proposal.mapVotes.entries.countP fun entry =>
    decide (entry.2.vote.nVote = nVote) && entry.2.fValid

def getYeas (proposal : CBudgetProposal) : Int :=
  proposal.countVotes voteYes

def getNays (proposal : CBudgetProposal) : Int :=
  proposal.countVotes voteNo

def getBlockStartCycle (params : CChainParams) (proposal : CBudgetProposal) : Int :=
  proposal.nBlockStart - proposal.nBlockStart.tmod (getBudgetPaymentCycleBlocks params)

def getTotalPaymentCount (params : CChainParams) (proposal : CBudgetProposal) : Int :=
  (proposal.nBlockEnd - proposal.getBlockStartCycle params).tdiv
    (getBudgetPaymentCycleBlocks params)

def setAllotted (proposal : CBudgetProposal) (nAlloted : Int) : CBudgetProposal :=
  { proposal with nAlloted }

end CBudgetProposal

/-- The first height of the next budget cycle after a height. -/
def nextCycleStart (nCycleBlocks nHeight : Int) : Int :=
  nHeight - nHeight.tmod nCycleBlocks + nCycleBlocks

/-- `sortProposalsByVotes`, on proposals with their net votes. -/
def sortProposalsByVotes (left right : (Uint256 × CBudgetProposal) × Int) : Bool :=
  if left.2 ≠ right.2 then decide (right.2 < left.2)
  else decide (right.1.2.nFeeTXHash < left.1.2.nFeeTXHash)

/-- What a node chooses the next budget with. -/
structure BudgetNode where
  params : CChainParams
  /-- `Params().NetworkID()` is that of the main network. -/
  isMain : Bool
  /-- `GetTime`. -/
  nTime : Int
  /-- `mnodeman.Find`. -/
  knowsMasternode : COutPoint → Bool
  /-- `mnodeman.CountEnabled(ActiveProtocol())`. -/
  nCountEnabled : Int
  /-- The height of `chainActive.Tip()`, if there is one. -/
  nTipHeight : Option Int
  /-- `std::sort`. -/
  sorting : GreedyFill.Sorting sortProposalsByVotes

/-- What `GetBudget` does with a proposal. -/
inductive BudgetDecision
  | checkFailed
  | noAmountAllotted
  | added
  deriving DecidableEq, Repr

namespace BudgetNode

/-- `CleanAndRemove(false)`: a vote is valid while its masternode is known. -/
def cleanAndRemove (node : BudgetNode) (proposal : CBudgetProposal) : CBudgetProposal :=
  { proposal with
    mapVotes := proposal.mapVotes.mapValues fun counted =>
      { counted with fValid := node.knowsMasternode counted.vote.vin.prevout } }

def isEstablished (node : BudgetNode) (proposal : CBudgetProposal) : Bool :=
  if node.isMain then decide (proposal.nTime < node.nTime - 60 * 60 * 24)
  else decide (proposal.nTime < node.nTime - 60 * 5)

/-- The first check of `GetBudget`. -/
def isEligible (node : BudgetNode) (nBlockStart nBlockEnd : Int) (proposal : CBudgetProposal) :
    Bool :=
  proposal.fValid && decide (proposal.nBlockStart ≤ nBlockStart) &&
    decide (nBlockEnd ≤ proposal.nBlockEnd) && decide (0 < proposal.getYeas) &&
    decide (node.nCountEnabled.tdiv 10 ≤ proposal.getYeas - proposal.getNays) &&
    node.isEstablished proposal

/-- The loop of `GetBudget` over the sorted proposals: what it does with each. -/
def grabBudgets (node : BudgetNode) (nBlockStart nBlockEnd nTotalBudget : Int) :
    List (Uint256 × CBudgetProposal) → Int →
      Option (List ((Uint256 × CBudgetProposal) × BudgetDecision))
  | [], _ => some []
  | entry :: rest, nBudgetAllocated =>
    if node.isEligible nBlockStart nBlockEnd entry.2 then
      (asAmount (entry.2.nAmount + nBudgetAllocated)).bind fun nAllocated =>
        if nAllocated ≤ nTotalBudget then
          (node.grabBudgets nBlockStart nBlockEnd nTotalBudget rest nAllocated).map
            ((entry, .added) :: ·)
        else
          (node.grabBudgets nBlockStart nBlockEnd nTotalBudget rest nBudgetAllocated).map
            ((entry, .noAmountAllotted) :: ·)
    else
      (node.grabBudgets nBlockStart nBlockEnd nTotalBudget rest nBudgetAllocated).map
        ((entry, .checkFailed) :: ·)

/-- A proposal after what `GetBudget` does with it. -/
def decided (entry : (Uint256 × CBudgetProposal) × BudgetDecision) :
    Uint256 × CBudgetProposal :=
  match entry.2 with
  | .checkFailed => entry.1
  | .noAmountAllotted => (entry.1.1, entry.1.2.setAllotted 0)
  | .added => (entry.1.1, entry.1.2.setAllotted entry.1.2.nAmount)

/-- `vBudgetPorposalsSort`, sorted. -/
def sortedProposals (node : BudgetNode) (mapProposals : SortedMap Uint256 CBudgetProposal) :
    List (Uint256 × CBudgetProposal) :=
  (node.sorting.sort ((mapProposals.mapValues node.cleanAndRemove).entries.map fun entry =>
    (entry, entry.2.getYeas - entry.2.getNays))).map Prod.fst

/-- `GetBudget`: the proposals that it returns, with their hashes, and the map that it leaves. -/
def getBudget (node : BudgetNode) (mapProposals : SortedMap Uint256 CBudgetProposal) :
    Option (List (Uint256 × CBudgetProposal) × SortedMap Uint256 CBudgetProposal) :=
  match node.nTipHeight with
  | none => some ([], mapProposals.mapValues node.cleanAndRemove)
  | some nHeight =>
    (node.grabBudgets (nextCycleStart (getBudgetPaymentCycleBlocks node.params) nHeight)
      (nextCycleStart (getBudgetPaymentCycleBlocks node.params) nHeight +
        getBudgetPaymentCycleBlocks node.params - 1)
      (getTotalBudget node.params
        (nextCycleStart (getBudgetPaymentCycleBlocks node.params) nHeight))
      (node.sortedProposals mapProposals) 0).map fun decisions =>
        ((decisions.filter fun entry => entry.2 = .added).map decided,
          (decisions.map decided).foldl (fun map entry => map.insert entry.1 entry.2)
            (mapProposals.mapValues node.cleanAndRemove))

end BudgetNode

end ColossusCoin
