import ColossusCoin.Library.SortedMap
import ColossusCoin.Library.System
import ColossusCoin.Masternode.BudgetVotes

/-!
# Messages about the budget

What a node does with the proposals, the finalized budgets and the votes that arrive.
Proposals and finalized budgets pass through the same code, with maps of their own, and
are known here by their hashes: whether their collateral is confirmed and whether they are
valid is for the node to say when they arrive.  Votes for what is not known yet wait.
Relaying, requests to peers and penalties are left out.
-/

namespace ColossusCoin

open BudgetBallot

/-- What a node goes by when a message about a kind of items arrives. -/
structure BudgetEnv (Vote : Type) where
  fLiteMode : Bool
  /-- `masternodeSync.IsBlockchainSynced`. -/
  isBlockchainSynced : Bool
  /-- `masternodeSync.IsSynced`. -/
  isSynced : Bool
  /-- `GetTime`. -/
  time : Int
  /-- `mnodeman.Find` finds the masternode. -/
  knowsMasternode : COutPoint → Bool
  /-- `VerifyMessage` of a vote with the key of its masternode. -/
  verifyVote : Vote → Bool
  /-- `IsBudgetCollateralValid` of an item. -/
  isBudgetCollateralValid : Uint256 → Bool
  /-- The collateral of an item has a confirmation. -/
  isConfirmed : Uint256 → Bool
  /-- `IsValid` of an item. -/
  isValid : Uint256 → Bool

namespace BudgetEnv

variable [BudgetBallot Vote]

/-- `ProcessMessage` does nothing before the node is ready for it. -/
def isReady (env : BudgetEnv Vote) : Bool :=
  !env.fLiteMode && env.isBlockchainSynced

/-- `SignatureValid(true)`. -/
def signatureValid (env : BudgetEnv Vote) (vote : Vote) : Bool :=
  env.knowsMasternode (masternode vote) && env.verifyVote vote

end BudgetEnv

/-- The maps of `CBudgetManager` for one kind of items: for proposals `mapProposals`,
`mapSeenMasternodeBudgetProposals`, `mapSeenMasternodeBudgetVotes`,
`mapOrphanMasternodeBudgetVotes` and `vecImmatureBudgetProposals`, and the same for
finalized budgets. -/
structure VoteBook (Vote : Type) where
  /-- The items that are known, with their votes. -/
  mapItems : Uint256 → Option (VoteMap Vote)
  mapSeenItems : Uint256 → Bool
  mapSeenVotes : Uint256 → Option Vote
  /-- Votes for items that are not known, one for each item. -/
  mapOrphanVotes : SortedMap Uint256 Vote
  vecImmature : List Uint256

namespace VoteBook

variable [BudgetBallot Vote]

/-- Nothing arrived yet. -/
def empty : VoteBook Vote where
  mapItems _ := none
  mapSeenItems _ := false
  mapSeenVotes _ := none
  mapOrphanVotes := .empty
  vecImmature := []

/-- `UpdateProposal` and `UpdateFinalizedBudget`; a vote from a peer may wait for its
item. -/
def update (hashes : BudgetHashes) (env : BudgetEnv Vote) (fromPeer : Bool)
    (book : VoteBook Vote) (vote : Vote) : Bool × VoteBook Vote :=
  match book.mapItems (nItemHash vote) with
  | none =>
    if fromPeer && env.isSynced then
      (false,
        { book with mapOrphanVotes := book.mapOrphanVotes.insert (nItemHash vote) vote })
    else (false, book)
  | some mapVotes =>
    match addOrUpdateVote hashes env.time mapVotes vote with
    | .error _ => (false, book)
    | .ok updated =>
      (true,
        { book with
          mapItems := Function.update book.mapItems (nItemHash vote) (some updated) })

/-- One round of `CheckOrphanVotes`, at the vote under a key. -/
def checkOrphanVote (hashes : BudgetHashes) (env : BudgetEnv Vote) (book : VoteBook Vote)
    (nItemHash : Uint256) : VoteBook Vote :=
  match book.mapOrphanVotes.get? nItemHash with
  | none => book
  | some vote =>
    match book.update hashes env false vote with
    | (true, updated) =>
      { updated with mapOrphanVotes := updated.mapOrphanVotes.erase nItemHash }
    | (false, updated) => updated

/-- The loop of `CheckOrphanVotes` over the votes of a kind. -/
def checkOrphanVotes (hashes : BudgetHashes) (env : BudgetEnv Vote)
    (book : VoteBook Vote) : VoteBook Vote :=
  (book.mapOrphanVotes.entries.map Prod.fst).foldl (checkOrphanVote hashes env) book

/-- `AddProposal` and `AddFinalizedBudget`, of an item without votes. -/
def addItem (env : BudgetEnv Vote) (book : VoteBook Vote) (hash : Uint256) :
    VoteBook Vote :=
  if !env.isValid hash then book
  else if (book.mapItems hash).isSome then book
  else { book with mapItems := Function.update book.mapItems hash (some fun _ => none) }

/-- The `mprop` and `fbs` handlers up to `CheckOrphanVotes`, and whether they come to
that. -/
def processItem (env : BudgetEnv Vote) (book : VoteBook Vote) (hash : Uint256) :
    Bool × VoteBook Vote :=
  if !env.isReady then (false, book)
  else if book.mapSeenItems hash then (false, book)
  else if !env.isBudgetCollateralValid hash then
    (false,
      if env.isConfirmed hash then { book with vecImmature := book.vecImmature ++ [hash] }
      else book)
  else
    let seen := { book with mapSeenItems := Function.update book.mapSeenItems hash true }
    if !env.isValid hash then (false, seen) else (true, seen.addItem env hash)

/-- The `mvote` and `fbvote` handlers. -/
def processVote (hashes : BudgetHashes) (env : BudgetEnv Vote) (book : VoteBook Vote)
    (vote : Vote) : VoteBook Vote :=
  if !env.isReady then book
  else if (book.mapSeenVotes (getHash hashes vote)).isSome then book
  else if !env.knowsMasternode (masternode vote) then book
  else
    let seen :=
      { book with
        mapSeenVotes :=
          Function.update book.mapSeenVotes (getHash hashes vote) (some vote) }
    if !env.signatureValid vote then seen else (seen.update hashes env true vote).2

end VoteBook

structure CBudgetManager where
  proposals : VoteBook CBudgetVote
  finalizedBudgets : VoteBook CFinalizedBudgetVote

/-- A message about the budget arrives, at a node that goes by what it knows of both
kinds. -/
inductive BudgetMessage
  | mprop (env : BudgetEnv CBudgetVote) (other : BudgetEnv CFinalizedBudgetVote)
      (hash : Uint256)
  | mvote (env : BudgetEnv CBudgetVote) (vote : CBudgetVote)
  | fbs (env : BudgetEnv CFinalizedBudgetVote) (other : BudgetEnv CBudgetVote)
      (hash : Uint256)
  | fbvote (env : BudgetEnv CFinalizedBudgetVote) (vote : CFinalizedBudgetVote)

namespace CBudgetManager

/-- `CBudgetManager()`. -/
def empty : CBudgetManager where
  proposals := .empty
  finalizedBudgets := .empty

def checkOrphanVotes (hashes : BudgetHashes) (env : BudgetEnv CBudgetVote)
    (other : BudgetEnv CFinalizedBudgetVote) (manager : CBudgetManager) : CBudgetManager where
  proposals := manager.proposals.checkOrphanVotes hashes env
  finalizedBudgets := manager.finalizedBudgets.checkOrphanVotes hashes other

def processMessage (hashes : BudgetHashes) (manager : CBudgetManager) :
    BudgetMessage → CBudgetManager
  | .mprop env other hash =>
    match manager.proposals.processItem env hash with
    | (true, proposals) =>
      { manager with proposals := proposals }.checkOrphanVotes hashes env other
    | (false, proposals) => { manager with proposals := proposals }
  | .mvote env vote =>
    { manager with proposals := manager.proposals.processVote hashes env vote }
  | .fbs env other hash =>
    match manager.finalizedBudgets.processItem env hash with
    | (true, finalizedBudgets) =>
      { manager with finalizedBudgets := finalizedBudgets }.checkOrphanVotes hashes
        other env
    | (false, finalizedBudgets) => { manager with finalizedBudgets := finalizedBudgets }
  | .fbvote env vote =>
    { manager with
      finalizedBudgets := manager.finalizedBudgets.processVote hashes env vote }

end CBudgetManager

/-- Runs of the budget manager from one message to the next. -/
def budgetSystem (hashes : BudgetHashes) :
    LabelledSystem CBudgetManager BudgetMessage where
  Step manager message next := next = manager.processMessage hashes message

end ColossusCoin
