import ColossusCoin.Library.SortedMap
import ColossusCoin.Primitives.Transaction

/-!
# Transaction locks

Requests to lock a transaction, the consensus votes of masternodes for them, and the
inputs that complete locks reserve.  A node decides about requests and votes by what it
knows when they arrive: its clock, its chain, the masternodes and their ranks, and its
verdicts on transactions and signatures.  Relaying, notifications, the reprocessing of
blocks and the wallet's counters are left out, and with them the record of unknown votes,
which decides about relaying only.
-/

namespace ColossusCoin

def swiftTxSignaturesRequired : Nat := 6

def swiftTxSignaturesTotal : Nat := 10

structure CConsensusVote where
  vinMasternode : CTxIn
  txHash : Uint256
  nBlockHeight : Int
  vchMasterNodeSignature : List UInt8
  deriving DecidableEq, Repr

/-- `CConsensusVote::GetHash`, a sum of 256-bit numbers. -/
def CConsensusVote.getHash (vote : CConsensusVote) : Uint256 :=
  (vote.vinMasternode.prevout.hash + vote.vinMasternode.prevout.n + vote.txHash) % 2 ^ 256

structure CTransactionLock where
  nBlockHeight : Int
  txHash : Uint256
  vecConsensusVotes : List CConsensusVote
  nExpiration : Int
  nTimeout : Int
  deriving DecidableEq, Repr

namespace CTransactionLock

def addSignature (lock : CTransactionLock) (vote : CConsensusVote) : CTransactionLock :=
  { lock with vecConsensusVotes := lock.vecConsensusVotes ++ [vote] }

/-- The votes that count: those for the height of the lock. -/
def countedVotes (lock : CTransactionLock) : List CConsensusVote :=
  lock.vecConsensusVotes.filter fun vote => vote.nBlockHeight == lock.nBlockHeight

def countSignatures (lock : CTransactionLock) : Int :=
  if lock.nBlockHeight = 0 then -1 else lock.countedVotes.length

end CTransactionLock

/-- What a node goes by when a message arrives. -/
structure SwiftTxEnv where
  fLiteMode : Bool
  /-- `IsSporkActive(SPORK_2_SWIFTTX)`. -/
  fSwiftTxActive : Bool
  isBlockchainSynced : Bool
  /-- A fork with much work, valid or not, was found. -/
  fLargeWorkForkFound : Bool
  /-- `GetTime`. -/
  time : Int
  /-- The height of the tip of the active chain. -/
  tipHeight : Int
  /-- `nHeight` of the coins of a transaction, in the chain state or the memory pool. -/
  coinsHeight : Uint256 → Option Int
  isIXTXValid : CTransaction → Bool
  /-- All outputs have normal payment scripts or unspendable ones. -/
  hasNormalScripts : CTransaction → Bool
  /-- `AcceptToMemoryPool`. -/
  acceptToMemoryPool : CTransaction → Bool
  /-- The collaterals of the masternodes by falling score, `none` where the block of the
  height is not known. -/
  masternodeScores : Int → Option (List COutPoint)
  /-- `SignatureValid` of a vote. -/
  signatureValid : CConsensusVote → Bool
  /-- The node's own masternode, if it runs one. -/
  activeMasternode : Option CTxIn
  /-- `Sign`, for a transaction and a height. -/
  sign : Uint256 → Int → Option (List UInt8)

namespace SwiftTxEnv

def getInputAge (env : SwiftTxEnv) (txin : CTxIn) : Int :=
  match env.coinsHeight txin.prevout.hash with
  | none => -1
  | some nHeight => if nHeight < 0 then 0 else env.tipHeight + 1 - nHeight

/-- The loop of `GetMasternodeRank`, from a rank on. -/
def findRank (prevout : COutPoint) : List COutPoint → Int → Int
  | [], _ => -1
  | collateral :: rest, rank =>
    if collateral = prevout then rank + 1 else findRank prevout rest (rank + 1)

def getMasternodeRank (env : SwiftTxEnv) (vin : CTxIn) (nBlockHeight : Int) : Int :=
  match env.masternodeScores nBlockHeight with
  | none => -1
  | some collaterals => findRank vin.prevout collaterals 0

/-- The masternode of a vote is ranked high enough at the height of the vote, and its
signature is valid. -/
def votesValidly (env : SwiftTxEnv) (vote : CConsensusVote) : Bool :=
  let n := env.getMasternodeRank vote.vinMasternode vote.nBlockHeight
  n != -1 && n ≤ swiftTxSignaturesTotal && env.signatureValid vote

/-- The loop of `CreateNewLock` over the inputs, last one first; `none` where an input is
too new.  The age of the input visited last is left. -/
def lockAge (env : SwiftTxEnv) : List CTxIn → Int → Option Int
  | [], nTxAge => some nTxAge
  | txin :: rest, _ =>
    if env.getInputAge txin < 5 then none else env.lockAge rest (env.getInputAge txin)

/-- The height that `CreateNewLock` computes for a transaction. -/
def lockHeight (env : SwiftTxEnv) (tx : CTransaction) : Option Int :=
  (env.lockAge tx.vin.reverse 0).map fun nTxAge => env.tipHeight - nTxAge + 4

end SwiftTxEnv

/-- The globals of SwiftX. -/
structure SwiftTxState where
  mapTxLockReq : Uint256 → Option CTransaction
  mapTxLockReqRejected : Uint256 → Option CTransaction
  mapTxLockVote : Uint256 → Option CConsensusVote
  mapTxLocks : SortedMap Uint256 CTransactionLock
  mapLockedInputs : COutPoint → Option Uint256

/-- `CTransaction()`. -/
def emptyTransaction : CTransaction where
  hash := 0
  nVersion := 1
  vin := []
  vout := []
  nLockTime := 0

namespace SwiftTxState

/-- No request was seen yet. -/
def empty : SwiftTxState where
  mapTxLockReq _ := none
  mapTxLockReqRejected _ := none
  mapTxLockVote _ := none
  mapTxLocks := .empty
  mapLockedInputs _ := none

/-- `std::map::insert`, which keeps a value that is there. -/
def insertNew {Key Value : Type*} [DecidableEq Key] (map : Key → Option Value) (key : Key)
    (value : Value) : Key → Option Value :=
  if (map key).isSome then map else Function.update map key (some value)

def getTransactionLockSignatures (env : SwiftTxEnv) (state : SwiftTxState)
    (txHash : Uint256) : Int :=
  if env.fLargeWorkForkFound then -2
  else if !env.fSwiftTxActive then -1
  else
    match state.mapTxLocks.get? txHash with
    | none => -1
    | some lock => lock.countSignatures

/-- Put a lock at a height, a new one where there is none. -/
def setLockHeight (env : SwiftTxEnv) (state : SwiftTxState) (txHash : Uint256)
    (nBlockHeight : Int) : SwiftTxState :=
  { state with
    mapTxLocks := state.mapTxLocks.insert txHash
      (match state.mapTxLocks.get? txHash with
      | some lock => { lock with nBlockHeight := nBlockHeight }
      | none =>
        { nBlockHeight := nBlockHeight
          txHash := txHash
          vecConsensusVotes := []
          nExpiration := env.time + 60 * 60
          nTimeout := env.time + 60 * 5 }) }

def createNewLock (env : SwiftTxEnv) (state : SwiftTxState) (tx : CTransaction) :
    Int × SwiftTxState :=
  match env.lockHeight tx with
  | none => (0, state)
  | some nBlockHeight => (nBlockHeight, state.setLockHeight env tx.hash nBlockHeight)

def doConsensusVote (env : SwiftTxEnv) (state : SwiftTxState) (tx : CTransaction)
    (nBlockHeight : Int) : SwiftTxState :=
  match env.activeMasternode with
  | none => state
  | some vin =>
    let n := env.getMasternodeRank vin nBlockHeight
    if n = -1 ∨ (swiftTxSignaturesTotal : Int) < n then state
    else
      match env.sign tx.hash nBlockHeight with
      | none => state
      | some signature =>
        let ctx : CConsensusVote := ⟨vin, tx.hash, nBlockHeight, signature⟩
        if env.signatureValid ctx then
          { state with
            mapTxLockVote :=
              Function.update state.mapTxLockVote ctx.getHash (some ctx) }
        else state

/-- Lock the inputs that are not locked yet. -/
def lockInputs (state : SwiftTxState) (txHash : Uint256) (vin : List CTxIn) :
    SwiftTxState :=
  { state with
    mapLockedInputs :=
      vin.foldl (fun locked txin => insertNew locked txin.prevout txHash)
        state.mapLockedInputs }

/-- An input is locked for another transaction. -/
def conflictingInput (state : SwiftTxState) (tx : CTransaction) : Option Uint256 :=
  tx.vin.findSome? fun txin =>
    (state.mapLockedInputs txin.prevout).filter fun locked => locked != tx.hash

/-- Let a lock expire now. -/
def expireLock (env : SwiftTxEnv) (state : SwiftTxState) (txHash : Uint256) :
    SwiftTxState :=
  match state.mapTxLocks.get? txHash with
  | none => state
  | some lock =>
    { state with
      mapTxLocks := state.mapTxLocks.insert txHash { lock with nExpiration := env.time } }

def checkForConflictingLocks (env : SwiftTxEnv) (state : SwiftTxState) (tx : CTransaction) :
    Bool × SwiftTxState :=
  match state.conflictingInput tx with
  | none => (false, state)
  | some locked => (true, (state.expireLock env tx.hash).expireLock env locked)

/-- A lock holds as many signatures as are required. -/
def isComplete (state : SwiftTxState) (txHash : Uint256) : Bool :=
  match state.mapTxLocks.get? txHash with
  | none => false
  | some lock => swiftTxSignaturesRequired ≤ lock.countSignatures

/-- The rest of the `ix` handler for a request that the memory pool rejected. -/
def rejectRequest (env : SwiftTxEnv) (state : SwiftTxState) (tx : CTransaction) :
    SwiftTxState :=
  let rejected :=
    { state with mapTxLockReqRejected := insertNew state.mapTxLockReqRejected tx.hash tx }
  let locked := rejected.lockInputs tx.hash tx.vin
  if locked.isComplete tx.hash then
    match locked.checkForConflictingLocks env tx with
    | (true, resolved) => resolved
    | (false, resolved) =>
      { resolved with mapTxLockReq := insertNew resolved.mapTxLockReq tx.hash tx }
  else locked

/-- The `ix` handler. -/
def processLockRequest (env : SwiftTxEnv) (state : SwiftTxState) (tx : CTransaction) :
    SwiftTxState :=
  if (state.mapTxLockReq tx.hash).isSome || (state.mapTxLockReqRejected tx.hash).isSome then
    state
  else if !env.isIXTXValid tx || !env.hasNormalScripts tx then state
  else
    match state.createNewLock env tx with
    | (nBlockHeight, created) =>
      if env.acceptToMemoryPool tx then
        let voted := created.doConsensusVote env tx nBlockHeight
        { voted with mapTxLockReq := insertNew voted.mapTxLockReq tx.hash tx }
      else created.rejectRequest env tx

/-- What `RelayWalletTransaction` and `sendrawtransaction` do to lock a transaction of the
node's own. -/
def relayLockRequest (env : SwiftTxEnv) (state : SwiftTxState) (tx : CTransaction) :
    SwiftTxState :=
  ({ state with
      mapTxLockReq := insertNew state.mapTxLockReq tx.hash tx }.createNewLock env tx).2

/-- Add a vote to the lock of its transaction, a new one of no height where there is
none. -/
def addVote (env : SwiftTxEnv) (state : SwiftTxState) (ctx : CConsensusVote) :
    SwiftTxState :=
  { state with
    mapTxLocks := state.mapTxLocks.insert ctx.txHash
      (match state.mapTxLocks.get? ctx.txHash with
      | some lock => lock.addSignature ctx
      | none =>
        { nBlockHeight := 0
          txHash := ctx.txHash
          vecConsensusVotes := [ctx]
          nExpiration := env.time + 60 * 60
          nTimeout := env.time + 60 * 5 }) }

/-- What `ProcessConsensusVote` does for a complete lock.  `mapTxLockReq[ctx.txHash]`
makes an empty request where there is none. -/
def completeLock (env : SwiftTxEnv) (state : SwiftTxState) (txHash : Uint256) :
    SwiftTxState :=
  let requested :=
    { state with mapTxLockReq := insertNew state.mapTxLockReq txHash emptyTransaction }
  let tx := (requested.mapTxLockReq txHash).getD emptyTransaction
  match requested.checkForConflictingLocks env tx with
  | (true, resolved) => resolved
  | (false, resolved) => resolved.lockInputs txHash tx.vin

/-- `ProcessConsensusVote`, for its effect. -/
def processConsensusVote (env : SwiftTxEnv) (state : SwiftTxState) (ctx : CConsensusVote) :
    SwiftTxState :=
  if env.votesValidly ctx then
    let added := state.addVote env ctx
    if added.isComplete ctx.txHash then added.completeLock env ctx.txHash else added
  else state

/-- The `txlvote` handler. -/
def processVoteMessage (env : SwiftTxEnv) (state : SwiftTxState) (ctx : CConsensusVote) :
    SwiftTxState :=
  if (state.mapTxLockVote ctx.getHash).isSome then state
  else
    { state with
      mapTxLockVote := Function.update state.mapTxLockVote ctx.getHash (some ctx)
    }.processConsensusVote env ctx

/-- Erase keys of a map. -/
def eraseAll {Key Value : Type*} [DecidableEq Key] (map : Key → Option Value)
    (keys : List Key) : Key → Option Value :=
  fun key => if key ∈ keys then none else map key

/-- Forget the request of an expired lock, with the inputs and the votes it holds. -/
def forgetRequest (state : SwiftTxState) (lock : CTransactionLock) : SwiftTxState :=
  match state.mapTxLockReq lock.txHash with
  | none => state
  | some tx =>
    { state with
      mapLockedInputs := eraseAll state.mapLockedInputs (tx.vin.map CTxIn.prevout)
      mapTxLockReq := Function.update state.mapTxLockReq lock.txHash none
      mapTxLockReqRejected :=
        Function.update state.mapTxLockReqRejected lock.txHash none
      mapTxLockVote :=
        eraseAll state.mapTxLockVote (lock.vecConsensusVotes.map CConsensusVote.getHash) }

/-- One round of `CleanTransactionLocksList`, at the lock under a key. -/
def cleanLock (env : SwiftTxEnv) (state : SwiftTxState) (txHash : Uint256) :
    SwiftTxState :=
  match state.mapTxLocks.get? txHash with
  | none => state
  | some lock =>
    if lock.nExpiration < env.time then
      { state.forgetRequest lock with mapTxLocks := state.mapTxLocks.erase txHash }
    else state

def cleanTransactionLocksList (env : SwiftTxEnv) (state : SwiftTxState) : SwiftTxState :=
  (state.mapTxLocks.entries.map Prod.fst).foldl (cleanLock env) state

end SwiftTxState

/-- What happens to a node: a message arrives, the node requests a lock itself, or the
locks are cleaned up.  Blocks change what the node goes by from one step to the next. -/
inductive SwiftTxAction
  | ix (env : SwiftTxEnv) (tx : CTransaction)
  | txlvote (env : SwiftTxEnv) (ctx : CConsensusVote)
  | relayLockRequest (env : SwiftTxEnv) (tx : CTransaction)
  | cleanTransactionLocksList (env : SwiftTxEnv)

namespace SwiftTxAction

/-- `ProcessMessageSwiftTX` does nothing before the node is ready for it. -/
def isReady (env : SwiftTxEnv) : Bool :=
  !env.fLiteMode && env.fSwiftTxActive && env.isBlockchainSynced

/-- The state after an action. -/
def apply (state : SwiftTxState) : SwiftTxAction → SwiftTxState
  | ix env tx => if isReady env then state.processLockRequest env tx else state
  | txlvote env ctx => if isReady env then state.processVoteMessage env ctx else state
  | relayLockRequest env tx => state.relayLockRequest env tx
  | cleanTransactionLocksList env => state.cleanTransactionLocksList env

end SwiftTxAction

end ColossusCoin
