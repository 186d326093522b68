import ColossusCoin.Chain.BlockTree
import ColossusCoin.Library.KeyedList
import ColossusCoin.Library.SortedMap
import ColossusCoin.Masternode.Entries
import Mathlib.Data.Finset.Basic

/-!
# Blocks in flight

What a node keeps of its peers while it downloads blocks from them: the blocks that it asked a
peer for, where the request of a block stands, and how many requests are for blocks with
validated headers.  An iterator of a list is the position that an element of it was given when
it was inserted; no position is given twice.  Using an iterator whose element is gone, or a null
pointer, has no result.
-/

namespace ColossusCoin

abbrev NodeId := Int

structure QueuedBlock where
  hash : Uint256
  /-- Null when none. -/
  pindex : Option BlockPath
  nTime : Int
  nValidatedQueuedBefore : Int
  fValidatedHeaders : Bool
  deriving DecidableEq, Repr

/-- What a peer connects with, of `CNode`. -/
structure CNode where
  addrName : String
  addr : CService
  deriving DecidableEq, Repr

/-- The fields of `CNodeState` that the bookkeeping of downloads reads or writes. -/
structure CNodeState where
  address : CService
  fCurrentlyConnected : Bool
  nMisbehavior : Int
  name : String
  fSyncStarted : Bool
  nStallingSince : Int
  /-- The blocks, each at its position. -/
  vBlocksInFlight : List (Nat × QueuedBlock)
  nBlocksInFlight : Int
  fPreferredDownload : Bool
  deriving DecidableEq, Repr

/-- `CNodeState()`. -/
def CNodeState.initial : CNodeState where
  address := ⟨"[::]:0", 0⟩
  fCurrentlyConnected := false
  nMisbehavior := 0
  name := ""
  fSyncStarted := false
  nStallingSince := 0
  vBlocksInFlight := []
  nBlocksInFlight := 0
  fPreferredDownload := false

structure COrphanTx where
  tx : CTransaction
  fromPeer : NodeId
  deriving DecidableEq, Repr

/-- The transactions whose inputs are missing. -/
structure OrphanTransactions where
  mapOrphanTransactions : SortedMap Uint256 COrphanTx
  mapOrphanTransactionsByPrev : SortedMap Uint256 (Finset Uint256)

namespace OrphanTransactions

/-- Forget that a transaction spends an output of another one. -/
def erasePrev (hash : Uint256)
    (byPrev : SortedMap Uint256 (Finset Uint256)) (txin : CTxIn) :
    SortedMap Uint256 (Finset Uint256) :=
  match byPrev.get? txin.prevout.hash with
  | none => byPrev
  | some spenders =>
    if spenders.erase hash = ∅ then byPrev.erase txin.prevout.hash
    else byPrev.insert txin.prevout.hash (spenders.erase hash)

def eraseOrphanTx (orphans : OrphanTransactions) (hash : Uint256) : OrphanTransactions :=
  match orphans.mapOrphanTransactions.get? hash with
  | none => orphans
  | some orphan =>
    { mapOrphanTransactions := orphans.mapOrphanTransactions.erase hash
      mapOrphanTransactionsByPrev :=
        orphan.tx.vin.foldl (erasePrev hash) orphans.mapOrphanTransactionsByPrev }

def eraseOrphansFor (orphans : OrphanTransactions) (peer : NodeId) : OrphanTransactions :=
  (orphans.mapOrphanTransactions.entries.filter fun entry => entry.2.fromPeer = peer).foldl
    (fun remaining entry => remaining.eraseOrphanTx entry.2.tx.hash) orphans

end OrphanTransactions

/-- The maps and counters of the downloads, with what else a peer that leaves changes. -/
structure DownloadState where
  mapNodeState : SortedMap NodeId CNodeState
  /-- The peer that a block was asked from, and the position in the list of that peer. -/
  mapBlocksInFlight : SortedMap Uint256 (NodeId × Nat)
  nQueuedValidatedHeaders : Int
  nSyncStarted : Int
  nPreferredDownload : Int
  orphans : OrphanTransactions
  /-- The addresses that `AddressCurrentlyConnected` was called with. -/
  connected : List CService
  /-- The position that the next element of a list is given. -/
  nextPosition : Nat

namespace DownloadState

/-- The state before any peer connects, over some orphan transactions. -/
def initial (orphans : OrphanTransactions) : DownloadState where
  mapNodeState := .empty
  mapBlocksInFlight := .empty
  nQueuedValidatedHeaders := 0
  nSyncStarted := 0
  nPreferredDownload := 0
  orphans := orphans
  connected := []
  nextPosition := 0

/-- `InitializeNode`: the insertion leaves a state that is there already. -/
def initializeNode (state : DownloadState) (nodeid : NodeId) (pnode : CNode) : DownloadState :=
  { state with
    mapNodeState := state.mapNodeState.insert nodeid
      { (state.mapNodeState.get? nodeid).getD .initial with
        name := pnode.addrName
        address := pnode.addr } }

/-- `FinalizeNode`, which uses the state of the peer unchecked. -/
def finalizeNode (state : DownloadState) (nodeid : NodeId) : Option DownloadState :=
  (state.mapNodeState.get? nodeid).map fun peer : CNodeState =>
    { state with
      nSyncStarted := state.nSyncStarted - peer.fSyncStarted.toInt
      connected :=
        if peer.nMisbehavior = 0 ∧ peer.fCurrentlyConnected = true then
          state.connected ++ [peer.address]
        else state.connected
      mapBlocksInFlight :=
        peer.vBlocksInFlight.foldl (fun filed entry => filed.erase entry.2.hash)
          state.mapBlocksInFlight
      orphans := state.orphans.eraseOrphansFor nodeid
      nPreferredDownload := state.nPreferredDownload - peer.fPreferredDownload.toInt
      mapNodeState := state.mapNodeState.erase nodeid }

/-- What `MarkBlockAsReceived` makes of a peer that a block was asked from. -/
def receivedFrom (peer : CNodeState) (position : Nat) : CNodeState :=
  { peer with
    vBlocksInFlight := KeyedList.erase Prod.fst position peer.vBlocksInFlight
    nBlocksInFlight := peer.nBlocksInFlight - 1
    nStallingSince := 0 }

/-- `MarkBlockAsReceived`, with the iterator that the hash is filed under. -/
def markBlockAsReceived (state : DownloadState) (hash : Uint256) : Option DownloadState :=
  match state.mapBlocksInFlight.get? hash with
  | none => some state
  | some (nodeid, position) =>
    match state.mapNodeState.get? nodeid with
    | none => none
    | some peer =>
      (KeyedList.find Prod.fst position peer.vBlocksInFlight).map fun entry =>
        { state with
          nQueuedValidatedHeaders :=
            state.nQueuedValidatedHeaders - entry.2.fValidatedHeaders.toInt
          mapNodeState := state.mapNodeState.insert nodeid (receivedFrom peer position)
          mapBlocksInFlight := state.mapBlocksInFlight.erase hash }

/-- The entry for a block that is asked for now. -/
def newEntry (state : DownloadState) (hash : Uint256) (pindex : Option BlockPath) (nTime : Int) :
    QueuedBlock where
  hash := hash
  pindex := pindex
  nTime := nTime
  nValidatedQueuedBefore := state.nQueuedValidatedHeaders
  fValidatedHeaders := pindex.isSome

/-- A peer with one more block in flight. -/
def askedFor (peer : CNodeState) (position : Nat) (entry : QueuedBlock) : CNodeState :=
  { peer with
    vBlocksInFlight := peer.vBlocksInFlight ++ [(position, entry)]
    nBlocksInFlight := peer.nBlocksInFlight + 1 }

/-- `MarkBlockAsInFlight` after the block is listed nowhere. -/
def recordInFlight (state : DownloadState) (nodeid : NodeId) (entry : QueuedBlock) :
    Option DownloadState :=
  (state.mapNodeState.get? nodeid).map fun peer : CNodeState =>
    { state with
      nQueuedValidatedHeaders := state.nQueuedValidatedHeaders + entry.fValidatedHeaders.toInt
      mapNodeState := state.mapNodeState.insert nodeid (askedFor peer state.nextPosition entry)
      mapBlocksInFlight := state.mapBlocksInFlight.insert entry.hash (nodeid, state.nextPosition)
      nextPosition := state.nextPosition + 1 }

/-- `MarkBlockAsInFlight`, which asserts that the peer is known. -/
def markBlockAsInFlight (state : DownloadState) (nodeid : NodeId) (hash : Uint256)
    (pindex : Option BlockPath) (nTime : Int) : Option DownloadState :=
  if (state.mapNodeState.get? nodeid).isNone then none
  else
    (state.markBlockAsReceived hash).bind fun unlisted =>
      unlisted.recordInFlight nodeid (unlisted.newEntry hash pindex nTime)

end DownloadState

/-- A call of one of the four functions. -/
inductive DownloadCall
  | initializeNode (nodeid : NodeId) (pnode : CNode)
  | finalizeNode (nodeid : NodeId)
  | markBlockAsReceived (hash : Uint256)
  | markBlockAsInFlight (nodeid : NodeId) (hash : Uint256) (pindex : Option BlockPath)
      (nTime : Int)

namespace DownloadState

/-- The state after a call. -/
def afterCall (state : DownloadState) : DownloadCall → Option DownloadState
  | .initializeNode nodeid pnode => some (state.initializeNode nodeid pnode)
  | .finalizeNode nodeid => state.finalizeNode nodeid
  | .markBlockAsReceived hash => state.markBlockAsReceived hash
  | .markBlockAsInFlight nodeid hash pindex nTime =>
    state.markBlockAsInFlight nodeid hash pindex nTime

/-- The state after some calls, from before any peer connected. -/
def afterCalls (orphans : OrphanTransactions) (calls : List DownloadCall) :
    Option DownloadState :=
  calls.foldlM afterCall (initial orphans)

theorem afterCalls_snoc
    (orphans : OrphanTransactions) (past : List DownloadCall) (call : DownloadCall) :
    afterCalls orphans (past ++ [call]) =
      (afterCalls orphans past).bind fun state => state.afterCall call := by
  simp [afterCalls, List.foldlM_append]

end DownloadState

end ColossusCoin
