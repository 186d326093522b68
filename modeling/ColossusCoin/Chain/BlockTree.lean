import ColossusCoin.Primitives.Block
import ColossusCoin.Pow
import Mathlib.Data.List.MinMax
import Mathlib.Data.Prod.Lex

/-!
# The tree of block-index entries

The index of all known blocks, with the failure flags of its entries, the set of
candidates for the tip and the blocks that wait for the data of an ancestor.

An entry is named by the hashes on the way from it down to the genesis block, so that
`pprev` is the tail of a name and the ancestors of an entry are the nonempty suffixes of
its name.  The skip list, the diagnostics of forks and the records of dirty entries are
left out.  Sums of work and counts of transactions are taken without their wrap-around.
-/

namespace ColossusCoin

namespace BlockStatus

/-- `nStatus |= BLOCK_FAILED_VALID`. -/
def setFailedValid (nStatus : BlockStatus) : BlockStatus :=
  { nStatus with failedValid := true }

/-- `nStatus |= BLOCK_FAILED_CHILD`. -/
def setFailedChild (nStatus : BlockStatus) : BlockStatus :=
  { nStatus with failedChild := true }

/-- `nStatus &= ~BLOCK_FAILED_MASK`. -/
def clearFailed (nStatus : BlockStatus) : BlockStatus :=
  { nStatus with failedValid := false, failedChild := false }

end BlockStatus

/-- A block-index entry: its hash, then those of its ancestors. -/
abbrev BlockPath := List Uint256

namespace BlockPath

def getAncestor (pindex : BlockPath) (height : Nat) : Option BlockPath :=
  if pindex.length ≤ height then none
  else some (pindex.drop (pindex.length - (height + 1)))

end BlockPath

/-- The fields of `CBlockIndex` that the choice of the best chain reads. -/
structure BlockTreeEntry where
  /-- Where the entry was allocated. -/
  address : Nat
  nChainWork : Nat
  nTx : Nat
  nChainTx : Nat
  nSequenceId : Nat
  nStatus : BlockStatus
  deriving DecidableEq, Repr

namespace BlockTreeEntry

/-- `CBlockIndexWorkComparator`. -/
def workComparator (pa pb : BlockTreeEntry) : Bool :=
  if pb.nChainWork < pa.nChainWork then false
  else if pa.nChainWork < pb.nChainWork then true
  else if pa.nSequenceId < pb.nSequenceId then false
  else if pb.nSequenceId < pa.nSequenceId then true
  else if pa.address < pb.address then false
  else if pb.address < pa.address then true
  else false

/-- The key that the comparator orders by: more work is better, then an earlier sequence
id, then a lower address. -/
def workKey (entry : BlockTreeEntry) : Nat ×ₗ Natᵒᵈ ×ₗ Natᵒᵈ :=
  toLex (entry.nChainWork,
    toLex (OrderDual.toDual entry.nSequenceId, OrderDual.toDual entry.address))

theorem workComparator_iff (pa pb : BlockTreeEntry) :
    pa.workComparator pb ↔ pa.workKey < pb.workKey := by
  simp only [workComparator, workKey, Prod.Lex.toLex_lt_toLex, OrderDual.toDual_lt_toDual,
    OrderDual.toDual_inj]
  split_ifs <;> simp <;> omega

variable {pa pb : BlockTreeEntry}

theorem nChainWork_le_of_workKey_le
    (notBetter : pa.workKey ≤ pb.workKey) :
    pa.nChainWork ≤ pb.nChainWork := by
  simp only [workKey, Prod.Lex.toLex_le_toLex] at notBetter
  omega

theorem workKey_lt_of_nChainWork_lt
    (lessWork : pa.nChainWork < pb.nChainWork) :
    pa.workKey < pb.workKey := by
  simp only [workKey, Prod.Lex.toLex_lt_toLex]
  exact .inl lessWork

/-- Entries of different addresses never compare equal. -/
theorem address_eq_of_workKey_eq
    (sameKey : pa.workKey = pb.workKey) :
    pa.address = pb.address := by
  simp only [workKey, toLex_inj, Prod.mk.injEq, OrderDual.toDual_inj] at sameKey
  exact sameKey.2.2

end BlockTreeEntry

/-- The globals of the block index: `mapBlockIndex` (by the names of its entries),
`setBlockIndexCandidates`, the second components of `mapBlocksUnlinked` (the first ones
are their parents), `nBlockSequenceId`, and `chainActive` by its tip. -/
structure BlockTree where
  mapBlockIndex : List BlockPath
  entry : BlockPath → BlockTreeEntry
  setBlockIndexCandidates : List BlockPath
  mapBlocksUnlinked : List BlockPath
  nBlockSequenceId : Nat
  chainActive : BlockPath

namespace BlockTree

/-- The key by which the set of candidates is ordered. -/
def workKey (tree : BlockTree) (pindex : BlockPath) : Nat ×ₗ Natᵒᵈ ×ₗ Natᵒᵈ :=
  (tree.entry pindex).workKey

/-- `setBlockIndexCandidates.value_comp()`. -/
def valueComp (tree : BlockTree) (pa pb : BlockPath) : Bool :=
  (tree.entry pa).workComparator (tree.entry pb)

/-- `chainActive.Contains`. -/
def chainContains (tree : BlockTree) (pindex : BlockPath) : Bool :=
  pindex != [] && pindex.isSuffixOf tree.chainActive

/-- `mapBlockIndex.find`. -/
def find (tree : BlockTree) (hash : Uint256) : Option BlockPath :=
  tree.mapBlockIndex.find? fun pindex => pindex.head? == some hash

/-- Change one entry. -/
def modifyEntry (tree : BlockTree) (pindex : BlockPath)
    (change : BlockTreeEntry → BlockTreeEntry) : BlockTree :=
  { tree with entry := Function.update tree.entry pindex (change (tree.entry pindex)) }

/-- Change the status of one entry. -/
def modifyStatus (tree : BlockTree) (pindex : BlockPath)
    (change : BlockStatus → BlockStatus) : BlockTree :=
  tree.modifyEntry pindex fun entry => { entry with nStatus := change entry.nStatus }

/-- `setBlockIndexCandidates.insert`. -/
def insertCandidate (tree : BlockTree) (pindex : BlockPath) : BlockTree :=
  { tree with setBlockIndexCandidates := tree.setBlockIndexCandidates.insert pindex }

/-- `setBlockIndexCandidates.erase`. -/
def eraseCandidate (tree : BlockTree) (pindex : BlockPath) : BlockTree :=
  { tree with
    setBlockIndexCandidates := tree.setBlockIndexCandidates.filter (· != pindex) }

/-- The entry that `AddToBlockIndex` makes for a header over `pprev`. -/
def newEntry (tree : BlockTree) (header : CBlockHeader) (pprev : BlockPath)
    (address : Nat) : BlockTreeEntry where
  address := address
  nChainWork :=
    (if pprev = [] then 0 else (tree.entry pprev).nChainWork) + getBlockProof header.nBits
  nTx := 0
  nChainTx := 0
  nSequenceId := 0
  nStatus := ⟨blockValidTree, false, false, false, false⟩

/-- `AddToBlockIndex`, which allocates the entry at an address. -/
def addToBlockIndex (tree : BlockTree) (header : CBlockHeader) (address : Nat) :
    BlockTree :=
  match tree.find header.hash with
  | some _ => tree
  | none =>
    let pprev := (tree.find header.hashPrevBlock).getD []
    { tree with
      mapBlockIndex := (header.hash :: pprev) :: tree.mapBlockIndex
      entry := Function.update tree.entry (header.hash :: pprev)
        (tree.newEntry header pprev address) }

/-- `nChainTx` of an entry's parent; the genesis block counts from nothing. -/
def parentChainTx (tree : BlockTree) (pindex : BlockPath) : Nat :=
  if pindex.tail = [] then 0 else (tree.entry pindex.tail).nChainTx

/-- The next sequence id and the count of transactions for an entry whose parents have
their data; the entries that wait for it leave `mapBlocksUnlinked`. -/
def numberEntry (tree : BlockTree) (pindex : BlockPath) : BlockTree :=
  { tree.modifyEntry pindex fun entry =>
      { entry with
        nChainTx := tree.parentChainTx pindex + entry.nTx
        nSequenceId := tree.nBlockSequenceId } with
    nBlockSequenceId := tree.nBlockSequenceId + 1
    mapBlocksUnlinked := tree.mapBlocksUnlinked.filter (·.tail != pindex) }

/-- One round of the loop in `ReceivedBlockTransactions`: unless the entry is worse than
the tip, it becomes a candidate. -/
def linkEntry (tree : BlockTree) (pindex : BlockPath) : BlockTree :=
  if (tree.numberEntry pindex).chainActive = [] ∨
      (tree.numberEntry pindex).valueComp pindex (tree.numberEntry pindex).chainActive = false
  then (tree.numberEntry pindex).insertCandidate pindex
  else tree.numberEntry pindex

/-- The loop over the queue in `ReceivedBlockTransactions`.  Each round takes one entry
off the queue and moves those that wait for it there from `mapBlocksUnlinked`. -/
def linkLoop : Nat → List BlockPath → BlockTree → BlockTree
  | 0, _, tree => tree
  | _, [], tree => tree
  | fuel + 1, pindex :: queue, tree =>
    linkLoop fuel (queue ++ tree.mapBlocksUnlinked.filter (·.tail == pindex))
      (tree.linkEntry pindex)

/-- The data of an entry is recorded, before its parents are looked at. -/
def recordData (tree : BlockTree) (pindexNew : BlockPath) (nTx : Nat) : BlockTree :=
  tree.modifyEntry pindexNew fun entry =>
    { entry with
      nTx := nTx
      nChainTx := 0
      nStatus :=
        { entry.nStatus with haveData := true }.raiseValidity blockValidTransactions }

/-- `ReceivedBlockTransactions`, for a block of `nTx` transactions. -/
def receivedBlockTransactions (tree : BlockTree) (pindexNew : BlockPath) (nTx : Nat) :
    BlockTree :=
  let recorded := tree.recordData pindexNew nTx
  let pprev := pindexNew.tail
  if pprev = [] ∨ (recorded.entry pprev).nChainTx ≠ 0 then
    linkLoop (recorded.mapBlocksUnlinked.length + 1) [pindexNew] recorded
  else if (recorded.entry pprev).nStatus.isValid blockValidTree then
    { recorded with mapBlocksUnlinked := recorded.mapBlocksUnlinked ++ [pindexNew] }
  else recorded

/-- What the walk of `FindMostWorkChain` from a candidate down to the active chain
finds. -/
inductive CandidatePath
  | usable
  | unusable (pindexTest : BlockPath)
  | assertFails
  deriving DecidableEq

/-- The walk itself. -/
def testCandidate (tree : BlockTree) : BlockPath → CandidatePath
  | [] => .usable
  | hash :: pprev =>
    if tree.chainContains (hash :: pprev) then .usable
    else if (tree.entry (hash :: pprev)).nChainTx = 0 ∧ pprev ≠ [] then .assertFails
    else if (tree.entry (hash :: pprev)).nStatus.failed ||
        !(tree.entry (hash :: pprev)).nStatus.haveData then .unusable (hash :: pprev)
    else tree.testCandidate pprev

/-- Remove one entry above an unusable one: it is marked, or waits for the data. -/
def removeDescendant (fFailedChain : Bool) (pindexFailed : BlockPath)
    (tree : BlockTree) : BlockTree :=
  (if fFailedChain then
      tree.modifyStatus pindexFailed BlockStatus.setFailedChild
    else { tree with mapBlocksUnlinked := tree.mapBlocksUnlinked ++ [pindexFailed] }
  ).eraseCandidate pindexFailed

/-- Remove the entire chain from a candidate down to an unusable entry. -/
def removeChain (fFailedChain : Bool) (pindexTest : BlockPath) :
    BlockPath → BlockTree → BlockTree
  | [], tree => tree
  | hash :: pprev, tree =>
    if hash :: pprev = pindexTest then tree.eraseCandidate pindexTest
    else
      removeChain fFailedChain pindexTest pprev
        (tree.removeDescendant fFailedChain (hash :: pprev))

/-- The loop of `FindMostWorkChain`; each round but the last removes the best
candidate. -/
def findMostWorkLoop : Nat → BlockTree → Option (Option BlockPath × BlockTree)
  | 0, _ => none
  | fuel + 1, tree =>
    match tree.setBlockIndexCandidates.argmax tree.workKey with
    | none => some (none, tree)
    | some pindexNew =>
      match tree.testCandidate pindexNew with
      | .usable => some (some pindexNew, tree)
      | .unusable pindexTest =>
        findMostWorkLoop fuel
          (tree.removeChain (tree.entry pindexTest).nStatus.failed pindexTest pindexNew)
      | .assertFails => none

/-- `FindMostWorkChain`, `none` where its assertion fails. -/
def findMostWorkChain (tree : BlockTree) : Option (Option BlockPath × BlockTree) :=
  findMostWorkLoop (tree.setBlockIndexCandidates.length + 1) tree

/-- `PruneBlockIndexCandidates`, without its assertion.  The set is ordered, so that the
loop stops after the last entry that is worse than the tip. -/
def pruneBlockIndexCandidates (tree : BlockTree) : BlockTree :=
  { tree with
    setBlockIndexCandidates :=
      tree.setBlockIndexCandidates.filter fun pindex =>
        !tree.valueComp pindex tree.chainActive }

def invalidBlockFound (tree : BlockTree) (pindex : BlockPath)
    (fCorruptionPossible : Bool) : BlockTree :=
  if fCorruptionPossible then tree
  else (tree.modifyStatus pindex BlockStatus.setFailedValid).eraseCandidate pindex

/-- The index after `ConnectTip` connected a block: `ConnectBlock` raised its validity and
`UpdateTip` made it the tip. -/
def connectedTip (tree : BlockTree) (pindexNew : BlockPath) : BlockTree :=
  { tree.modifyStatus pindexNew fun nStatus =>
      { nStatus with haveUndo := true }.raiseValidity blockValidScripts with
    chainActive := pindexNew }

/-- The loop of `InvalidateBlock`: tips are marked and disconnected for as long as the
active chain contains the block.  `disconnects` says which calls of `DisconnectTip`
succeed; the genesis block has no undo data, so that disconnecting it fails. -/
def disconnectDownTo (disconnects : BlockPath → Bool) (pindex : BlockPath) :
    BlockPath → BlockTree → Bool × BlockTree
  | [], tree => (true, tree)
  | hash :: pprev, tree =>
    if pindex.isSuffixOf (hash :: pprev) then
      let marked :=
        (tree.modifyStatus (hash :: pprev) BlockStatus.setFailedChild
          ).eraseCandidate (hash :: pprev)
      if pprev != [] && disconnects (hash :: pprev) then
        disconnectDownTo disconnects pindex pprev { marked with chainActive := pprev }
      else (false, marked)
    else (true, tree)

/-- What `InvalidateBlock` adds to the candidates again. -/
def readmitted (tree : BlockTree) (pindex : BlockPath) : Bool :=
  (tree.entry pindex).nStatus.isValid blockValidTransactions &&
    (tree.entry pindex).nChainTx != 0 && !tree.valueComp pindex tree.chainActive

/-- Insert every entry of the index with a property into the candidates. -/
def insertCandidates (tree : BlockTree) (chosen : BlockPath → Bool) : BlockTree :=
  { tree with
    setBlockIndexCandidates :=
      tree.setBlockIndexCandidates ∪ tree.mapBlockIndex.filter chosen }

/-- `InvalidateBlock`, with its return value. -/
def invalidateBlock (tree : BlockTree) (pindex : BlockPath)
    (disconnects : BlockPath → Bool) : Bool × BlockTree :=
  let marked := (tree.modifyStatus pindex BlockStatus.setFailedValid).eraseCandidate pindex
  match disconnectDownTo disconnects pindex marked.chainActive marked with
  | (false, stopped) => (false, stopped)
  | (true, disconnected) => (true, disconnected.insertCandidates disconnected.readmitted)

/-- Clear the failure flags of every entry with a property. -/
def clearFailed (tree : BlockTree) (chosen : BlockPath → Bool) : BlockTree :=
  { tree with
    entry := fun pindex =>
      if chosen pindex then
        { tree.entry pindex with nStatus := (tree.entry pindex).nStatus.clearFailed }
      else tree.entry pindex }

/-- The entries that the first loop of `ReconsiderBlock` treats: invalid ones of which
`pindex` is an ancestor. -/
def reconsidered (tree : BlockTree) (pindex it : BlockPath) : Bool :=
  it ∈ tree.mapBlockIndex && !(tree.entry it).nStatus.isValid blockValidTransactions &&
    it.getAncestor (pindex.length - 1) == some pindex

/-- `ReconsiderBlock`.  What its first loop does at one entry reads nothing that it
changes at another. -/
def reconsiderBlock (tree : BlockTree) (pindex : BlockPath) : BlockTree :=
  let cleared := tree.clearFailed (tree.reconsidered pindex)
  let inserted := cleared.insertCandidates fun it =>
    tree.reconsidered pindex it &&
      (cleared.entry it).nStatus.isValid blockValidTransactions &&
      (cleared.entry it).nChainTx != 0 && cleared.valueComp cleared.chainActive it
  inserted.clearFailed fun it => it != [] && it.isSuffixOf pindex

end BlockTree

end ColossusCoin
