import ColossusCoin.Chain.FailureFlags

/-!
# Runs of the block index

The operations on the block index in any order, each called as its callers call it.  From
an index that satisfies the invariant, every run keeps failure flags and candidates
consistent as long as the disconnects of `InvalidateBlock` succeed and `ReconsiderBlock`
is not asked to clear flags that other branches depend on.
-/

namespace ColossusCoin

open LabelledSystem BlockTree

/-- An operation on the block index. -/
inductive IndexAction
  | addToBlockIndex (header : CBlockHeader) (address : Nat)
  | receivedBlockTransactions (pindexNew : BlockPath) (nTx : Nat)
  | findMostWorkChain
  | invalidBlockFound (pindex : BlockPath) (fCorruptionPossible : Bool)
  /-- `ConnectTip` and `PruneBlockIndexCandidates` after it. -/
  | connectTip (pindexNew : BlockPath)
  | invalidateBlock (pindex : BlockPath) (disconnects : BlockPath → Bool)
  | reconsiderBlock (pindex : BlockPath)

namespace IndexAction

/-- The index after an operation, `none` where an assertion fails. -/
def apply (tree : BlockTree) : IndexAction → Option BlockTree
  | addToBlockIndex header address => some (tree.addToBlockIndex header address)
  | receivedBlockTransactions pindexNew nTx =>
    some (tree.receivedBlockTransactions pindexNew nTx)
  | findMostWorkChain => tree.findMostWorkChain.map Prod.snd
  | invalidBlockFound pindex fCorruptionPossible =>
    some (tree.invalidBlockFound pindex fCorruptionPossible)
  | connectTip pindexNew => some (tree.connectedTip pindexNew).pruneBlockIndexCandidates
  | invalidateBlock pindex disconnects => some (tree.invalidateBlock pindex disconnects).2
  | reconsiderBlock pindex => some (tree.reconsiderBlock pindex)

/-- What the callers check before an operation.  `AcceptBlockHeader` asks for a known
parent, and `CheckWork` for bits that stand for some work; `AcceptBlock` stores the data of
an unmarked block once; blocks are connected over the tip. -/
def Called (tree : BlockTree) : IndexAction → Prop
  | addToBlockIndex header address =>
    (∃ pprev, tree.find header.hashPrevBlock = some pprev ∧
      (tree.entry pprev).nStatus.failed = false) ∧
    getBlockProof header.nBits ≠ 0 ∧
    ∀ other ∈ tree.mapBlockIndex, (tree.entry other).address ≠ address
  | receivedBlockTransactions pindexNew nTx =>
    pindexNew ∈ tree.mapBlockIndex ∧ pindexNew.tail ≠ [] ∧
    (tree.entry pindexNew).nStatus.haveData = false ∧
    (tree.entry pindexNew).nStatus.failed = false ∧
    (tree.entry pindexNew.tail).nStatus.failed = false ∧ nTx ≠ 0
  | findMostWorkChain => True
  | invalidBlockFound pindex _ =>
    pindex ∈ tree.mapBlockIndex ∧ pindex.tail = tree.chainActive
  | connectTip pindexNew =>
    pindexNew ∈ tree.mapBlockIndex ∧ pindexNew.tail = tree.chainActive ∧
    (tree.entry pindexNew).nStatus.failed = false ∧
    (tree.entry pindexNew).nChainTx ≠ 0
  | invalidateBlock pindex _ => pindex ∈ tree.mapBlockIndex
  | reconsiderBlock pindex => pindex ∈ tree.mapBlockIndex

/-- The condition under which an operation keeps flags and candidates consistent. -/
def KeepsFlags (tree : BlockTree) : IndexAction → Prop
  | invalidateBlock pindex disconnects => DisconnectsSucceed tree pindex disconnects
  | reconsiderBlock pindex => Reconsiderable tree pindex
  | _ => True

end IndexAction

/-- The block index under any sequence of operations. -/
def blockIndexSystem : LabelledSystem BlockTree IndexAction where
  Step tree action next := action.Called tree ∧ action.apply tree = some next

/-- The block index under operations that meet the condition. -/
def carefulIndexSystem : LabelledSystem BlockTree IndexAction where
  Step tree action next := blockIndexSystem.Step tree action next ∧ action.KeepsFlags tree

/-- What one operation preserves. -/
theorem BlockTree.IndexInvariant.step
    {tree next : BlockTree}
    {action : IndexAction}
    (invariant : tree.IndexInvariant)
    (step : carefulIndexSystem.Step tree action next) :
    next.IndexInvariant := by
  obtain ⟨⟨called, applied⟩, keeps⟩ := step
  cases action with
  | addToBlockIndex header address =>
    obtain ⟨⟨pprev, parentKnown, -⟩, proof, fresh⟩ := called
    cases applied
    exact invariant.addToBlockIndex parentKnown proof fresh
  | receivedBlockTransactions pindexNew nTx =>
    obtain ⟨known, notGenesis, noData, valid, -, -⟩ := called
    cases applied
    exact invariant.receivedBlockTransactions known notGenesis noData valid nTx
  | findMostWorkChain =>
    obtain ⟨⟨best, found⟩, isFound, rfl⟩ := Option.map_eq_some_iff.mp applied
    exact invariant.findMostWorkChain isFound
  | invalidBlockFound pindex fCorruptionPossible =>
    obtain ⟨known, overTip⟩ := called
    cases applied
    exact invariant.invalidBlockFound known overTip fCorruptionPossible
  | connectTip pindexNew =>
    obtain ⟨known, overTip, valid, linked⟩ := called
    cases applied
    exact invariant.connectTip known overTip valid linked
  | invalidateBlock pindex disconnects =>
    cases applied
    exact invariant.invalidateBlock called keeps
  | reconsiderBlock pindex =>
    cases applied
    exact invariant.reconsiderBlock called keeps

/-- The index with the genesis block alone, connected. -/
def genesisTree (header : CBlockHeader) (address nTx : Nat) : BlockTree where
  mapBlockIndex := [[header.hash]]
  entry _ :=
    { address := address
      nChainWork := getBlockProof header.nBits
      nTx := nTx
      nChainTx := nTx
      nSequenceId := 1
      nStatus := ⟨blockValidScripts, true, false, false, false⟩ }
  setBlockIndexCandidates := [[header.hash]]
  mapBlocksUnlinked := []
  nBlockSequenceId := 2
  chainActive := [header.hash]

theorem genesisTree_invariant
    (header : CBlockHeader)
    (address : Nat)
    (hasTransactions : nTx ≠ 0) :
    (genesisTree header address nTx).IndexInvariant where
  named known := by
    simp only [genesisTree, List.mem_singleton] at known
    simp [known]
  parent known notNull := by
    simp only [genesisTree, List.mem_singleton] at known
    simp [known] at notNull
  allocated aKnown bKnown _ := by
    simp only [genesisTree, List.mem_singleton] at aKnown bKnown
    rw [aKnown, bKnown]
  heavier known notNull := by
    simp only [genesisTree, List.mem_singleton] at known
    simp [known] at notNull
  hasData _ _ := by simp [genesisTree, blockValidTransactions, blockValidScripts]
  parentLinked _ _ _ := hasTransactions
  unlinked waiting := by simp [genesisTree] at waiting
  candidates known := ⟨known, hasTransactions⟩
  tipKnown := by simp [genesisTree]
  tipLinked := hasTransactions
  backed _ marked := by simp [genesisTree] at marked
  ready known _ _ _ := known
  activeValid _ _ := by simp [genesisTree, BlockStatus.failed]

/-- A header over another one, with easy bits. -/
def easyHeader (hash hashPrevBlock : Uint256) : CBlockHeader where
  hash := hash
  nVersion := CBlockHeader.currentVersion
  hashPrevBlock := hashPrevBlock
  hashMerkleRoot := 0
  nTime := 0
  nBits := 0x207fffff
  nNonce := 0
  nAccumulatorCheckpoint := 0

/-- The index with block 1 alone. -/
def rootTree : BlockTree :=
  genesisTree (easyHeader 1 0) 0 1

/-- A child of an entry of the index arrives with one transaction. -/
def receiveChild (tree : BlockTree) (pprev : BlockPath) (hash : Uint256)
    (address : Nat) : BlockTree :=
  (tree.addToBlockIndex (easyHeader hash (pprev.headD 0)) address
    ).receivedBlockTransactions (hash :: pprev) 1

/-- The operations by which it arrives. -/
def receiveChildTrace (pprev : BlockPath) (hash : Uint256) (address : Nat) :
    List IndexAction :=
  [.addToBlockIndex (easyHeader hash (pprev.headD 0)) address,
    .receivedBlockTransactions (hash :: pprev) 1]

/-- Blocks 3 and 4 over block 2, which is over block 1. -/
def forkedTree : BlockTree :=
  receiveChild (receiveChild (receiveChild rootTree [1] 2 1) [2, 1] 3 2) [2, 1] 4 3

/-- Block 2 was invalidated and both candidates over it were found unusable. -/
def markedTree : BlockTree :=
  removeChain true [2, 1] [4, 2, 1]
    (removeChain true [2, 1] [3, 2, 1]
      (forkedTree.invalidateBlock [2, 1] fun _ => true).2)

/-- The operations that lead there. -/
def markedTrace : List IndexAction :=
  receiveChildTrace [1] 2 1 ++ receiveChildTrace [2, 1] 3 2 ++ receiveChildTrace [2, 1] 4 3 ++
    [.invalidateBlock [2, 1] fun _ => true, .findMostWorkChain]

theorem receiveChild_run
    {tree : BlockTree}
    {trace : List IndexAction}
    {pprev : BlockPath}
    {hash : Uint256}
    {address : Nat}
    (run : carefulIndexSystem.Run rootTree trace tree)
    (headerCalled : IndexAction.Called tree
      (.addToBlockIndex (easyHeader hash (pprev.headD 0)) address))
    (blockCalled : IndexAction.Called
      (tree.addToBlockIndex (easyHeader hash (pprev.headD 0)) address)
      (.receivedBlockTransactions (hash :: pprev) 1)) :
    carefulIndexSystem.Run rootTree (trace ++ receiveChildTrace pprev hash address)
      (receiveChild tree pprev hash address) := by
  have header : carefulIndexSystem.Run rootTree
      (trace ++ [.addToBlockIndex (easyHeader hash (pprev.headD 0)) address])
      (tree.addToBlockIndex (easyHeader hash (pprev.headD 0)) address) :=
    run.snoc ⟨⟨headerCalled, rfl⟩, trivial⟩
  have block : carefulIndexSystem.Run rootTree _ (receiveChild tree pprev hash address) :=
    header.snoc ⟨⟨blockCalled, rfl⟩, trivial⟩
  rwa [List.append_assoc] at block

theorem markedTree_run : carefulIndexSystem.Run rootTree markedTrace markedTree := by
  have forked : carefulIndexSystem.Run rootTree
      (receiveChildTrace [1] 2 1 ++ receiveChildTrace [2, 1] 3 2 ++
        receiveChildTrace [2, 1] 4 3) forkedTree := by
    have second := @receiveChild_run rootTree [] [1] 2 1 .nil
      ⟨⟨[1], by decide, by decide⟩, by decide, by decide⟩
      ⟨by decide, by decide, by decide, by decide, by decide, by decide⟩
    have third := @receiveChild_run _ _ [2, 1] 3 2 second
      ⟨⟨[2, 1], by decide, by decide⟩, by decide, by decide⟩
      ⟨by decide, by decide, by decide, by decide, by decide, by decide⟩
    exact @receiveChild_run _ _ [2, 1] 4 3 third
      ⟨⟨[2, 1], by decide, by decide⟩, by decide, by decide⟩
      ⟨by decide, by decide, by decide, by decide, by decide, by decide⟩
  have noDisconnect : DisconnectsSucceed forkedTree [2, 1] fun _ => true := by
    intro tip above below
    exact absurd (above.trans below) (by decide)
  have knownBlock : [2, 1] ∈ forkedTree.mapBlockIndex := by decide
  have invalidate : carefulIndexSystem.Step forkedTree
      (.invalidateBlock [2, 1] fun _ => true)
      (forkedTree.invalidateBlock [2, 1] fun _ => true).2 :=
    ⟨⟨knownBlock, rfl⟩, noDisconnect⟩
  have find : carefulIndexSystem.Step (forkedTree.invalidateBlock [2, 1] fun _ => true).2
      .findMostWorkChain markedTree :=
    ⟨⟨trivial, rfl⟩, trivial⟩
  exact (forked.snoc invalidate).snoc find

/-- Every run whose operations meet the condition keeps failure flags and candidates
consistent. -/
theorem blockIndex_flagsConsistent
    {start tree : BlockTree}
    {trace : List IndexAction}
    (invariant : start.IndexInvariant)
    (run : carefulIndexSystem.Run start trace tree) :
    tree.FlagsConsistent := by
  have atEnd : tree.IndexInvariant :=
    run.invariant invariant fun atState step => atState.step step
  exact atEnd.flagsConsistent

/-- Reconsidering block 2 itself clears every flag that it caused. -/
theorem blockIndex_flagsConsistent_invalidated :
    (markedTree.reconsiderBlock [2, 1]).FlagsConsistent := by
  have reconsiderable : Reconsiderable markedTree [2, 1] := by
    constructor <;> decide
  have known : [2, 1] ∈ markedTree.mapBlockIndex := by decide
  have run : carefulIndexSystem.Run rootTree (markedTrace ++ [.reconsiderBlock [2, 1]])
      (markedTree.reconsiderBlock [2, 1]) :=
    markedTree_run.snoc ⟨⟨known, rfl⟩, reconsiderable⟩
  exact blockIndex_flagsConsistent
    (genesisTree_invariant (easyHeader 1 0) 0 Nat.one_ne_zero) run

/-- Reconsidering block 3 clears the flag of block 2, but not the one that block 4 carries
because of it. -/
theorem blockIndex_flags_otherBranch :
    ¬ ∀ (header : CBlockHeader) (address nTx : Nat) (trace : List IndexAction)
        (tree : BlockTree),
        nTx ≠ 0 →
        blockIndexSystem.Run (genesisTree header address nTx) trace tree →
          tree.FlagsConsistent := by
  intro consistent
  have known : [3, 2, 1] ∈ markedTree.mapBlockIndex := by decide
  have run : blockIndexSystem.Run rootTree (markedTrace ++ [.reconsiderBlock [3, 2, 1]])
      (markedTree.reconsiderBlock [3, 2, 1]) :=
    (markedTree_run.mono fun step => step.1).snoc ⟨known, rfl⟩
  obtain ⟨ancestor, ancestorKnown, isAncestor, failedValid⟩ :=
    (consistent _ _ _ _ _ Nat.one_ne_zero run).failedChild [4, 2, 1] (by decide) (by decide)
  revert ancestor
  decide

end ColossusCoin
