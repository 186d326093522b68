import ColossusCoin.Chain.TreeInvariant
import ColossusCoin.Validation.State

/-!
# Storing an accepted block

The ways through `AcceptBlock` and `AcceptBlockHeader`, with the index that they leave and the
entry that is returned by reference.  The checks on the way are any functions.
-/

namespace ColossusCoin

/-- The end of a check, and the state that it leaves. -/
abbrev BlockCheck := CValidationState → Exit × CValidationState

/-- What `AcceptBlock` reads and calls.  A check of the block over an entry reads the index. -/
structure AcceptEnv where
  hashGenesisBlock : Uint256
  /-- `Checkpoints::fEnabled`. -/
  fEnabled : Bool
  mapCheckpoints : Int → Option Uint256
  checkWork : BlockTree → CBlock → BlockPath → Bool
  checkBlockHeader : CBlock → BlockCheck
  contextualCheckBlockHeader : BlockTree → CBlock → BlockPath → BlockCheck
  checkBlock : BlockTree → CBlock → BlockCheck
  contextualCheckBlock : BlockTree → CBlock → BlockPath → BlockCheck
  /-- The checks of a coinstake. -/
  checkStake : BlockTree → CBlock → BlockPath → BlockCheck
  findBlockPos : CBlock → BlockCheck
  writeBlockToDisk : CBlock → Bool
  /-- Where a new entry is allocated. -/
  address : Nat
  activateBestChain : BlockTree → BlockTree

/-- What a call leaves; it returns true where it accepts. -/
structure Acceptance where
  returned : Exit
  state : CValidationState
  ppindex : Option BlockPath
  tree : BlockTree

namespace AcceptEnv

/-- `Checkpoints::CheckBlock`. -/
def matchesCheckpoint (env : AcceptEnv) (nHeight : Int) (hash : Uint256)
    (fMatchesCheckpoint : Bool) : Bool :=
  if !env.fEnabled then true
  else
    match env.mapCheckpoints nHeight with
    | none => !fMatchesCheckpoint
    | some checkpoint => hash == checkpoint

variable (env : AcceptEnv) (block : CBlock)

/-- The end of `AcceptBlockHeader`, for a header over an entry. -/
def addHeader (pindexPrev : BlockPath) (state : CValidationState) (tree : BlockTree) :
    Acceptance :=
  match env.contextualCheckBlockHeader tree block pindexPrev state with
  | (.accept, state) =>
    let added := tree.addToBlockIndex block.toCBlockHeader env.address
    ⟨.accept, state, added.find block.hash, added⟩
  | (exit, state) => ⟨exit, state, none, tree⟩

/-- `AcceptBlockHeader`.  Past the first test there is no entry for the block, so that nothing is
reconsidered here. -/
def acceptBlockHeader (state : CValidationState) (tree : BlockTree) : Acceptance :=
  match tree.find block.hash with
  | some pindex =>
    if (tree.entry pindex).nStatus.failed then
      ⟨.reject, state.invalid 0 "duplicate", some pindex, tree⟩
    else ⟨.accept, state, some pindex, tree⟩
  | none =>
    match env.checkBlockHeader block state with
    | (.accept, state) =>
      if block.hash = env.hashGenesisBlock then env.addHeader block [] state tree
      else
        match tree.find block.hashPrevBlock with
        | none => ⟨.reject, state.dos 0 0 "bad-prevblk", none, tree⟩
        | some pindexPrev =>
          if (tree.entry pindexPrev).nStatus.failed then
            ⟨.reject, state.dos 100 rejectInvalid "bad-prevblk", none, tree⟩
          else env.addHeader block pindexPrev state tree
    | (exit, state) => ⟨exit, state, none, tree⟩

/-- The block is written, unless it is on disk already, and its data is recorded.  A run-time error
is caught. -/
def storeBlock (onDisk : Bool) (pindex : BlockPath) (state : CValidationState)
    (tree : BlockTree) : Acceptance :=
  match env.findBlockPos block state with
  | (.accept, state) =>
    if !onDisk && !env.writeBlockToDisk block then
      ⟨.reject, state.error "Failed to write block", some pindex, tree⟩
    else
      ⟨.accept, state, some pindex, tree.receivedBlockTransactions pindex block.vtx.length⟩
  | (.abort, state) => ⟨.reject, state.error "System error: ", some pindex, tree⟩
  | (exit, state) => ⟨exit, state, some pindex, tree⟩

/-- `CheckBlock`, unless it has run before, and `ContextualCheckBlock`. -/
def checkBlocks (fAlreadyCheckedBlock : Bool) (pindex : BlockPath) (tree : BlockTree) :
    BlockCheck := fun state =>
  match if fAlreadyCheckedBlock then (.accept, state) else env.checkBlock tree block state with
  | (.accept, state) => env.contextualCheckBlock tree block pindex.tail state
  | failed => failed

/-- `AcceptBlock` from the header on. -/
def acceptData (fAlreadyCheckedBlock onDisk : Bool) (state : CValidationState)
    (tree : BlockTree) : Acceptance :=
  match env.acceptBlockHeader block state tree with
  | ⟨.accept, state, some pindex, tree⟩ =>
    if (tree.entry pindex).nStatus.haveData then ⟨.accept, state, some pindex, tree⟩
    else
      match env.checkBlocks block fAlreadyCheckedBlock pindex tree state with
      | (.accept, state) =>
        match env.checkStake tree block pindex state with
        | (.accept, state) => env.storeBlock block onDisk pindex state tree
        | (exit, state) => ⟨exit, state, some pindex, tree⟩
      | (exit, state) =>
        if exit = .reject ∧ state.isInvalid ∧ state.corruptionPossible = false then
          ⟨exit, state, some pindex, tree.modifyStatus pindex BlockStatus.setFailedValid⟩
        else ⟨exit, state, some pindex, tree⟩
  | header => header

/-- `AcceptBlock`, with `*ppindex` null as `ProcessNewBlock` passes it. -/
def acceptBlock (fAlreadyCheckedBlock onDisk : Bool) (state : CValidationState)
    (tree : BlockTree) : Acceptance :=
  if block.hash = env.hashGenesisBlock then
    env.acceptData block fAlreadyCheckedBlock onDisk state tree
  else
    match tree.find block.hashPrevBlock with
    | none => ⟨.reject, state.dos 0 0 "bad-prevblk", none, tree⟩
    | some pindexPrev =>
      if (tree.entry pindexPrev).nStatus.failed then
        if env.matchesCheckpoint (pindexPrev.length - 1) block.hashPrevBlock true then
          -- `ReconsiderBlock` leaves the state of its own valid.
          ⟨.accept, state, none, env.activateBestChain (tree.reconsiderBlock pindexPrev)⟩
        else ⟨.reject, state.dos 100 rejectInvalid "bad-prevblk", none, tree⟩
      else if env.checkWork tree block pindexPrev then
        env.acceptData block fAlreadyCheckedBlock onDisk state tree
      else ⟨.reject, state, none, tree⟩

/-- The parent of the block is known as failed, but stands in the checkpoints. -/
def Reconsiders (tree : BlockTree) : Prop :=
  block.hash ≠ env.hashGenesisBlock ∧ ∃ pindexPrev,
    tree.find block.hashPrevBlock = some pindexPrev ∧
      (tree.entry pindexPrev).nStatus.failed = true ∧
        env.matchesCheckpoint (pindexPrev.length - 1) block.hashPrevBlock true = true

end AcceptEnv

/-- A call that returns true has returned the entry of the block. -/
def Acceptance.Entered (hash : Uint256) (left : Acceptance) : Prop :=
  left.returned = .accept → ∃ pindex, left.ppindex = some pindex ∧ left.tree.find hash = some pindex

/-- A call that returns true has returned the entry of the block, whose data is there. -/
def Acceptance.Stores (hash : Uint256) (left : Acceptance) : Prop :=
  left.returned = .accept → ∃ pindex, left.ppindex = some pindex ∧
    left.tree.find hash = some pindex ∧ (left.tree.entry pindex).nStatus.haveData = true

namespace BlockTree

variable {tree : BlockTree}

/-- The loop over the entries that waited for the data changes no status, and adds no entry. -/
theorem linkLoop_frame (fuel : Nat) (queue : List BlockPath) (tree : BlockTree) :
    (linkLoop fuel queue tree).mapBlockIndex = tree.mapBlockIndex ∧
      ∀ other, ((linkLoop fuel queue tree).entry other).nStatus = (tree.entry other).nStatus := by
  induction fuel generalizing queue tree with
  | zero => exact ⟨rfl, fun _ => rfl⟩
  | succ fuel ih =>
    cases queue with
    | nil => exact ⟨rfl, fun _ => rfl⟩
    | cons pindex queue =>
      obtain ⟨index, status⟩ := ih (queue ++ tree.mapBlocksUnlinked.filter (·.tail == pindex))
        (tree.linkEntry pindex)
      have sameIndex : (tree.linkEntry pindex).mapBlockIndex = tree.mapBlockIndex := by
        unfold linkEntry
        split_ifs <;> rfl
      exact ⟨index.trans sameIndex, fun other => by
        rw [linkLoop, status, nStatus_linkEntry]⟩

theorem receivedBlockTransactions_stores (tree : BlockTree) (pindex : BlockPath) (nTx : Nat) :
    (tree.receivedBlockTransactions pindex nTx).mapBlockIndex = tree.mapBlockIndex ∧
      ((tree.receivedBlockTransactions pindex nTx).entry pindex).nStatus.haveData = true := by
  have recorded : ((tree.recordData pindex nTx).entry pindex).nStatus.haveData = true := by
    simp [recordData, modifyEntry]
  rw [receivedBlockTransactions]
  split_ifs
  · obtain ⟨index, status⟩ := linkLoop_frame
      ((tree.recordData pindex nTx).mapBlocksUnlinked.length + 1) [pindex]
      (tree.recordData pindex nTx)
    exact ⟨index, by rw [status]; exact recorded⟩
  · exact ⟨rfl, recorded⟩
  · exact ⟨rfl, recorded⟩

theorem find_addToBlockIndex
    (unknown : tree.find header.hash = none)
    (address : Nat) :
    ((tree.addToBlockIndex header address).find header.hash).isSome := by
  rw [addToBlockIndex, unknown]
  simp [find]

end BlockTree

namespace AcceptEnv

open Acceptance

variable {env : AcceptEnv} {block : CBlock} {tree : BlockTree}

theorem entered_addHeader
    (pindexPrev : BlockPath)
    (state : CValidationState)
    (unknown : tree.find block.hash = none) :
    (env.addHeader block pindexPrev state tree).Entered block.hash := by
  rw [addHeader]
  rcases env.contextualCheckBlockHeader tree block pindexPrev state with ⟨_ | _ | _ | _, state⟩
  · intro _
    obtain ⟨pindex, found⟩ := Option.isSome_iff_exists.mp
      (BlockTree.find_addToBlockIndex unknown env.address)
    exact ⟨pindex, found, found⟩
  all_goals rintro ⟨⟩

theorem entered_acceptBlockHeader (state : CValidationState) :
    (env.acceptBlockHeader block state tree).Entered block.hash := by
  rw [acceptBlockHeader]
  cases unknown : tree.find block.hash with
  | some pindex =>
    dsimp only
    split_ifs
    · rintro ⟨⟩
    · exact fun _ => ⟨pindex, rfl, unknown⟩
  | none =>
    rcases env.checkBlockHeader block state with ⟨_ | _ | _ | _, state⟩
    · dsimp only
      split_ifs
      · exact entered_addHeader [] state unknown
      · cases tree.find block.hashPrevBlock with
        | none => rintro ⟨⟩
        | some pindexPrev =>
          dsimp only
          split_ifs
          · rintro ⟨⟩
          · exact entered_addHeader pindexPrev state unknown
    all_goals rintro ⟨⟩

theorem stores_storeBlock
    (onDisk : Bool)
    (state : CValidationState)
    (found : tree.find block.hash = some pindex) :
    (env.storeBlock block onDisk pindex state tree).Stores block.hash := by
  rw [storeBlock]
  rcases env.findBlockPos block state with ⟨_ | _ | _ | _, state⟩
  · dsimp only
    split_ifs
    · rintro ⟨⟩
    · obtain ⟨index, data⟩ := tree.receivedBlockTransactions_stores pindex block.vtx.length
      refine fun _ => ⟨pindex, rfl, ?_, data⟩
      rw [BlockTree.find, index]
      exact found
  all_goals rintro ⟨⟩

/-- From the header on, every success leaves the block stored. -/
theorem stores_acceptData
    (fAlreadyCheckedBlock onDisk : Bool)
    (state : CValidationState)
    (tree : BlockTree) :
    (env.acceptData block fAlreadyCheckedBlock onDisk state tree).Stores block.hash := by
  have entered := @entered_acceptBlockHeader env block tree state
  rw [acceptData]
  generalize env.acceptBlockHeader block state tree = header at entered ⊢
  obtain ⟨_ | _ | _ | _, state, _ | pindex, tree⟩ := header
  · obtain ⟨pindex, returned, -⟩ := entered rfl
    cases returned
  · obtain ⟨_, ⟨⟩, found⟩ := entered rfl
    dsimp only
    split_ifs with haveData
    · exact fun _ => ⟨pindex, rfl, found, haveData⟩
    rcases env.checkBlocks block fAlreadyCheckedBlock pindex tree state with
      ⟨_ | _ | _ | _, state⟩
    · dsimp only
      rcases env.checkStake tree block pindex state with ⟨_ | _ | _ | _, state⟩
      · exact stores_storeBlock onDisk state found
      all_goals rintro ⟨⟩
    all_goals
      dsimp only
      split_ifs <;> rintro ⟨⟩
  all_goals rintro ⟨⟩

/-- `AcceptBlock` returns true only for stored blocks, except where it reconsiders the parent. -/
theorem acceptBlock_stores_iff
    (env : AcceptEnv)
    (block : CBlock)
    (fAlreadyCheckedBlock onDisk : Bool)
    (state : CValidationState)
    (tree : BlockTree) :
    (env.acceptBlock block fAlreadyCheckedBlock onDisk state tree).Stores block.hash ↔
      ¬ env.Reconsiders block tree := by
  constructor
  · rintro stores ⟨notGenesis, pindexPrev, parent, failed, checkpoint⟩
    rw [acceptBlock, if_neg notGenesis, parent] at stores
    dsimp only at stores
    rw [if_pos failed, if_pos checkpoint] at stores
    obtain ⟨pindex, returned, -⟩ := stores rfl
    cases returned
  · intro never
    rw [acceptBlock]
    split_ifs with genesis
    · exact stores_acceptData fAlreadyCheckedBlock onDisk state tree
    cases parent : tree.find block.hashPrevBlock with
    | none => rintro ⟨⟩
    | some pindexPrev =>
      dsimp only
      split_ifs with failed checkpoint
      · exact absurd ⟨genesis, pindexPrev, parent, failed, checkpoint⟩ never
      · rintro ⟨⟩
      · exact stores_acceptData fAlreadyCheckedBlock onDisk state tree
      · rintro ⟨⟩

/-- All checks pass, and the block of height 1 stands in the checkpoints. -/
def permissive : AcceptEnv where
  hashGenesisBlock := 1
  fEnabled := true
  mapCheckpoints nHeight := if nHeight = 1 then some 2 else none
  checkWork _ _ _ := true
  checkBlockHeader _ state := (.accept, state)
  contextualCheckBlockHeader _ _ _ state := (.accept, state)
  checkBlock _ _ state := (.accept, state)
  contextualCheckBlock _ _ _ state := (.accept, state)
  checkStake _ _ _ state := (.accept, state)
  findBlockPos _ state := (.accept, state)
  writeBlockToDisk _ := true
  address := 3
  activateBestChain := id

/-- The checkpointed block was marked as failed; the block over it is taken for stored. -/
theorem acceptBlock_of_reconsidered :
    let block : CBlock := ⟨⟨3, 4, 2, 0, 0, 0, 0, 0⟩, [], []⟩
    let tree : BlockTree :=
      { mapBlockIndex := [[2, 1], [1]]
        entry := fun pindex => ⟨pindex.length, 1, 1, 1, 1, ⟨5, true, true, pindex == [2, 1], false⟩⟩
        setBlockIndexCandidates := [[1]]
        mapBlocksUnlinked := []
        nBlockSequenceId := 2
        chainActive := [1] }
    let left := permissive.acceptBlock block true false .initial tree
    left.returned = .accept ∧ left.ppindex = none ∧ left.tree.find block.hash = none ∧
      ¬ left.Stores block.hash := by
  intro block tree left
  have returned : left.returned = .accept := by decide
  have null : left.ppindex = none := by decide
  refine ⟨returned, null, by decide, fun stores => ?_⟩
  obtain ⟨pindex, entry, -⟩ := stores returned
  rw [null] at entry
  cases entry

end AcceptEnv
end ColossusCoin
