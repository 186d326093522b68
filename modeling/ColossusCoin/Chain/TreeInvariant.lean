import ColossusCoin.Chain.BlockTree

/-!
# The invariant of the block index

What the block tree looks like whatever happens to the failure flags: parents are known
and have less work, linked entries have their data and linked parents, waiting entries
have their data and a parent that is not linked.  Most operations change failure flags,
candidates and the tip only; they keep the links of the tree.
-/

namespace ColossusCoin

namespace BlockTree

/-- The links of the index: parents and the tip are known, and an entry is linked
(`nChainTx` is set) only with its data and over a linked parent. -/
structure LinkedTree (tree : BlockTree) : Prop where
  named : ∀ {pindex}, pindex ∈ tree.mapBlockIndex → pindex ≠ []
  parent : ∀ {pindex}, pindex ∈ tree.mapBlockIndex → pindex.tail ≠ [] →
    pindex.tail ∈ tree.mapBlockIndex
  allocated : ∀ {pa pb}, pa ∈ tree.mapBlockIndex → pb ∈ tree.mapBlockIndex →
    (tree.entry pa).address = (tree.entry pb).address → pa = pb
  hasData : ∀ {pindex}, pindex ∈ tree.mapBlockIndex → (tree.entry pindex).nChainTx ≠ 0 →
    (tree.entry pindex).nStatus.haveData = true ∧
      blockValidTransactions ≤ (tree.entry pindex).nStatus.validity
  parentLinked : ∀ {pindex}, pindex ∈ tree.mapBlockIndex → pindex.tail ≠ [] →
    (tree.entry pindex).nChainTx ≠ 0 → (tree.entry pindex.tail).nChainTx ≠ 0
  candidates : ∀ {pindex}, pindex ∈ tree.setBlockIndexCandidates →
    pindex ∈ tree.mapBlockIndex ∧ (tree.entry pindex).nChainTx ≠ 0
  tipKnown : tree.chainActive ∈ tree.mapBlockIndex
  tipLinked : (tree.entry tree.chainActive).nChainTx ≠ 0

/-- The shape of the index: moreover, children have more work, and the entries that wait
for the data of an ancestor have their own. -/
structure WellFormed (tree : BlockTree) : Prop extends tree.LinkedTree where
  heavier : ∀ {pindex}, pindex ∈ tree.mapBlockIndex → pindex.tail ≠ [] →
    (tree.entry pindex.tail).nChainWork < (tree.entry pindex).nChainWork
  unlinked : ∀ {pindex}, pindex ∈ tree.mapBlocksUnlinked →
    pindex ∈ tree.mapBlockIndex ∧ pindex.tail ≠ [] ∧
      (tree.entry pindex.tail).nChainTx = 0 ∧
      (tree.entry pindex).nStatus.haveData = true ∧
      blockValidTransactions ≤ (tree.entry pindex).nStatus.validity

theorem valueComp_iff (tree : BlockTree) (pa pb : BlockPath) :
    tree.valueComp pa pb ↔ tree.workKey pa < tree.workKey pb :=
  BlockTreeEntry.workComparator_iff _ _

@[simp] theorem valueComp_eq_false_iff (tree : BlockTree) (pa pb : BlockPath) :
    tree.valueComp pa pb = false ↔ tree.workKey pb ≤ tree.workKey pa := by
  rw [← Bool.not_eq_true, valueComp_iff, not_lt]

theorem mem_of_find
    {tree : BlockTree}
    {hash : Uint256}
    (found : tree.find hash = some pindex) :
    pindex ∈ tree.mapBlockIndex :=
  List.mem_of_find?_eq_some found

/-- An entry that is not found is not in the index, over whatever parent. -/
theorem not_mem_of_find_eq_none
    {tree : BlockTree}
    {hash : Uint256}
    (notFound : tree.find hash = none)
    (pprev : BlockPath) :
    hash :: pprev ∉ tree.mapBlockIndex := by
  intro known
  simpa using List.find?_eq_none.mp notFound _ known

namespace LinkedTree

variable {tree : BlockTree}

section

variable (linkedTree : tree.LinkedTree)
include linkedTree

/-- Entries of the index are told apart by their keys. -/
theorem eq_of_workKey_eq
    (aKnown : pa ∈ tree.mapBlockIndex)
    (bKnown : pb ∈ tree.mapBlockIndex)
    (sameKey : tree.workKey pa = tree.workKey pb) :
    pa = pb :=
  linkedTree.allocated aKnown bKnown (BlockTreeEntry.address_eq_of_workKey_eq sameKey)

theorem ancestor_induction
    {Holds : BlockPath → Prop}
    (handedDown : ∀ {pindex}, pindex ∈ tree.mapBlockIndex → pindex.tail ≠ [] →
      Holds pindex → Holds pindex.tail)
    {ancestor pindex : BlockPath}
    (known : pindex ∈ tree.mapBlockIndex)
    (holds : Holds pindex)
    (notNull : ancestor ≠ [])
    (isAncestor : ancestor <:+ pindex) :
    ancestor ∈ tree.mapBlockIndex ∧ Holds ancestor := by
  induction pindex with
  | nil => exact absurd (List.suffix_nil.mp isAncestor) notNull
  | cons hash pprev ih =>
    rcases List.suffix_cons_iff.mp isAncestor with rfl | ancestorOfParent
    · exact ⟨known, holds⟩
    · have parentNotNull : pprev ≠ [] := by
        rintro rfl
        exact notNull (List.suffix_nil.mp ancestorOfParent)
      exact ih (linkedTree.parent known parentNotNull)
        (handedDown known parentNotNull holds) ancestorOfParent

theorem ancestor_known
    (known : pindex ∈ tree.mapBlockIndex)
    (notNull : ancestor ≠ [])
    (isAncestor : ancestor <:+ pindex) :
    ancestor ∈ tree.mapBlockIndex :=
  (linkedTree.ancestor_induction (fun _ _ (_ : True) => trivial) known trivial notNull isAncestor).1

theorem ancestor_linked
    (known : pindex ∈ tree.mapBlockIndex)
    (linked : (tree.entry pindex).nChainTx ≠ 0)
    (notNull : ancestor ≠ [])
    (isAncestor : ancestor <:+ pindex) :
    (tree.entry ancestor).nChainTx ≠ 0 :=
  (linkedTree.ancestor_induction linkedTree.parentLinked known linked notNull isAncestor).2

end

end LinkedTree

/-! ## Operations that keep the links -/

/-- The second tree differs from the first in statuses, candidates and the tip only, and
has all the data and the validity of the first. -/
structure SameLinks (tree next : BlockTree) : Prop where
  mapBlockIndex : next.mapBlockIndex = tree.mapBlockIndex
  mapBlocksUnlinked : next.mapBlocksUnlinked = tree.mapBlocksUnlinked
  address : ∀ pindex, (next.entry pindex).address = (tree.entry pindex).address
  nChainWork : ∀ pindex, (next.entry pindex).nChainWork = (tree.entry pindex).nChainWork
  nChainTx : ∀ pindex, (next.entry pindex).nChainTx = (tree.entry pindex).nChainTx
  workKey : ∀ pindex, next.workKey pindex = tree.workKey pindex
  haveData : ∀ pindex, (tree.entry pindex).nStatus.haveData = true →
    (next.entry pindex).nStatus.haveData = true
  validity : ∀ pindex,
    (tree.entry pindex).nStatus.validity ≤ (next.entry pindex).nStatus.validity

namespace SameLinks

theorem refl (tree : BlockTree) : SameLinks tree tree where
  mapBlockIndex := rfl
  mapBlocksUnlinked := rfl
  address _ := rfl
  nChainWork _ := rfl
  nChainTx _ := rfl
  workKey _ := rfl
  haveData _ data := data
  validity _ := le_rfl

theorem trans
    (first : SameLinks tree middle)
    (second : SameLinks middle next) :
    SameLinks tree next where
  mapBlockIndex := second.mapBlockIndex.trans first.mapBlockIndex
  mapBlocksUnlinked := second.mapBlocksUnlinked.trans first.mapBlocksUnlinked
  address pindex := (second.address pindex).trans (first.address pindex)
  nChainWork pindex := (second.nChainWork pindex).trans (first.nChainWork pindex)
  nChainTx pindex := (second.nChainTx pindex).trans (first.nChainTx pindex)
  workKey pindex := (second.workKey pindex).trans (first.workKey pindex)
  haveData pindex data := second.haveData pindex (first.haveData pindex data)
  validity pindex := (first.validity pindex).trans (second.validity pindex)

/-- Entries that differ in the statuses only make the same links. -/
theorem of_status
    (sameIndex : next.mapBlockIndex = tree.mapBlockIndex)
    (sameUnlinked : next.mapBlocksUnlinked = tree.mapBlocksUnlinked)
    (sameEntry : ∀ pindex, next.entry pindex =
      { tree.entry pindex with nStatus := (next.entry pindex).nStatus })
    (keepsData : ∀ pindex, (tree.entry pindex).nStatus.haveData = true →
      (next.entry pindex).nStatus.haveData = true)
    (raised : ∀ pindex,
      (tree.entry pindex).nStatus.validity ≤ (next.entry pindex).nStatus.validity) :
    SameLinks tree next where
  mapBlockIndex := sameIndex
  mapBlocksUnlinked := sameUnlinked
  address pindex := by rw [sameEntry]
  nChainWork pindex := by rw [sameEntry]
  nChainTx pindex := by rw [sameEntry]
  workKey pindex := by
    unfold BlockTree.workKey
    rw [sameEntry]
    rfl
  haveData := keepsData
  validity := raised

/-- Changing the candidates or the tip changes no link. -/
theorem of_entries
    (sameIndex : next.mapBlockIndex = tree.mapBlockIndex)
    (sameUnlinked : next.mapBlocksUnlinked = tree.mapBlocksUnlinked)
    (sameEntry : next.entry = tree.entry) :
    SameLinks tree next := by
  apply of_status sameIndex sameUnlinked <;> simp +contextual [sameEntry]

theorem linkedTree
    (same : SameLinks tree next)
    (linkedTree : tree.LinkedTree)
    (candidates : ∀ {pindex}, pindex ∈ next.setBlockIndexCandidates →
      pindex ∈ tree.mapBlockIndex ∧ (tree.entry pindex).nChainTx ≠ 0)
    (tipKnown : next.chainActive ∈ tree.mapBlockIndex)
    (tipLinked : (tree.entry next.chainActive).nChainTx ≠ 0) :
    next.LinkedTree where
  named known := linkedTree.named (same.mapBlockIndex ▸ known)
  parent known notNull :=
    same.mapBlockIndex ▸ linkedTree.parent (same.mapBlockIndex ▸ known) notNull
  allocated aKnown bKnown sameAddress :=
    linkedTree.allocated (same.mapBlockIndex ▸ aKnown) (same.mapBlockIndex ▸ bKnown)
      (by rwa [same.address, same.address] at sameAddress)
  hasData {pindex} known linked := by
    rw [same.nChainTx] at linked
    have data := linkedTree.hasData (same.mapBlockIndex ▸ known) linked
    exact ⟨same.haveData pindex data.1, data.2.trans (same.validity pindex)⟩
  parentLinked known notNull linked := by
    rw [same.nChainTx] at linked ⊢
    exact linkedTree.parentLinked (same.mapBlockIndex ▸ known) notNull linked
  candidates {pindex} candidate := by
    rw [same.nChainTx, same.mapBlockIndex]
    exact candidates candidate
  tipKnown := same.mapBlockIndex ▸ tipKnown
  tipLinked := by rwa [same.nChainTx]

theorem wellFormed
    (same : SameLinks tree next)
    (wellFormed : tree.WellFormed)
    (candidates : ∀ {pindex}, pindex ∈ next.setBlockIndexCandidates →
      pindex ∈ tree.mapBlockIndex ∧ (tree.entry pindex).nChainTx ≠ 0)
    (tipKnown : next.chainActive ∈ tree.mapBlockIndex)
    (tipLinked : (tree.entry next.chainActive).nChainTx ≠ 0) :
    next.WellFormed :=
  { same.linkedTree wellFormed.toLinkedTree candidates tipKnown tipLinked with
    heavier := by
      intro pindex known notNull
      rw [same.nChainWork, same.nChainWork]
      exact wellFormed.heavier (same.mapBlockIndex ▸ known) notNull
    unlinked := by
      intro pindex waiting
      obtain ⟨known, notNull, notLinked, data, valid⟩ :=
        wellFormed.unlinked (same.mapBlocksUnlinked ▸ waiting)
      exact ⟨same.mapBlockIndex ▸ known, notNull, (same.nChainTx _).trans notLinked,
        same.haveData pindex data, valid.trans (same.validity pindex)⟩ }

end SameLinks

theorem sameLinks_modifyStatus
    (tree : BlockTree)
    (pindex : BlockPath)
    {change : BlockStatus → BlockStatus}
    (sameData : ∀ nStatus, (change nStatus).haveData = nStatus.haveData)
    (raised : ∀ nStatus, nStatus.validity ≤ (change nStatus).validity) :
    SameLinks tree (tree.modifyStatus pindex change) := by
  refine .of_status rfl rfl ?_ ?_ ?_ <;> intro other <;>
    by_cases same : other = pindex <;>
    simp [modifyStatus, modifyEntry, same, sameData, raised]

/-- Marking an entry as failed. -/
theorem sameLinks_setFailedValid (tree : BlockTree) (pindex : BlockPath) :
    SameLinks tree (tree.modifyStatus pindex BlockStatus.setFailedValid) :=
  sameLinks_modifyStatus tree pindex (fun _ => rfl) (fun _ => le_rfl)

theorem sameLinks_setFailedChild (tree : BlockTree) (pindex : BlockPath) :
    SameLinks tree (tree.modifyStatus pindex BlockStatus.setFailedChild) :=
  sameLinks_modifyStatus tree pindex (fun _ => rfl) (fun _ => le_rfl)

theorem sameLinks_eraseCandidate (tree : BlockTree) (pindex : BlockPath) :
    SameLinks tree (tree.eraseCandidate pindex) :=
  .of_entries rfl rfl rfl

theorem sameLinks_insertCandidates (tree : BlockTree) (chosen : BlockPath → Bool) :
    SameLinks tree (tree.insertCandidates chosen) :=
  .of_entries rfl rfl rfl

theorem sameLinks_prune (tree : BlockTree) :
    SameLinks tree tree.pruneBlockIndexCandidates :=
  .of_entries rfl rfl rfl

theorem sameLinks_clearFailed (tree : BlockTree) (chosen : BlockPath → Bool) :
    SameLinks tree (tree.clearFailed chosen) := by
  refine .of_status rfl rfl ?_ ?_ ?_ <;> intro pindex <;>
    by_cases isChosen : chosen pindex <;>
    simp [clearFailed, isChosen, BlockStatus.clearFailed]

theorem sameLinks_connectedTip (tree : BlockTree) (pindex : BlockPath) :
    SameLinks tree (tree.connectedTip pindex) := by
  let change (nStatus : BlockStatus) : BlockStatus :=
    { nStatus with haveUndo := true }.raiseValidity blockValidScripts
  refine (@sameLinks_modifyStatus tree pindex change ?_ ?_).trans (.of_entries rfl rfl rfl)
  · intro nStatus
    exact BlockStatus.haveData_raiseValidity _ _
  · intro nStatus
    exact BlockStatus.le_raiseValidity { nStatus with haveUndo := true } _

theorem sameLinks_connectTip (tree : BlockTree) (pindex : BlockPath) :
    SameLinks tree (tree.connectedTip pindex).pruneBlockIndexCandidates :=
  (sameLinks_connectedTip tree pindex).trans (sameLinks_prune _)

theorem sameLinks_recordData
    (notLinked : (tree.entry pindex).nChainTx = 0)
    (nTx : Nat) :
    SameLinks tree (tree.recordData pindex nTx) := by
  refine
    { mapBlockIndex := rfl, mapBlocksUnlinked := rfl, address := ?_, nChainWork := ?_,
      nChainTx := ?_, workKey := ?_, haveData := ?_, validity := ?_ } <;>
    intro other <;> by_cases same : other = pindex <;>
    simp [recordData, modifyEntry, BlockTree.workKey, same, notLinked, BlockTreeEntry.workKey]
  exact BlockStatus.le_raiseValidity { (tree.entry pindex).nStatus with haveData := true } _

theorem nStatus_modifyStatus
    (tree : BlockTree)
    (pindex other : BlockPath)
    (change : BlockStatus → BlockStatus) :
    ((tree.modifyStatus pindex change).entry other).nStatus =
      if other = pindex then change (tree.entry pindex).nStatus
      else (tree.entry other).nStatus := by
  by_cases same : other = pindex <;> simp [modifyStatus, modifyEntry, same]

theorem nStatus_connectedTip (tree : BlockTree) (pindex other : BlockPath) :
    ((tree.connectedTip pindex).entry other).nStatus =
      if other = pindex then
        { (tree.entry pindex).nStatus with haveUndo := true }.raiseValidity blockValidScripts
      else (tree.entry other).nStatus := by
  rw [connectedTip, nStatus_modifyStatus]

theorem failedValid_connectedTip (tree : BlockTree) (pindex other : BlockPath) :
    ((tree.connectedTip pindex).entry other).nStatus.failedValid =
      (tree.entry other).nStatus.failedValid := by
  rw [nStatus_connectedTip]
  split_ifs with same <;> simp [same]

theorem failedChild_connectedTip (tree : BlockTree) (pindex other : BlockPath) :
    ((tree.connectedTip pindex).entry other).nStatus.failedChild =
      (tree.entry other).nStatus.failedChild := by
  rw [nStatus_connectedTip]
  split_ifs with same <;> simp [same]

theorem failed_connectedTip (tree : BlockTree) (pindex other : BlockPath) :
    ((tree.connectedTip pindex).entry other).nStatus.failed =
      (tree.entry other).nStatus.failed := by
  rw [BlockStatus.failed, failedValid_connectedTip, failedChild_connectedTip, BlockStatus.failed]

@[simp] theorem failedValid_recordData (tree : BlockTree) (pindex other : BlockPath)
    (nTx : Nat) :
    ((tree.recordData pindex nTx).entry other).nStatus.failedValid =
      (tree.entry other).nStatus.failedValid := by
  by_cases same : other = pindex <;> simp [recordData, modifyEntry, same]

@[simp] theorem failedChild_recordData (tree : BlockTree) (pindex other : BlockPath)
    (nTx : Nat) :
    ((tree.recordData pindex nTx).entry other).nStatus.failedChild =
      (tree.entry other).nStatus.failedChild := by
  by_cases same : other = pindex <;> simp [recordData, modifyEntry, same]

@[simp] theorem failed_recordData (tree : BlockTree) (pindex other : BlockPath)
    (nTx : Nat) :
    ((tree.recordData pindex nTx).entry other).nStatus.failed =
      (tree.entry other).nStatus.failed := by
  simp [BlockStatus.failed]

theorem nStatus_clearFailed
    (tree : BlockTree)
    (chosen : BlockPath → Bool)
    (pindex : BlockPath) :
    ((tree.clearFailed chosen).entry pindex).nStatus =
      if chosen pindex then (tree.entry pindex).nStatus.clearFailed
      else (tree.entry pindex).nStatus := by
  by_cases isChosen : chosen pindex <;> simp [clearFailed, isChosen]

@[simp] theorem mem_eraseCandidate (tree : BlockTree) (pindex other : BlockPath) :
    other ∈ (tree.eraseCandidate pindex).setBlockIndexCandidates ↔
      other ∈ tree.setBlockIndexCandidates ∧ other ≠ pindex := by
  simp [eraseCandidate]

@[simp] theorem mem_insertCandidate (tree : BlockTree) (pindex other : BlockPath) :
    other ∈ (tree.insertCandidate pindex).setBlockIndexCandidates ↔
      other = pindex ∨ other ∈ tree.setBlockIndexCandidates := by
  simp [insertCandidate]

@[simp] theorem mem_insertCandidates
    (tree : BlockTree)
    (chosen : BlockPath → Bool)
    (pindex : BlockPath) :
    pindex ∈ (tree.insertCandidates chosen).setBlockIndexCandidates ↔
      pindex ∈ tree.setBlockIndexCandidates ∨
        pindex ∈ tree.mapBlockIndex ∧ chosen pindex = true := by
  simp [insertCandidates]

@[simp] theorem mem_pruneBlockIndexCandidates (tree : BlockTree) (pindex : BlockPath) :
    pindex ∈ tree.pruneBlockIndexCandidates.setBlockIndexCandidates ↔
      pindex ∈ tree.setBlockIndexCandidates ∧
        tree.workKey tree.chainActive ≤ tree.workKey pindex := by
  simp [pruneBlockIndexCandidates]

@[simp] theorem mapBlockIndex_linkEntry (tree : BlockTree) (pindex : BlockPath) :
    (tree.linkEntry pindex).mapBlockIndex = tree.mapBlockIndex := by
  unfold linkEntry
  split_ifs <;> rfl

@[simp] theorem chainActive_linkEntry (tree : BlockTree) (pindex : BlockPath) :
    (tree.linkEntry pindex).chainActive = tree.chainActive := by
  unfold linkEntry
  split_ifs <;> rfl

@[simp] theorem mapBlocksUnlinked_linkEntry (tree : BlockTree) (pindex : BlockPath) :
    (tree.linkEntry pindex).mapBlocksUnlinked =
      tree.mapBlocksUnlinked.filter (·.tail != pindex) := by
  unfold linkEntry
  split_ifs <;> rfl

theorem mem_unlinked_linkEntry (tree : BlockTree) (pindex other : BlockPath) :
    other ∈ (tree.linkEntry pindex).mapBlocksUnlinked ↔
      other ∈ tree.mapBlocksUnlinked ∧ other.tail ≠ pindex := by
  simp

/-- Every round takes one entry off the queue, and what it adds to the queue it takes off
`mapBlocksUnlinked`, so that the entries in both are fuel enough. -/
theorem linkLoop_fuel
    (extra : Nat) :
    ∀ (fuel : Nat) {queue : List BlockPath} {tree : BlockTree},
      queue.length + tree.mapBlocksUnlinked.length ≤ fuel →
        linkLoop (fuel + extra) queue tree = linkLoop fuel queue tree
  | 0, queue, tree, enough => by
    have empty : queue = [] := List.length_eq_zero_iff.mp (by omega)
    subst empty
    cases extra <;> rfl
  | fuel + 1, [], _, _ => by
    rw [Nat.add_right_comm]
    rfl
  | fuel + 1, pindex :: queue, tree, enough => by
    rw [Nat.add_right_comm, linkLoop, linkLoop]
    apply linkLoop_fuel extra fuel
    have partition :
        (tree.mapBlocksUnlinked.filter (·.tail == pindex)).length +
          (tree.mapBlocksUnlinked.filter (·.tail != pindex)).length =
            tree.mapBlocksUnlinked.length :=
      List.length_eq_length_filter_add _ |>.symm
    rw [List.length_cons] at enough
    rw [List.length_append, mapBlocksUnlinked_linkEntry]
    omega

theorem entry_linkEntry (tree : BlockTree) (pindex other : BlockPath) :
    (tree.linkEntry pindex).entry other =
      if other = pindex then
        { tree.entry pindex with
          nChainTx := tree.parentChainTx pindex + (tree.entry pindex).nTx
          nSequenceId := tree.nBlockSequenceId }
      else tree.entry other := by
  have numbered : (tree.linkEntry pindex).entry = (tree.numberEntry pindex).entry := by
    unfold linkEntry
    split_ifs <;> rfl
  rw [numbered]
  exact Function.update_apply tree.entry pindex _ other

@[simp] theorem address_linkEntry (tree : BlockTree) (pindex other : BlockPath) :
    ((tree.linkEntry pindex).entry other).address = (tree.entry other).address := by
  rw [entry_linkEntry]
  split_ifs with same <;> simp [same]

@[simp] theorem nChainWork_linkEntry (tree : BlockTree) (pindex other : BlockPath) :
    ((tree.linkEntry pindex).entry other).nChainWork = (tree.entry other).nChainWork := by
  rw [entry_linkEntry]
  split_ifs with same <;> simp [same]

@[simp] theorem nStatus_linkEntry (tree : BlockTree) (pindex other : BlockPath) :
    ((tree.linkEntry pindex).entry other).nStatus = (tree.entry other).nStatus := by
  rw [entry_linkEntry]
  split_ifs with same <;> simp [same]

theorem nChainTx_linkEntry (tree : BlockTree) (pindex other : BlockPath) :
    ((tree.linkEntry pindex).entry other).nChainTx =
      if other = pindex then tree.parentChainTx pindex + (tree.entry pindex).nTx
      else (tree.entry other).nChainTx := by
  rw [entry_linkEntry]
  split_ifs <;> rfl

theorem workKey_linkEntry
    (tree : BlockTree)
    (unlike : other ≠ pindex) :
    (tree.linkEntry pindex).workKey other = tree.workKey other := by
  rw [workKey, entry_linkEntry, if_neg unlike, workKey]

theorem mem_linkEntry (tree : BlockTree) (pindex other : BlockPath) :
    other ∈ (tree.linkEntry pindex).setBlockIndexCandidates ↔
      other ∈ tree.setBlockIndexCandidates ∨
        other = pindex ∧ (tree.chainActive = [] ∨
          (tree.linkEntry pindex).workKey tree.chainActive ≤
            (tree.linkEntry pindex).workKey pindex) := by
  have sameKey : ∀ other, (tree.linkEntry pindex).workKey other =
      (tree.numberEntry pindex).workKey other := by
    intro other
    unfold linkEntry
    split_ifs <;> rfl
  rw [sameKey, sameKey, ← valueComp_eq_false_iff]
  change _ ↔ other ∈ (tree.numberEntry pindex).setBlockIndexCandidates ∨ other = pindex ∧
    ((tree.numberEntry pindex).chainActive = [] ∨
      (tree.numberEntry pindex).valueComp pindex (tree.numberEntry pindex).chainActive = false)
  unfold linkEntry
  split_ifs with notWorse
  · rw [mem_insertCandidate, or_comm]
    exact or_congr_right (and_iff_left notWorse).symm
  · exact (or_iff_left fun both => notWorse both.2).symm

end BlockTree

end ColossusCoin
