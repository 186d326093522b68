import ColossusCoin.Chain.FailureFlags

/-!
# The anchor of a reorganization

What `CheckBlockIndex` asserts of an index, and what stays true while blocks are
disconnected and connected: there is an anchor, a candidate whose blocks were all
connected before, and which no usable entry outside the candidates is better than.
-/

namespace ColossusCoin

namespace BlockTree

variable {tree : BlockTree}

/-- The data of an entry and of all its ancestors is there. -/
def HasAllData (tree : BlockTree) (pindex : BlockPath) : Prop :=
  ∀ ancestor ∈ tree.mapBlockIndex, ancestor <:+ pindex →
    (tree.entry ancestor).nStatus.haveData = true

instance (tree : BlockTree) (pindex : BlockPath) : Decidable (tree.HasFailedAncestor pindex) :=
  inferInstanceAs (Decidable (∃ ancestor ∈ tree.mapBlockIndex,
    ancestor <:+ pindex ∧ (tree.entry ancestor).nStatus.failedValid = true))

instance (tree : BlockTree) (pindex : BlockPath) : Decidable (tree.HasAllData pindex) :=
  inferInstanceAs (Decidable (∀ ancestor ∈ tree.mapBlockIndex, ancestor <:+ pindex →
    (tree.entry ancestor).nStatus.haveData = true))

/-- The entry and its ancestors have not failed, and have their data. -/
structure Usable (tree : BlockTree) (pindex : BlockPath) : Prop where
  known : pindex ∈ tree.mapBlockIndex
  notFailed : ¬ tree.HasFailedAncestor pindex
  hasAllData : tree.HasAllData pindex

/-- The tip is usable, and has at least as much work as every usable entry. -/
structure BestTip (tree : BlockTree) : Prop where
  usable : tree.Usable tree.chainActive
  best : ∀ pindex, tree.Usable pindex →
    (tree.entry pindex).nChainWork ≤ (tree.entry tree.chainActive).nChainWork

/-- The assertions of `CheckBlockIndex`, for an index whose entries are objects of their
own below one genesis block, and whose active chain was connected.  Heights and skip
pointers are those of the names. -/
structure CheckBlockIndex (tree : BlockTree) : Prop where
  named : ∀ pindex ∈ tree.mapBlockIndex, pindex ≠ []
  parent : ∀ pindex ∈ tree.mapBlockIndex, pindex.tail ≠ [] →
    pindex.tail ∈ tree.mapBlockIndex
  allocated : ∀ pa ∈ tree.mapBlockIndex, ∀ pb ∈ tree.mapBlockIndex,
    (tree.entry pa).address = (tree.entry pb).address → pa = pb
  candidatesKnown : ∀ pindex ∈ tree.setBlockIndexCandidates, pindex ∈ tree.mapBlockIndex
  tipKnown : tree.chainActive ∈ tree.mapBlockIndex
  tipLinked : (tree.entry tree.chainActive).nChainTx ≠ 0
  genesis : ∀ pindex ∈ tree.mapBlockIndex, pindex.tail = [] → pindex <:+ tree.chainActive
  data : ∀ pindex ∈ tree.mapBlockIndex,
    (tree.entry pindex).nStatus.haveData = true ↔ (tree.entry pindex).nTx ≠ 0
  transactions : ∀ pindex ∈ tree.mapBlockIndex,
    blockValidTransactions ≤ (tree.entry pindex).nStatus.validity ↔
      (tree.entry pindex).nTx ≠ 0
  sequence : ∀ pindex ∈ tree.mapBlockIndex,
    (tree.entry pindex).nChainTx = 0 → (tree.entry pindex).nSequenceId = 0
  linked : ∀ pindex ∈ tree.mapBlockIndex,
    ¬ tree.HasAllData pindex ↔ (tree.entry pindex).nChainTx = 0
  work : ∀ pindex ∈ tree.mapBlockIndex, pindex.tail ≠ [] →
    (tree.entry pindex.tail).nChainWork ≤ (tree.entry pindex).nChainWork
  treeValid : ∀ pindex ∈ tree.mapBlockIndex, pindex.tail ≠ [] →
    blockValidTree ≤ (tree.entry pindex).nStatus.validity
  parentValid : ∀ nUpTo, nUpTo = blockValidTransactions + 1 ∨ nUpTo = blockValidScripts →
    ∀ pindex ∈ tree.mapBlockIndex, nUpTo ≤ (tree.entry pindex).nStatus.validity →
      ∀ ancestor ∈ tree.mapBlockIndex, ancestor <:+ pindex → ancestor.tail ≠ [] →
        nUpTo ≤ (tree.entry ancestor).nStatus.validity
  flags : ∀ pindex ∈ tree.mapBlockIndex, ¬ tree.HasFailedAncestor pindex →
    (tree.entry pindex).nStatus.failed = false
  candidate : ∀ pindex ∈ tree.mapBlockIndex,
    tree.valueComp pindex tree.chainActive = false → tree.HasAllData pindex →
      ¬ tree.HasFailedAncestor pindex → pindex ∈ tree.setBlockIndexCandidates
  noCandidate : ∀ pindex ∈ tree.setBlockIndexCandidates,
    tree.valueComp pindex tree.chainActive = false ∧ tree.HasAllData pindex
  unlinked : ∀ pindex ∈ tree.mapBlockIndex, pindex.tail ≠ [] →
    (tree.entry pindex).nStatus.haveData = true → ¬ tree.HasAllData pindex →
      ¬ tree.HasFailedAncestor pindex → pindex ∈ tree.mapBlocksUnlinked
  notUnlinked : ∀ pindex ∈ tree.mapBlocksUnlinked, pindex.tail ≠ [] ∧
    (tree.entry pindex).nStatus.haveData = true ∧ ¬ tree.HasAllData pindex

/-- The active chain carries no failure flag. -/
def ActiveChainValid (tree : BlockTree) : Prop :=
  ∀ ancestor ∈ tree.mapBlockIndex, ancestor <:+ tree.chainActive →
    (tree.entry ancestor).nStatus.failed = false

theorem CheckBlockIndex.flagsBacked
    (checked : tree.CheckBlockIndex)
    (activeValid : tree.ActiveChainValid) :
    tree.FlagsBacked where
  named known := checked.named _ known
  parent known notNull := checked.parent _ known notNull
  allocated aKnown bKnown sameAddress := checked.allocated _ aKnown _ bKnown sameAddress
  hasData {pindex} known linked := by
    have allData : tree.HasAllData pindex := by
      by_contra missing
      exact linked ((checked.linked pindex known).mp missing)
    have haveData := allData pindex known (List.suffix_refl pindex)
    exact ⟨haveData,
      (checked.transactions pindex known).mpr ((checked.data pindex known).mp haveData)⟩
  parentLinked {pindex} known notNull linked := by
    intro notLinked
    have missing := (checked.linked _ (checked.parent _ known notNull)).mpr notLinked
    refine linked ((checked.linked _ known).mp fun allData => missing ?_)
    intro ancestor ancestorKnown isAncestor
    exact allData ancestor ancestorKnown (isAncestor.trans (List.tail_suffix pindex))
  candidates {pindex} candidate := by
    have known := checked.candidatesKnown pindex candidate
    exact ⟨known, fun notLinked =>
      (checked.linked pindex known).mpr notLinked (checked.noCandidate pindex candidate).2⟩
  tipKnown := checked.tipKnown
  tipLinked := checked.tipLinked
  backed {pindex} known marked := by
    by_contra notFailed
    have valid := checked.flags pindex known notFailed
    simp [BlockStatus.failed, marked] at valid
  activeValid known isAncestor := activeValid _ known isAncestor

/-- The links stay, and failed blocks stay failed. -/
structure Progress (tree next : BlockTree) : Prop extends SameLinks tree next where
  sameData : ∀ pindex,
    (next.entry pindex).nStatus.haveData = (tree.entry pindex).nStatus.haveData
  keepsFailed : ∀ {pindex}, (tree.entry pindex).nStatus.failedValid = true →
    (next.entry pindex).nStatus.failedValid = true

namespace Progress

theorem refl (tree : BlockTree) : Progress tree tree :=
  { SameLinks.refl tree with
    sameData := fun _ => rfl
    keepsFailed := fun failed => failed }

theorem trans
    (first : Progress tree middle)
    (second : Progress middle next) :
    Progress tree next :=
  { first.toSameLinks.trans second.toSameLinks with
    sameData := fun pindex => (second.sameData pindex).trans (first.sameData pindex)
    keepsFailed := fun failed => second.keepsFailed (first.keepsFailed failed) }

theorem of_entries
    (sameIndex : next.mapBlockIndex = tree.mapBlockIndex)
    (sameUnlinked : next.mapBlocksUnlinked = tree.mapBlocksUnlinked)
    (sameEntry : next.entry = tree.entry) :
    Progress tree next :=
  { SameLinks.of_entries sameIndex sameUnlinked sameEntry with
    sameData := fun pindex => by rw [sameEntry]
    keepsFailed := fun failed => by rwa [sameEntry] }

theorem mark
    (tree : BlockTree)
    (pindex : BlockPath)
    (sameData : ∀ nStatus, (change nStatus).haveData = nStatus.haveData)
    (raised : ∀ nStatus, nStatus.validity ≤ (change nStatus).validity)
    (keepsFailed : ∀ nStatus, nStatus.failedValid = true →
      (change nStatus).failedValid = true) :
    Progress tree ((tree.modifyStatus pindex change).eraseCandidate pindex) :=
  { sameLinks_mark tree pindex sameData raised with
    sameData := by
      intro other
      by_cases same : other = pindex <;>
        simp [eraseCandidate, nStatus_modifyStatus, same, sameData]
    keepsFailed := by
      intro other failed
      by_cases same : other = pindex
      · subst same
        simpa [eraseCandidate, nStatus_modifyStatus] using keepsFailed _ failed
      · simpa [eraseCandidate, nStatus_modifyStatus, same] using failed }

theorem connectTip (tree : BlockTree) (pindex : BlockPath) :
    Progress tree (tree.connectedTip pindex).pruneBlockIndexCandidates :=
  { sameLinks_connectTip tree pindex with
    sameData := by
      intro other
      change ((tree.connectedTip pindex).entry other).nStatus.haveData = _
      rw [nStatus_connectedTip]
      split_ifs with same <;> simp [same]
    keepsFailed := by
      intro other failed
      exact (failedValid_connectedTip tree pindex other).trans failed }

theorem hasFailedAncestor
    (progress : Progress tree next)
    (failed : tree.HasFailedAncestor pindex) :
    next.HasFailedAncestor pindex :=
  failed.mono (fun known => progress.mapBlockIndex ▸ known)
    fun _ failedValid => progress.keepsFailed failedValid

theorem usable
    (progress : Progress tree next)
    (usable : next.Usable pindex) :
    tree.Usable pindex where
  known := progress.mapBlockIndex ▸ usable.known
  notFailed failed := usable.notFailed (progress.hasFailedAncestor failed)
  hasAllData ancestor known isAncestor := by
    rw [← progress.sameData]
    exact usable.hasAllData ancestor (progress.mapBlockIndex ▸ known) isAncestor

end Progress

/-- A candidate of settled blocks that no usable entry outside the candidates is better
than. -/
structure Anchor (Settled : BlockPath → Prop) (tree : BlockTree) (anchor : BlockPath) :
    Prop where
  candidate : anchor ∈ tree.setBlockIndexCandidates
  settled : ∀ {ancestor}, ancestor ≠ [] → ancestor <:+ anchor →
    Settled ancestor ∧ (tree.entry ancestor).nStatus.failed = false
  covers : ∀ {other}, other ∈ tree.mapBlockIndex → ¬ tree.HasFailedAncestor other →
    (tree.entry other).nChainTx ≠ 0 → other ∉ tree.setBlockIndexCandidates →
      tree.workKey other ≤ tree.workKey anchor

/-- The invariant of `ActivateBestChain`: flags are backed, the active chain is settled,
and there is an anchor. -/
structure Activating (Settled : BlockPath → Prop) (tree : BlockTree) : Prop
    extends tree.FlagsBacked where
  activeSettled : ∀ {ancestor}, ancestor ≠ [] → ancestor <:+ tree.chainActive →
    Settled ancestor
  anchored : ∃ anchor, Anchor Settled tree anchor

namespace Activating

theorem mono
    (activating : Activating Settled tree)
    (wider : ∀ pindex, Settled pindex → Wider pindex) :
    Activating Wider tree := by
  obtain ⟨anchor, isAnchor⟩ := activating.anchored
  refine
    { activating.toFlagsBacked with
      activeSettled := ?_, anchored := ⟨anchor, isAnchor.candidate, ?_, isAnchor.covers⟩ }
  · intro ancestor notNull isAncestor
    exact wider _ (activating.activeSettled notNull isAncestor)
  · intro ancestor notNull isAncestor
    exact (isAnchor.settled notNull isAncestor).imp_left (wider _)

theorem disconnect
    (activating : Activating Settled tree)
    (notNull : pindex ≠ [])
    (active : pindex <:+ tree.chainActive) :
    Activating Settled { tree with chainActive := pindex } := by
  obtain ⟨anchor, isAnchor⟩ := activating.anchored
  have sameLinks : SameLinks tree { tree with chainActive := pindex } := .of_entries rfl rfl rfl
  refine
    { sameLinks.linkedTree activating.toLinkedTree activating.candidates
        (activating.ancestor_known activating.tipKnown notNull active)
        (activating.ancestor_linked activating.tipKnown activating.tipLinked notNull active) with
      backed := activating.backed, activeValid := ?_, activeSettled := ?_,
      anchored := ⟨anchor, isAnchor.candidate, isAnchor.settled, isAnchor.covers⟩ }
  · intro ancestor known isAncestor
    exact activating.activeValid known (isAncestor.trans active)
  · intro ancestor ancestorNotNull isAncestor
    exact activating.activeSettled ancestorNotNull (isAncestor.trans active)

theorem mark
    (activating : Activating Settled tree)
    (notActive : ¬ pindex <:+ tree.chainActive)
    (notAnchored : ∀ anchor, Anchor Settled tree anchor → ¬ pindex <:+ anchor)
    (sameData : ∀ nStatus, (change nStatus).haveData = nStatus.haveData)
    (raised : ∀ nStatus, nStatus.validity ≤ (change nStatus).validity)
    (keepsFailed : ∀ nStatus, nStatus.failedValid = true →
      (change nStatus).failedValid = true)
    (backed : (tree.modifyStatus pindex change).HasFailedAncestor pindex) :
    Activating Settled ((tree.modifyStatus pindex change).eraseCandidate pindex) := by
  obtain ⟨anchor, isAnchor⟩ := activating.anchored
  have notBelow := notAnchored anchor isAnchor
  have progress := Progress.mark tree pindex sameData raised keepsFailed
  refine
    { activating.toFlagsBacked.mark notActive sameData raised keepsFailed backed with
      activeSettled := activating.activeSettled, anchored := ⟨anchor, ?_, ?_, ?_⟩ }
  · refine (mem_eraseCandidate _ _ _).mpr ⟨isAnchor.candidate, ?_⟩
    rintro rfl
    exact notBelow (List.suffix_refl anchor)
  · intro ancestor notNull isAncestor
    have notMarked : ancestor ≠ pindex := by
      rintro rfl
      exact notBelow isAncestor
    simpa [eraseCandidate, nStatus_modifyStatus, notMarked] using
      isAnchor.settled notNull isAncestor
  · intro other known notFailed linked notCandidate
    have notMarked : other ≠ pindex := by
      rintro rfl
      exact notFailed backed
    rw [progress.nChainTx] at linked
    rw [progress.workKey, progress.workKey]
    refine isAnchor.covers known ?_ linked ?_
    · exact fun failed => notFailed (progress.hasFailedAncestor failed)
    · exact fun candidate => notCandidate ((mem_eraseCandidate _ _ _).mpr ⟨candidate, notMarked⟩)

theorem invalidBlockFound
    (activating : Activating Settled tree)
    (known : pindex ∈ tree.mapBlockIndex)
    (notActive : ¬ pindex <:+ tree.chainActive)
    (notSettled : ¬ Settled pindex) :
    Activating Settled (tree.invalidBlockFound pindex false) := by
  rw [BlockTree.invalidBlockFound, if_neg Bool.false_ne_true]
  apply activating.mark notActive <;> try simp [BlockStatus.setFailedValid]
  · intro anchor isAnchor isAncestor
    exact notSettled (isAnchor.settled (activating.named known) isAncestor).1
  · refine ⟨pindex, known, List.suffix_refl pindex, ?_⟩
    simp [nStatus_modifyStatus, BlockStatus.setFailedValid]

theorem eraseFailed
    (activating : Activating Settled tree)
    (known : pindex ∈ tree.mapBlockIndex)
    (failed : (tree.entry pindex).nStatus.failed = true) :
    Activating Settled (tree.eraseCandidate pindex) := by
  obtain ⟨anchor, isAnchor⟩ := activating.anchored
  have hasFailed := activating.hasFailedAncestor_of_failed known failed
  refine
    { (sameLinks_eraseCandidate tree pindex).linkedTree activating.toLinkedTree
        (fun candidate => activating.candidates ((mem_eraseCandidate _ _ _).mp candidate).1)
        activating.tipKnown activating.tipLinked with
      backed := activating.backed, activeValid := activating.activeValid,
      activeSettled := activating.activeSettled,
      anchored := ⟨anchor, ?_, isAnchor.settled, ?_⟩ }
  · refine (mem_eraseCandidate _ _ _).mpr ⟨isAnchor.candidate, ?_⟩
    rintro rfl
    have valid := (isAnchor.settled (activating.named known) (List.suffix_refl anchor)).2
    exact Bool.false_ne_true (valid.symm.trans failed)
  · intro other otherKnown notFailed linked notCandidate
    refine isAnchor.covers otherKnown notFailed linked fun candidate => notCandidate ?_
    refine (mem_eraseCandidate _ _ _).mpr ⟨candidate, ?_⟩
    rintro rfl
    exact notFailed hasFailed

theorem markFailedChild
    (activating : Activating Settled tree)
    (known : pindexTest ∈ tree.mapBlockIndex)
    (failed : (tree.entry pindexTest).nStatus.failed = true)
    (isAncestor : pindexTest <:+ pindex)
    (notActive : ¬ pindex <:+ tree.chainActive) :
    Activating Settled
      ((tree.modifyStatus pindex BlockStatus.setFailedChild).eraseCandidate pindex) := by
  have hasFailed := activating.hasFailedAncestor_of_failed known failed
  apply activating.mark notActive <;> try simp [BlockStatus.setFailedChild]
  · intro anchor isAnchor below
    have valid := (isAnchor.settled (activating.named known) (isAncestor.trans below)).2
    exact Bool.false_ne_true (valid.symm.trans failed)
  · exact (hasFailed.of_ancestor isAncestor).modifyStatus fun _ failedValid => failedValid

/-- A child of the tip is connected and settled; it takes the place of the anchor if it
is better. -/
theorem connectTip
    (activating : Activating Settled tree)
    (known : pindex ∈ tree.mapBlockIndex)
    (overTip : pindex.tail = tree.chainActive)
    (valid : (tree.entry pindex).nStatus.failed = false)
    (linked : (tree.entry pindex).nChainTx ≠ 0)
    (settled : Settled pindex) :
    Activating Settled (tree.connectedTip pindex).pruneBlockIndexCandidates := by
  obtain ⟨anchor, isAnchor⟩ := activating.anchored
  have progress := Progress.connectTip tree pindex
  have sameKey := (sameLinks_connectedTip tree pindex).workKey
  have sameFlags (other : BlockPath) :
      ((tree.connectedTip pindex).pruneBlockIndexCandidates.entry other).nStatus.failed =
        (tree.entry other).nStatus.failed :=
    failed_connectedTip tree pindex other
  have belowNew {ancestor : BlockPath} (notNull : ancestor ≠ [])
      (isAncestor : ancestor <:+ pindex) :
      Settled ancestor ∧ (tree.entry ancestor).nStatus.failed = false := by
    have ancestorKnown := activating.ancestor_known known notNull isAncestor
    cases pindex with
    | nil => exact absurd rfl (activating.named known)
    | cons hash pprev =>
      rcases List.suffix_cons_iff.mp isAncestor with rfl | ofParent
      · exact ⟨settled, valid⟩
      · exact ⟨activating.activeSettled notNull (overTip ▸ ofParent),
          activating.activeValid ancestorKnown (overTip ▸ ofParent)⟩
  have notFailedBefore {other : BlockPath}
      (notFailed : ¬ (tree.connectedTip pindex).pruneBlockIndexCandidates.HasFailedAncestor other) :
      ¬ tree.HasFailedAncestor other :=
    fun failed => notFailed (progress.hasFailedAncestor failed)
  have stays {other : BlockPath} (candidate : other ∈ tree.setBlockIndexCandidates)
      (notWorse : tree.workKey pindex ≤ tree.workKey other) :
      other ∈ (tree.connectedTip pindex).pruneBlockIndexCandidates.setBlockIndexCandidates :=
    (mem_pruneBlockIndexCandidates _ _).mpr
      ⟨candidate, by
        rw [sameKey, sameKey]
        exact notWorse⟩
  -- An entry outside the candidates is not better than the anchor, or was pruned.
  have outside {other : BlockPath} (otherKnown : other ∈ tree.mapBlockIndex)
      (notFailed : ¬ tree.HasFailedAncestor other)
      (otherLinked : (tree.entry other).nChainTx ≠ 0)
      (notCandidate : other ∉
        (tree.connectedTip pindex).pruneBlockIndexCandidates.setBlockIndexCandidates) :
      tree.workKey other ≤ tree.workKey anchor ∨
        tree.workKey other < tree.workKey pindex := by
    by_cases candidate : other ∈ tree.setBlockIndexCandidates
    · exact .inr (lt_of_not_ge fun notWorse => notCandidate (stays candidate notWorse))
    · exact .inl (isAnchor.covers otherKnown notFailed otherLinked candidate)
  refine
    { activating.toFlagsBacked.connectTip known overTip valid linked with
      activeSettled := fun notNull isAncestor => (belowNew notNull isAncestor).1,
      anchored := ?_ }
  rcases le_or_gt (tree.workKey pindex) (tree.workKey anchor) with anchorStays | better
  · refine ⟨anchor, stays isAnchor.candidate anchorStays, ?_, ?_⟩
    · intro ancestor notNull isAncestor
      rw [sameFlags]
      exact isAnchor.settled notNull isAncestor
    · intro other otherKnown notFailed otherLinked notCandidate
      rw [progress.nChainTx] at otherLinked
      rw [progress.workKey, progress.workKey]
      rcases outside otherKnown (notFailedBefore notFailed) otherLinked notCandidate with
        covered | pruned
      · exact covered
      · exact pruned.le.trans anchorStays
  · have candidate : pindex ∈ tree.setBlockIndexCandidates := by
      by_contra notCandidate
      refine absurd (isAnchor.covers known ?_ linked notCandidate) (not_le_of_gt better)
      rintro ⟨ancestor, ancestorKnown, isAncestor, failedValid⟩
      have unflagged := (belowNew (activating.named ancestorKnown) isAncestor).2
      simp [BlockStatus.failed, failedValid] at unflagged
    refine ⟨pindex, stays candidate le_rfl, ?_, ?_⟩
    · intro ancestor notNull isAncestor
      rw [sameFlags]
      exact belowNew notNull isAncestor
    · intro other otherKnown notFailed otherLinked notCandidate
      rw [progress.nChainTx] at otherLinked
      rw [progress.workKey, progress.workKey]
      rcases outside otherKnown (notFailedBefore notFailed) otherLinked notCandidate with
        covered | pruned
      · exact covered.trans better.le
      · exact pruned.le

/-- `FindMostWorkChain` makes progress, keeps the invariant and ends at a candidate that no
usable entry is better than. -/
theorem findMostWorkChain
    (activating : Activating Settled tree)
    (found : tree.findMostWorkChain = some (best, next)) :
    Activating Settled next ∧ Progress tree next ∧ next.chainActive = tree.chainActive ∧
      ∃ pindexNew, best = some pindexNew ∧ pindexNew ∈ next.setBlockIndexCandidates ∧
        (∀ {ancestor}, ancestor ≠ [] → ancestor <:+ pindexNew →
          (next.entry ancestor).nStatus.failed = false) ∧
        ∀ {other}, other ∈ next.mapBlockIndex → ¬ next.HasFailedAncestor other →
          (next.entry other).nChainTx ≠ 0 →
            next.workKey other ≤ next.workKey pindexNew := by
  have kept : KeptByRemoval fun current =>
      Activating Settled current ∧ Progress tree current ∧
        current.chainActive = tree.chainActive :=
    { flagsBacked := fun holds => holds.1.toFlagsBacked
      markFailedChild := fun ⟨holds, progress, sameTip⟩ known failed isAncestor notActive =>
        ⟨holds.markFailedChild known failed isAncestor notActive,
          progress.trans (.mark _ _ (fun _ => rfl) (fun _ => le_rfl) fun _ failed => failed),
          sameTip⟩
      eraseFailed := fun ⟨holds, progress, sameTip⟩ known failed =>
        ⟨holds.eraseFailed known failed, progress.trans (.of_entries rfl rfl rfl), sameTip⟩ }
  obtain ⟨⟨holds, progress, sameTip⟩, isBest, usable⟩ :=
    kept.findMostWorkLoop _ ⟨activating, .refl tree, rfl⟩ found
  refine ⟨holds, progress, sameTip, ?_⟩
  obtain ⟨anchor, isAnchor⟩ := holds.anchored
  cases best with
  | none =>
    rw [List.argmax_eq_none] at isBest
    exact absurd isAnchor.candidate (by simp [isBest])
  | some pindexNew =>
    have candidate := List.argmax_mem isBest
    refine ⟨pindexNew, rfl, candidate, ?_, ?_⟩
    · intro ancestor notNull isAncestor
      exact valid_of_testCandidate holds.toFlagsBacked (holds.candidates candidate).1
        (usable pindexNew rfl) notNull isAncestor
    · intro other known notFailed linked
      by_cases isCandidate : other ∈ next.setBlockIndexCandidates
      · exact List.le_of_mem_argmax isCandidate isBest
      · exact (isAnchor.covers known notFailed linked isCandidate).trans
          (List.le_of_mem_argmax isAnchor.candidate isBest)

end Activating

end BlockTree

end ColossusCoin
